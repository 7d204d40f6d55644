/-
# The tree of directories in every game

Every line keeps the directories a tree, and the player in it.  From this follow the laws that a
player relies on: no way leads to a directory that is not there, the way up is always the recorded
one, and a line that does not reset the game at most adds one directory to the world.
-/
import ShellQuest.Proofs.Session.Run
import ShellQuest.Proofs.World.Charted

namespace ShellQuest.Session

open World

/-- The world is one that a game can get to, and the player stands in it. -/
structure Placed (s : Session) : Prop where
  charted : s.world.Charted
  current_lt : s.current < s.world.size

variable {s t : Session} {command : Command} {line : String} {w : World}

/-! ## Ways -/

theorem step_lt {path : Option String} {start next : LocationId} {segment : String}
    (hw : w.Graph) (hstart : start < w.size) (h : step w path start segment = .ok next) :
    next < w.size := by
  unfold step at h
  split at h
  · cases h
    exact hw.home_lt
  · split at h
    · split at h
      · next above habove =>
        cases h
        rw [hw.parentOf_eq hstart] at habove
        exact hw.lt_size_of_parent hstart habove
      · cases h
    · split at h
      · cases h
      · split at h
        · cases h
        · next exit hexit =>
          split at h
          · cases h
          · cases h
            exact hw.lt_size_of_mem_exits hstart (exitNamed_eq_some hexit).1

/-- A step never looks for a way up in vain: only home has none. -/
theorem step_ne_parentNotFound {path : Option String} {start : LocationId} {segment : String}
    (hw : w.Graph) (hstart : start < w.size) :
    step w path start segment ≠ .error .parentNotFound := by
  unfold step
  split
  · simp
  · split
    · split
      · simp
      · next habove =>
        rw [hw.parentOf_eq hstart] at habove
        have hhome : start = LocationId.home := by
          by_contra hne
          obtain ⟨p, -, hp⟩ := hw.parent_lt start hstart hne
          rw [hp] at habove
          cases habove
        simp [hhome]
    · split
      · simp
      · split
        · split
          · simp
          · simp
        · split
          · split
            · simp
            · simp
          · simp

theorem walk_lt {path : String} {segments : List String} {start next : LocationId}
    (hw : w.Graph) (hstart : start < w.size) (h : walk w path start segments = .ok next) :
    next < w.size := by
  induction segments generalizing start with
  | nil =>
      cases h
      exact hstart
  | cons segment segments ih =>
      rw [walk] at h
      split at h
      · next between hstep => exact ih (step_lt hw hstart hstep) h
      · cases h

theorem walk_ne_parentNotFound {path : String} {segments : List String} {start : LocationId}
    (hw : w.Graph) (hstart : start < w.size) :
    walk w path start segments ≠ .error .parentNotFound := by
  induction segments generalizing start with
  | nil => simp [walk]
  | cons segment segments ih =>
      rw [walk]
      split
      · next between hstep => exact ih (step_lt hw hstart hstep)
      · next e hstep =>
        intro h
        cases h
        exact step_ne_parentNotFound hw hstart hstep

theorem destination_lt {target : String} {next : LocationId} (hs : s.Placed)
    (h : s.destination target = .ok next) : next < s.world.size := by
  rw [destination] at h
  split at h
  · refine walk_lt hs.charted.graph ?_ h
    split
    · exact hs.charted.graph.home_lt
    · exact hs.current_lt
  · exact step_lt hs.charted.graph hs.current_lt h

/-! ## Refusals

Of all refusals of commands, only those of `cd` speak of ways up. -/

theorem withArg_ne {args : List String} {missing usage : String} {e : CommandError}
    {f : String → Except CommandError Outcome} (hf : ∀ arg, f arg ≠ .error e)
    (hmissing : CommandError.missingArgument missing ≠ e)
    (husage : CommandError.tooManyArguments usage ≠ e) :
    withArg args missing usage f ≠ .error e := by
  match args with
  | [] => simpa [withArg] using hmissing
  | [arg] => exact hf arg
  | _ :: _ :: _ => simpa [withArg] using husage

theorem withTwoArgs_ne {args : List String} {missing : String} {e : CommandError}
    {f : String → String → Except CommandError Outcome}
    (hf : ∀ source target, f source target ≠ .error e)
    (hmissing : CommandError.missingArgument missing ≠ e)
    (husage : ∀ advice, CommandError.tooManyArguments advice ≠ e) :
    withTwoArgs args missing f ≠ .error e := by
  match args with
  | [] => simpa [withTwoArgs] using hmissing
  | [_] => simpa [withTwoArgs] using hmissing
  | [source, target] => exact hf source target
  | _ :: _ :: _ :: _ => simpa [withTwoArgs] using husage _

theorem cd_ne_parentNotFound (hs : s.Placed) (target : String) :
    s.cd target ≠ .error .parentNotFound := by
  rw [cd]
  split
  · dsimp only
    split
    · simp
    · next e hwalk =>
      intro h
      cases h
      refine walk_ne_parentNotFound hs.charted.graph ?_ hwalk
      split
      · exact hs.charted.graph.home_lt
      · exact hs.current_lt
  · split
    · simp
    · next e hstep =>
      intro h
      cases h
      exact step_ne_parentNotFound hs.charted.graph hs.current_lt hstep

theorem execute_ne_parentNotFound (hs : s.Placed) (command : Command) :
    s.execute command ≠ .error .parentNotFound := by
  obtain ⟨verb, args⟩ := command
  cases verb with
  | help | pwd | clear | exit | reset => simp [execute]
  | ls =>
      cases args with
      | nil => simp [execute, ls]
      | cons target args => simp [execute, ls, listRefusal, ite_eq_iff]
  | cd => exact withArg_ne (cd_ne_parentNotFound hs) (by simp) (by simp)
  | cat =>
      refine withArg_ne (fun file => ?_) (by simp) (by simp)
      simp only [cat, ne_eq, ite_eq_iff, reduceCtorEq, Except.error.injEq, and_false, false_or,
        not_and]
      intro _ _
      split
      · simp
      · simp
  | mkdir => exact withArg_ne (fun name => by simp [mkdir, ite_eq_iff]) (by simp) (by simp)
  | touch => exact withArg_ne (fun name => by simp [touch, ite_eq_iff]) (by simp) (by simp)
  | rm =>
      refine withArg_ne (fun name => ?_) (by simp) (by simp)
      rw [rm]
      split
      · simp
      · split
        · simp
        · simp [ite_eq_iff]
  | mv =>
      refine withTwoArgs_ne (fun source target => ?_) (by simp) (by simp)
      have hreturn : s.returnTreasure ≠ .error .parentNotFound := by
        rw [returnTreasure]
        split
        · simp
        · split
          · simp
          · simp
      have hpath : s.pathMoveRefusal source target ≠ .parentNotFound := by
        simp [pathMoveRefusal, ite_eq_iff]
      simp [mv, hreturn, hpath, ite_eq_iff]
  | cp => exact withTwoArgs_ne (fun source target => by simp [cp, ite_eq_iff]) (by simp) (by simp)
  | unzip => exact withArg_ne (fun file => by simp [unzip, ite_eq_iff]) (by simp) (by simp)
  | unknown word =>
      simp only [execute, Suggestion.answer]
      split
      · simp [ite_eq_iff]
      · simp

theorem perform_ne_parentNotFound (hs : s.Placed) (typed : String) (command : Command) :
    s.perform typed command ≠ .error .parentNotFound := by
  rcases perform_cases s typed command with h | ⟨word, token, -, h⟩
  · rw [h]
    exact execute_ne_parentNotFound hs command
  · rw [h]
    simp

/-! ## Every line keeps the tree -/

namespace Placed

theorem start : Placed start where
  charted := charted_seeded
  current_lt := by decide

theorem of_sameGame (hs : s.Placed) (h : SameGame t s) : t.Placed where
  charted := by
    rw [h.world]
    exact hs.charted
  current_lt := by
    rw [h.world, h.current]
    exact hs.current_lt

theorem withFiles (hs : s.Placed) (h : w.directories = s.world.directories)
    (harchive : w.archive = s.world.archive) (finished : Bool) :
    Placed { s with world := w, missionComplete := finished } where
  charted := hs.charted.of_directories_eq h harchive
  current_lt := by
    rw [size_congr h]
    exact hs.current_lt

theorem effect (hs : s.Placed) (h : Effect s command t) : t.Placed := by
  cases h with
  | shows | renews | warns | finds => exact hs
  | goes h => exact ⟨hs.charted, destination_lt (s := s) hs h⟩
  | makes =>
      refine ⟨hs.charted.createDirectory hs.current_lt, ?_⟩
      exact Nat.lt_of_lt_of_le hs.current_lt (extends_createDirectory _ _ _ _).size_le
  | adds => exact hs.withFiles (addFile_relists _ _ _ _).directories rfl _
  | drops _ _ h =>
      have hr := removeFile_relists h
      exact hs.withFiles hr.directories hr.archive _
  | renames _ _ _ _ _ h =>
      have hr := renameFile_relists h
      exact hs.withFiles hr.directories hr.archive _
  | returns _ _ _ h =>
      obtain ⟨u, hu, hr⟩ := relocateFile_relists h
      exact hs.withFiles (hr.directories.trans hu.directories) (hr.archive.trans hu.archive) _
  | copies => exact hs.withFiles (copyFile_relists _ _ _ _).directories rfl _
  | extracts _ h =>
      refine ⟨hs.charted.extractArchive h, ?_⟩
      exact Nat.lt_of_lt_of_le hs.current_lt (extends_extractArchive h).size_le
  | restarts => exact start

theorem process (hs : s.Placed) (line : String) : (s.process line).session.Placed :=
  process_invariant (fun h hs => hs.of_sameGame h) (fun _ h hs => hs.effect h) hs

theorem after (lines : List String) : (Session.start.after lines).Placed :=
  after_invariant (fun _ line _ hs => hs.process line) start

end Placed

/-! ## What a line adds -/

theorem effect_extends (h : Effect s command t) (hverb : command.verb ≠ .reset) :
    t.world.Extends s.world ∧ t.world.size ≤ s.world.size + 1 := by
  have hfiles : ∀ {w : World}, w.directories = s.world.directories →
      w.Extends s.world ∧ w.size ≤ s.world.size + 1 := by
    intro w hw
    refine ⟨Extends.of_directories_eq hw, ?_⟩
    rw [size_congr hw]
    exact Nat.le_succ _
  cases h with
  | shows | renews | warns | finds | goes => exact hfiles rfl
  | makes => exact ⟨extends_createDirectory _ _ _ _, Nat.le_of_eq (size_createDirectory _ _ _ _)⟩
  | adds => exact hfiles (addFile_relists _ _ _ _).directories
  | drops _ _ h => exact hfiles (removeFile_relists h).directories
  | renames _ _ _ _ _ h => exact hfiles (renameFile_relists h).directories
  | returns _ _ _ h =>
      obtain ⟨u, hu, hr⟩ := relocateFile_relists h
      exact hfiles (hr.directories.trans hu.directories)
  | copies => exact hfiles (copyFile_relists _ _ _ _).directories
  | extracts _ h =>
      refine ⟨extends_extractArchive h, ?_⟩
      rw [size_congr (directories_extractArchive h)]
      exact size_archiveDirectory_le _
  | restarts => exact absurd rfl hverb

/-- A line that does not reset the game loses no directory and makes at most one. -/
theorem process_extends (s : Session) (hline : Command.resets line = false) :
    (s.process line).session.world.Extends s.world ∧
      (s.process line).session.world.size ≤ s.world.size + 1 := by
  rcases process_game s line with h | ⟨command, t, hcommand, h, ht⟩
  · rw [h.world]
    exact ⟨Extends.refl _, Nat.le_succ _⟩
  · rw [ht.world]
    have heffect := effect_extends h (verb_ne_reset hline hcommand)
    exact heffect

/-- **The directories of every game are a tree**, in which everything is where it is looked for.
The table is the graph of its ways up and has grown from the one at the start; the player, the
archive, and all that is noted as an exit or a parent are in it, as is whatever a path leads to
from there; no exit is listed twice, a key finds its directory, and the way up is the recorded one,
so none is ever missed.  A line that does not reset the game keeps all of it and adds at most one
directory. -/
theorem tree_after (lines : List String) :
    let s := start.after lines
    s.world.Graph ∧ s.world.Extends seeded ∧
    s.current < s.world.size ∧ (∀ a, s.world.archive = some a → a < s.world.size) ∧
    (∀ i < s.world.size,
      (s.world.location i).exits.Nodup ∧
      (∀ e ∈ (s.world.location i).exits, e < s.world.size) ∧
      (∀ p, (s.world.location i).parent = some p → p < s.world.size) ∧
      s.world.findKey (s.world.location i).key = some i ∧
      s.world.parentOf i = (s.world.location i).parent) ∧
    (∀ path segments origin next, origin < s.world.size →
      walk s.world path origin segments = .ok next → next < s.world.size) ∧
    (∀ typed command, (s.noting typed).perform typed command ≠ .error .parentNotFound) ∧
    (∀ line, Command.resets line = false →
      (s.process line).session.world.Extends s.world ∧
        (s.process line).session.world.size ≤ s.world.size + 1) := by
  intro s
  have hs : s.Placed := Placed.after lines
  have hgraph := hs.charted.graph
  refine ⟨hgraph, hs.charted.grown, hs.current_lt, hs.charted.archive_lt, ?_, ?_, ?_, ?_⟩
  · intro i hi
    exact ⟨hgraph.exits_nodup hi, fun e he => hgraph.lt_size_of_mem_exits hi he,
      fun p hp => hgraph.lt_size_of_parent hi hp, hgraph.findKey_key hi, hgraph.parentOf_eq hi⟩
  · intro path segments origin next horigin h
    exact walk_lt hgraph horigin h
  · intro typed command
    exact perform_ne_parentNotFound (hs.of_sameGame (sameGame_noting s typed)) typed command
  · intro line hline
    exact process_extends s hline

end ShellQuest.Session
