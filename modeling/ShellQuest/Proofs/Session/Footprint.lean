/-
# What a command may touch

A line is of white space, or it is refused, or its command is carried out.  A refused line leaves
everything but the history and the lesson that was pending.  A command that is carried out keeps to
its own part of the session: those that look change nothing, `cd` only moves the player, those that
edit never do, and only `mv` ends the mission.  `Effect` already says all that a command can do, so
each of these laws is one walk through its constructors.
-/
import ShellQuest.Proofs.Session.Run

namespace ShellQuest

namespace Verb

/-- The verbs that only show something. -/
def looks : List Verb := [.help, .ls, .cat, .pwd, .clear, .exit]

/-- The verbs that change files and directories. -/
def edits : List Verb := [.mkdir, .touch, .rm, .mv, .cp, .unzip]

end Verb

/-- `q` is `p` with at most the lesson finished that was pending. -/
def LessonProgress.GrowsTo (p q : LessonProgress) : Prop :=
  q = p ∨ ∃ pending, p.current = some pending ∧ q = ⟨p.completed ++ [pending]⟩

namespace Session

/-! ## The three fates of a line -/

def Refuses (s : Session) (line : String) (e : CommandError) : Prop :=
  ∃ command, Command.ofLine? line = some command ∧
    (s.noting (Text.trim line)).perform (Text.trim line) command = .error e

/-- The line is the command `command`, which is carried out with the outcome `done`. -/
def CarriesOut (s : Session) (line : String) (command : Command) (done : Outcome) : Prop :=
  Command.ofLine? line = some command ∧
    (s.noting (Text.trim line)).perform (Text.trim line) command = .ok done

/-- Commands that change nothing though they are carried out: those that look, a removal that is
answered with the warning, an extraction after the first, and the touch of a file that is there. -/
inductive Idle (s : Session) : Command → Outcome → Prop
  | looks {command : Command} {done : Outcome} : command.verb ∈ Verb.looks → Idle s command done
  | warned {name : String} {done : Outcome} : done.output = removalWarning name →
      Idle s ⟨.rm, [name]⟩ done
  | again {args : List String} {done : Outcome} : s.world.archive.isSome = true →
      Idle s ⟨.unzip, args⟩ done
  | renewed {name : String} {done : Outcome} : s.hasItem name = true → Idle s ⟨.touch, [name]⟩ done

variable {s t : Session} {command : Command} {line : String} {done : Outcome} {e : CommandError}

theorem line_cases (s : Session) (line : String) :
    Text.IsBlank line ∨ (∃ e, s.Refuses line e) ∨ ∃ command done, s.CarriesOut line command done := by
  cases hcommand : Command.ofLine? line with
  | none => exact .inl (Command.ofLine?_eq_none.1 hcommand)
  | some command =>
      cases hperform : (s.noting (Text.trim line)).perform (Text.trim line) command with
      | error e => exact .inr (.inl ⟨e, command, hcommand, hperform⟩)
      | ok done => exact .inr (.inr ⟨command, done, hcommand, hperform⟩)

theorem process_of_blank (h : Text.IsBlank line) : (s.process line).session = s := by
  rw [process_of_none s (Command.ofLine?_eq_none.2 h)]

/-- A refused line is noted, and the lesson that is pending is graded. -/
theorem Refuses.process_eq (h : s.Refuses line e) : ∃ command lessons,
    (s.process line).session = { s.noting (Text.trim line) with lessons } ∧
      lessons = ((s.noting (Text.trim line)).graded command false).lessons := by
  obtain ⟨command, hcommand, hperform⟩ := h
  obtain ⟨lessons, hgraded⟩ := graded_eq (s.noting (Text.trim line)) command false
  refine ⟨command, lessons, ?_, by rw [hgraded]⟩
  rw [process_of_command s hcommand]
  simp only [judge, hperform, grade_session]
  exact hgraded

/-- A line whose command is carried out leaves the outcome but for the lessons. -/
theorem CarriesOut.process_eq (h : s.CarriesOut line command done) :
    ∃ lessons, (s.process line).session = { done.session with lessons } := by
  obtain ⟨hcommand, hperform⟩ := h
  rw [process_of_command s hcommand]
  simp only [judge, hperform]
  split
  · exact ⟨_, rfl⟩
  · simp only [grade_session]
    exact graded_eq done.session command true

theorem CarriesOut.effect (h : s.CarriesOut line command done) :
    Effect (s.noting (Text.trim line)) command done.session :=
  effect_of_execute (perform_ok.1 h.2)

theorem exists_carriesOut_iff (hcommand : Command.ofLine? line = some command) :
    (∃ done, s.CarriesOut line command done) ↔
      ∃ t, Effect (s.noting (Text.trim line)) command t := by
  constructor
  · rintro ⟨done, h⟩
    exact ⟨done.session, h.effect⟩
  · rintro ⟨t, h⟩
    obtain ⟨done, hexecute, -⟩ := execute_ok_iff.2 h
    exact ⟨done, hcommand, perform_ok.2 hexecute⟩

theorem refuses_of_unknown {word : String} (hcommand : Command.ofLine? line = some command)
    (hverb : command.verb = .unknown word) : ∃ e, s.Refuses line e := by
  rcases perform_cases (s.noting (Text.trim line)) (Text.trim line) command with h | ⟨_, token, -, h⟩
  · refine ⟨Suggestion.answer word, command, hcommand, ?_⟩
    rw [h, execute, hverb]
  · exact ⟨.notExecutable token, command, hcommand, h⟩

/-! ## Lessons -/

theorem lessons_graded (s : Session) (command : Command) (succeeded : Bool) :
    s.lessons.GrowsTo (s.graded command succeeded).lessons := by
  rw [graded, grade]
  split
  · exact .inl rfl
  · next lesson hcurrent =>
    split
    · have hpending : s.lessons.isComplete lesson = false := by
        simpa using List.find?_some hcurrent
      refine .inr ⟨lesson, hcurrent, ?_⟩
      show s.lessons.complete lesson = _
      rw [LessonProgress.complete, hpending]
      rfl
    · exact .inl rfl

/-! ## Footprints -/

theorem effect_of_looks (h : Effect s command t) (hverb : command.verb ∈ Verb.looks) : t = s := by
  cases h with
  | shows | renews | warns | finds => rfl
  | _ => simp [Verb.looks] at hverb

/-- Only `cd` moves the player. -/
theorem current_of_effect (h : Effect s command t) (hcd : command.verb ≠ .cd)
    (hreset : command.verb ≠ .reset) : t.current = s.current := by
  cases h with
  | goes => exact absurd rfl hcd
  | restarts => exact absurd rfl hreset
  | _ => rfl

/-- Only the verbs that edit change the world. -/
theorem world_of_effect (h : Effect s command t) (hedits : command.verb ∉ Verb.edits)
    (hreset : command.verb ≠ .reset) : t.world = s.world := by
  cases h with
  | shows | goes | renews | warns | finds => rfl
  | restarts => exact absurd rfl hreset
  | _ => simp [Verb.edits] at hedits

theorem missionComplete_of_effect_cd (h : Effect s command t) (hcd : command.verb = .cd) :
    t.missionComplete = s.missionComplete := by
  cases h with
  | goes | shows | renews | warns | finds => rfl
  | _ => cases hcd

theorem mv_of_missionComplete (h : Effect s command t) (hs : s.missionComplete = false)
    (ht : t.missionComplete = true) : command.verb = .mv := by
  cases h with
  | returns => rfl
  | restarts => cases ht
  | _ => exact nomatch hs.symm.trans ht

theorem history_of_effect (h : Effect s command t) (hreset : command.verb ≠ .reset) :
    t.history = s.history := by
  cases h with
  | restarts => exact absurd rfl hreset
  | _ => rfl

theorem inventory_of_effect (h : Effect s command t) (hs : s.inventory = []) :
    t.inventory = [] := by
  cases h with
  | restarts => rfl
  | _ => exact hs

/-- A removal is not answered like one that was put off. -/
theorem removed_ne_warning (name : String) : s!"Removed: {name}" ≠ removalWarning name := by
  intro h
  have hfirst : (s!"Removed: {name}").toList.head? = (removalWarning name).toList.head? := by
    rw [h]
  have hremoved : (s!"Removed: {name}").toList.head? = some 'R' := by
    rw [String.toList_append]
    rfl
  rw [hremoved] at hfirst
  simp [removalWarning, Markup.error] at hfirst

theorem rm_of_warned {name : String} (h : s.rm name = .ok done)
    (houtput : done.output = removalWarning name) : done.session = s := by
  simp only [rm, check_ok] at h
  obtain ⟨-, h⟩ := h
  split at h
  · cases h
  · split at h
    · cases h
      rfl
    · cases h
      exact absurd houtput (removed_ne_warning name)

theorem Idle.sameGame (h : s.Idle command done) (hdone : s.CarriesOut line command done) :
    SameGame done.session s := by
  have heffect := hdone.effect
  cases h with
  | looks hverb =>
      rw [effect_of_looks heffect hverb]
      exact sameGame_noting s _
  | warned houtput =>
      have hrm := perform_ok.1 hdone.2
      rw [rm_of_warned hrm houtput]
      exact sameGame_noting s _
  | again harchive =>
      generalize done.session = next at heffect ⊢
      cases heffect with
      | shows h => exact absurd h id
      | finds => exact sameGame_noting s _
      | extracts _ hnone =>
          have hnone : s.world.archive = none := hnone
          rw [hnone] at harchive
          cases harchive
  | renewed hitem =>
      generalize done.session = next at heffect ⊢
      cases heffect with
      | shows h => exact absurd h id
      | renews => exact sameGame_noting s _
      | adds _ hvacant =>
          have hfree : s.hasItem _ = false := hvacant.2
          rw [hfree] at hitem
          cases hitem

/-! ## Every line of every game -/

namespace Refuses

theorem sameGame (h : s.Refuses line e) : SameGame (s.process line).session s := by
  obtain ⟨_, lessons, hprocess, -⟩ := h.process_eq
  rw [hprocess]
  exact ⟨rfl, rfl, rfl⟩

theorem history (h : s.Refuses line e) :
    (s.process line).session.history = s.history ++ [Text.trim line] := by
  obtain ⟨_, lessons, hprocess, -⟩ := h.process_eq
  rw [hprocess]
  rfl

theorem inventory (h : s.Refuses line e) : (s.process line).session.inventory = s.inventory := by
  obtain ⟨_, lessons, hprocess, -⟩ := h.process_eq
  rw [hprocess]
  rfl

theorem lessons (h : s.Refuses line e) : s.lessons.GrowsTo (s.process line).session.lessons := by
  obtain ⟨command, lessons, hprocess, rfl⟩ := h.process_eq
  rw [hprocess]
  exact lessons_graded (s.noting (Text.trim line)) command false

end Refuses

namespace CarriesOut

theorem sameGame (h : s.CarriesOut line command done) :
    SameGame (s.process line).session done.session := by
  obtain ⟨lessons, hprocess⟩ := h.process_eq
  rw [hprocess]
  exact ⟨rfl, rfl, rfl⟩

theorem world (h : s.CarriesOut line command done) (hedits : command.verb ∉ Verb.edits)
    (hreset : command.verb ≠ .reset) : (s.process line).session.world = s.world := by
  have heffect := world_of_effect h.effect hedits hreset
  exact h.sameGame.world.trans heffect

theorem current (h : s.CarriesOut line command done) (hcd : command.verb ≠ .cd)
    (hreset : command.verb ≠ .reset) : (s.process line).session.current = s.current := by
  have heffect := current_of_effect h.effect hcd hreset
  exact h.sameGame.current.trans heffect

theorem history (h : s.CarriesOut line command done) (hreset : command.verb ≠ .reset) :
    (s.process line).session.history = s.history ++ [Text.trim line] := by
  obtain ⟨lessons, hprocess⟩ := h.process_eq
  have heffect := history_of_effect h.effect hreset
  rw [hprocess]
  exact heffect

end CarriesOut

/-- A line is added to the history, unless it is white space or clears it. -/
theorem history_process (s : Session) (line : String) :
    (s.process line).session.history =
      match Command.ofLine? line with
      | none => s.history
      | some command =>
          if command.verb = .reset then [] else s.history ++ [Text.trim line] := by
  cases hcommand : Command.ofLine? line with
  | none => rw [process_of_none s hcommand]
  | some command =>
      dsimp only
      split
      · next hreset =>
        have hperform : (s.noting (Text.trim line)).perform (Text.trim line) command =
            .ok (.shows start resetText) := by
          rw [perform, execute, hreset]
        rw [process_of_command s hcommand, judge, hperform]
        simp only [hreset, Verb.redrawsScreen, if_true]
        rfl
      · next hreset =>
        rcases line_cases s line with hblank | ⟨e, h⟩ | ⟨command', done, h⟩
        · rw [Command.ofLine?_eq_none.2 hblank] at hcommand
          cases hcommand
        · exact h.history
        · obtain rfl : command = command' := Option.some.inj (hcommand.symm.trans h.1)
          exact h.history hreset

theorem carriesOut_mv_of_missionComplete (hs : s.missionComplete = false)
    (ht : (s.process line).session.missionComplete = true) :
    ∃ command done, s.CarriesOut line command done ∧ command.verb = .mv := by
  rcases line_cases s line with hblank | ⟨e, h⟩ | ⟨command, done, h⟩
  · rw [process_of_blank hblank, hs] at ht
    cases ht
  · rw [h.sameGame.missionComplete, hs] at ht
    cases ht
  · rw [h.sameGame.missionComplete] at ht
    exact ⟨command, done, h, mv_of_missionComplete h.effect hs ht⟩

theorem inventory_process (hs : s.inventory = []) (line : String) :
    (s.process line).session.inventory = [] := by
  rcases line_cases s line with hblank | ⟨e, h⟩ | ⟨command, done, h⟩
  · rw [process_of_blank hblank]
    exact hs
  · rw [h.inventory]
    exact hs
  · obtain ⟨lessons, hprocess⟩ := h.process_eq
    have heffect := inventory_of_effect h.effect hs
    rw [hprocess]
    exact heffect

theorem inventory_after (lines : List String) : (start.after lines).inventory = [] :=
  after_invariant (P := fun s => s.inventory = []) (fun _ line _ hs => inventory_process hs line) rfl

/-- **Refused lines are atomic, and every command keeps to its own part of the session.**  In every
game, a line of white space changes nothing.  A refused line, an unknown word always being one,
leaves the game and the inventory, is noted, and finishes at most the lesson that was pending.  Of
the lines that are carried out, the idle ones leave the game, `cd` leaves the world and the mission,
and those that edit leave the player where they stand.  The mission is ended by an `mv` that is
carried out or not at all.  A line that does not reset the game only adds itself to the history, and
the inventory stays empty. -/
theorem footprint_after (lines : List String) (line : String) :
    let s := start.after lines
    let t := (s.process line).session
    (Text.IsBlank line ∨ (∃ e, s.Refuses line e) ∨ ∃ command done, s.CarriesOut line command done) ∧
    (Text.IsBlank line → t = s) ∧
    (∀ command word, Command.ofLine? line = some command → command.verb = .unknown word →
      ∃ e, s.Refuses line e) ∧
    (∀ e, s.Refuses line e →
      t.world = s.world ∧ t.current = s.current ∧ t.missionComplete = s.missionComplete ∧
      t.inventory = s.inventory ∧ t.history = s.history ++ [Text.trim line] ∧
      s.lessons.GrowsTo t.lessons) ∧
    (∀ command done, s.CarriesOut line command done →
      (s.Idle command done →
        t.world = s.world ∧ t.current = s.current ∧ t.missionComplete = s.missionComplete) ∧
      (command.verb = .cd → t.world = s.world ∧ t.missionComplete = s.missionComplete) ∧
      (command.verb ∈ Verb.edits → t.current = s.current)) ∧
    (s.missionComplete = false → t.missionComplete = true →
      ∃ command done, s.CarriesOut line command done ∧ command.verb = .mv) ∧
    (Command.resets line = false → ¬ Text.IsBlank line →
      t.history = s.history ++ [Text.trim line]) ∧
    t.inventory = [] := by
  intro s t
  refine ⟨line_cases s line, process_of_blank, fun _ _ => refuses_of_unknown, ?_, ?_,
    carriesOut_mv_of_missionComplete, ?_, ?_⟩
  · intro e h
    have hgame := h.sameGame
    exact ⟨hgame.world, hgame.current, hgame.missionComplete, h.inventory, h.history, h.lessons⟩
  · intro command done h
    refine ⟨?_, ?_, ?_⟩
    · intro hidle
      have hgame := h.sameGame.trans (hidle.sameGame h)
      exact ⟨hgame.world, hgame.current, hgame.missionComplete⟩
    · intro hcd
      have hworld := h.world (by simp [hcd, Verb.edits]) (by simp [hcd])
      have hmission := missionComplete_of_effect_cd h.effect hcd
      exact ⟨hworld, h.sameGame.missionComplete.trans hmission⟩
    · intro hedits
      have hcd : command.verb ≠ .cd := fun hcd => by simp [hcd, Verb.edits] at hedits
      have hreset : command.verb ≠ .reset := fun hreset => by simp [hreset, Verb.edits] at hedits
      exact h.current hcd hreset
  · intro hline hwords
    rcases line_cases s line with hblank | ⟨e, h⟩ | ⟨command, done, h⟩
    · exact absurd hblank hwords
    · exact h.history
    · exact h.history (verb_ne_reset hline h.1)
  · have hinventory : s.inventory = [] := inventory_after lines
    exact inventory_process hinventory line

end Session

end ShellQuest
