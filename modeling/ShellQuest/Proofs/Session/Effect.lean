/-
# Effects of commands

Everything that a command can do to a session, one constructor for each thing that can happen,
with all the conditions under which it happens.  `execute_ok_iff` says that the list is complete
and that each entry does happen.  What a line does is then read off `leaves_process`: nothing, if
it has no words, or else it is noted, its command is refused or takes effect, and the lesson that
is pending is graded.
-/
import ShellQuest.Proofs.Command.Written
import ShellQuest.Proofs.World.Files
import ShellQuest.Session.Turn

namespace ShellQuest.Session

/-! ## Conditions -/

/-- No file and no directory of this name lies where the player stands. -/
def Vacant (s : Session) (name : String) : Prop := s.hasExit name = false ∧ s.hasItem name = false

/-- The commands that only show something, where they are carried out. -/
def Shown (s : Session) (command : Command) : Prop :=
  match command.verb, command.args with
  | .help, _ | .pwd, _ | .clear, _ | .exit, _ => True
  | .ls, [] => True
  | .cat, [file] =>
      s.hasExit file = false ∧ s.hasItem file = true ∧ (s.world.content file).isSome = true
  | _, _ => False

def destination (s : Session) (target : String) : Except CommandError LocationId :=
  if Text.hasChar target '/' then
    walk s.world target (if Text.startsWith target "/" then LocationId.home else s.current)
      (Text.segments target)
  else step s.world none s.current target

def directoryDescription (s : Session) (name : String) : String :=
  if s.world.archive = some s.current ∧ name = World.relicsName then World.relicsDescription
  else s!"A directory you created named {name}."

/-- A move of a file here is the last step of the mission. -/
def IsReturn (s : Session) (source target : String) : Prop :=
  source = treasure ∧ s.current = LocationId.hiddenVault ∧ Text.contains target "archive" = true

/-- The file of the archive is here, and no directory bears its name. -/
def AtArchiveFile (s : Session) : Prop :=
  s.current = LocationId.downloads ∧ s.hasExit "archive.zip" = false ∧
    s.hasItem "archive.zip" = true

/-! ## Effects -/

/-- `Effect s command t`: carrying out `command` takes the session `s` to `t`. -/
inductive Effect (s : Session) : Command → Session → Prop
  | shows {command : Command} : s.Shown command → Effect s command s
  | goes {target : String} {next : LocationId} : s.destination target = .ok next →
      Effect s ⟨.cd, [target]⟩ { s with current := next }
  | makes {name : String} : isReservedName name = false → s.Vacant name →
      Effect s ⟨.mkdir, [name]⟩ { s with
        world := (s.world.createDirectory s.current name (s.directoryDescription name)).1 }
  | renews {name : String} : isReservedName name = false → s.hasExit name = false →
      s.hasItem name = true → Effect s ⟨.touch, [name]⟩ s
  | adds {name : String} : isReservedName name = false → s.Vacant name →
      Effect s ⟨.touch, [name]⟩ { s with world := s.world.addFile s.current name "" }
  | warns {name : String} : s.hasExit name = false → s.hasItem name = true →
      name ∈ protectedFiles → s.repeatsLast = false → Effect s ⟨.rm, [name]⟩ s
  | drops {name : String} {world : World} : s.hasExit name = false →
      (name ∈ protectedFiles → s.repeatsLast = true) →
      s.world.removeFile s.current name = some world → Effect s ⟨.rm, [name]⟩ { s with world }
  | renames {source target : String} {world : World} : Text.hasChar source '/' = false →
      source ≠ target → ¬ s.IsReturn source target → s.leavesDirectory target = false →
      s.hasItem target = false → s.world.renameFile s.current source target = some world →
      Effect s ⟨.mv, [source, target]⟩ { s with world }
  | returns {target : String} {relics : LocationId} {world : World} : s.IsReturn treasure target →
      s.world.archive.isSome = true → s.world.relics = some relics →
      s.world.relocateFile LocationId.hiddenVault relics treasure = some world →
      Effect s ⟨.mv, [treasure, target]⟩ { s with world, missionComplete := true }
  | copies {source target : String} : Text.hasChar source '/' = false → source ≠ target →
      s.hasItem source = true → s.Vacant target → isReservedName target = false →
      Effect s ⟨.cp, [source, target]⟩ { s with
        world := s.world.copyFile s.current source target }
  | finds : s.AtArchiveFile → s.world.archive.isSome = true → Effect s ⟨.unzip, ["archive.zip"]⟩ s
  | extracts : s.AtArchiveFile → s.world.archive = none → s.hasItem World.archiveName = false →
      Effect s ⟨.unzip, ["archive.zip"]⟩ { s with world := s.world.extractArchive.1 }
  | restarts {args : List String} : Effect s ⟨.reset, args⟩ start

variable {s t : Session} {command : Command} {done : Outcome}

/-! ## Each handler -/

theorem withArg_ok {args : List String} {missing usage : String}
    {f : String → Except CommandError Outcome} (h : withArg args missing usage f = .ok done) :
    ∃ arg, args = [arg] ∧ f arg = .ok done := by
  match args, h with
  | [arg], h => exact ⟨arg, rfl, h⟩

theorem withTwoArgs_ok {args : List String} {missing : String}
    {f : String → String → Except CommandError Outcome}
    (h : withTwoArgs args missing f = .ok done) :
    ∃ source target, args = [source, target] ∧ f source target = .ok done := by
  match args, h with
  | [source, target], h => exact ⟨source, target, rfl, h⟩

theorem check_ok {p : Prop} [Decidable p] {e : CommandError} {rest : Except CommandError Outcome} :
    (if p then .error e else rest) = .ok done ↔ ¬ p ∧ rest = .ok done := by
  by_cases hp : p
  · simp [hp]
  · simp [hp]

theorem ls_effect {args : List String} (h : s.ls args = .ok done) :
    Effect s ⟨.ls, args⟩ done.session := by
  cases args with
  | nil =>
      cases h
      exact .shows trivial
  | cons target args => cases h

theorem cd_effect {target : String} (h : s.cd target = .ok done) :
    Effect s ⟨.cd, [target]⟩ done.session := by
  rw [cd] at h
  split at h
  · next hslash =>
    dsimp only at h
    split at h
    · next next hnext =>
      cases h
      refine .goes ?_
      rw [destination, if_pos hslash]
      exact hnext
    · cases h
  · next hslash =>
    split at h
    · next next hnext =>
      cases h
      refine .goes ?_
      rw [destination, if_neg hslash]
      exact hnext
    · cases h

theorem cat_effect {file : String} (h : s.cat file = .ok done) :
    Effect s ⟨.cat, [file]⟩ done.session := by
  simp only [cat, check_ok, Bool.not_eq_true, Bool.not_eq_false'] at h
  obtain ⟨hexit, hitem, h⟩ := h
  split at h
  · cases h
  · next text htext =>
    cases h
    exact .shows ⟨hexit, hitem, by simp [htext]⟩

theorem mkdir_effect {name : String} (h : s.mkdir name = .ok done) :
    Effect s ⟨.mkdir, [name]⟩ done.session := by
  simp only [mkdir, check_ok, Bool.not_eq_true] at h
  obtain ⟨hname, hexit, hitem, h⟩ := h
  have heffect := Effect.makes hname ⟨hexit, hitem⟩
  split at h
  · next hrelics =>
    cases h
    rwa [directoryDescription, if_pos hrelics] at heffect
  · next hrelics =>
    cases h
    rwa [directoryDescription, if_neg hrelics] at heffect

theorem touch_effect {name : String} (h : s.touch name = .ok done) :
    Effect s ⟨.touch, [name]⟩ done.session := by
  simp only [touch, check_ok, Bool.not_eq_true] at h
  obtain ⟨hname, hexit, h⟩ := h
  split at h
  · next hitem =>
    cases h
    exact .renews hname hexit hitem
  · next hitem =>
    cases h
    exact .adds hname ⟨hexit, by simpa using hitem⟩

theorem rm_effect {name : String} (h : s.rm name = .ok done) :
    Effect s ⟨.rm, [name]⟩ done.session := by
  simp only [rm, check_ok, Bool.not_eq_true] at h
  obtain ⟨hexit, h⟩ := h
  split at h
  · cases h
  · next world hworld =>
    have hitem : s.hasItem name = true := Location.hasItem_iff.2 (World.mem_of_removeFile hworld)
    split at h
    · next hwarn =>
      cases h
      simp only [Bool.and_eq_true, List.contains_iff_mem, Bool.not_eq_true'] at hwarn
      exact .warns hexit hitem hwarn.1 hwarn.2
    · next hwarn =>
      cases h
      refine .drops hexit ?_ hworld
      intro hprotected
      simpa [hprotected] using hwarn

theorem mv_effect {source target : String} (h : s.mv source target = .ok done) :
    Effect s ⟨.mv, [source, target]⟩ done.session := by
  simp only [mv, check_ok, Bool.not_eq_true, Bool.not_eq_false'] at h
  obtain ⟨hslash, hitem, hne, h⟩ := h
  split at h
  · next hreturn =>
    obtain ⟨rfl, hvault, -⟩ := id hreturn
    simp only [returnTreasure, check_ok, Option.isNone_iff_eq_none] at h
    obtain ⟨harchive, h⟩ := h
    split at h
    · cases h
    · next relics hrelics =>
      have htreasure : treasure ∈ (s.world.location LocationId.hiddenVault).items := by
        rw [← hvault]
        exact Location.hasItem_iff.1 hitem
      obtain ⟨world, hworld⟩ := World.exists_relocateFile (j := relics) htreasure
      rw [hworld] at h
      cases h
      exact .returns hreturn (Option.isSome_iff_ne_none.2 harchive) hrelics hworld
  · next hreturn =>
    simp only [check_ok, Bool.not_eq_true] at h
    obtain ⟨hleaves, htarget, h⟩ := h
    obtain ⟨world, hworld⟩ : ∃ world, s.world.renameFile s.current source target = some world :=
      World.exists_renameFile (Location.hasItem_iff.1 hitem)
    rw [hworld] at h
    cases h
    exact .renames hslash hne hreturn hleaves htarget hworld

theorem cp_effect {source target : String} (h : s.cp source target = .ok done) :
    Effect s ⟨.cp, [source, target]⟩ done.session := by
  simp only [cp, check_ok, Bool.not_eq_true, Bool.or_eq_false_iff, Bool.not_eq_false'] at h
  obtain ⟨⟨hslash, -⟩, hne, hsource, htarget, hexit, hname, h⟩ := h
  cases h
  exact .copies hslash hne hsource ⟨hexit, htarget⟩ hname

theorem unzip_effect {file : String} (h : s.unzip file = .ok done) :
    Effect s ⟨.unzip, [file]⟩ done.session := by
  simp only [unzip, check_ok, Bool.not_eq_true, Bool.not_eq_false', not_or, ne_eq,
    Decidable.not_not] at h
  obtain ⟨hexit, hitem, -, ⟨hplace, rfl⟩, h⟩ := h
  have hhere : s.AtArchiveFile := ⟨hplace, hexit, hitem⟩
  split at h
  · next harchive =>
    cases h
    exact .finds hhere harchive
  · next harchive =>
    rw [check_ok] at h
    obtain ⟨hname, h⟩ := h
    cases h
    exact .extracts hhere (by simpa using harchive) (by simpa using hname)

/-! ## All handlers -/

theorem effect_of_execute (h : s.execute command = .ok done) : Effect s command done.session := by
  obtain ⟨verb, args⟩ := command
  cases verb with
  | help | pwd | clear | exit =>
      cases h
      exact .shows trivial
  | ls => exact ls_effect h
  | cd =>
      obtain ⟨target, rfl, h⟩ := withArg_ok h
      exact cd_effect h
  | cat =>
      obtain ⟨file, rfl, h⟩ := withArg_ok h
      exact cat_effect h
  | mkdir =>
      obtain ⟨name, rfl, h⟩ := withArg_ok h
      exact mkdir_effect h
  | touch =>
      obtain ⟨name, rfl, h⟩ := withArg_ok h
      exact touch_effect h
  | rm =>
      obtain ⟨name, rfl, h⟩ := withArg_ok h
      exact rm_effect h
  | mv =>
      obtain ⟨source, target, rfl, h⟩ := withTwoArgs_ok h
      exact mv_effect h
  | cp =>
      obtain ⟨source, target, rfl, h⟩ := withTwoArgs_ok h
      exact cp_effect h
  | reset =>
      cases h
      exact .restarts
  | unzip =>
      obtain ⟨file, rfl, h⟩ := withArg_ok h
      exact unzip_effect h
  | unknown word => cases h

theorem execute_of_shown (h : s.Shown command) :
    (s.execute command).map Outcome.session = .ok s := by
  obtain ⟨verb, args⟩ := command
  cases verb with
  | help | pwd | clear | exit => rfl
  | ls =>
      cases args with
      | nil => rfl
      | cons target args => exact absurd h id
  | cat =>
      match args, h with
      | [file], ⟨hexit, hitem, htext⟩ =>
          obtain ⟨text, htext⟩ := Option.isSome_iff_exists.1 htext
          simp [execute, withArg, cat, hexit, hitem, htext, Except.map, Outcome.shows]
  | cd | mkdir | touch | rm | mv | cp | reset | unzip | unknown => exact absurd h id

/-- The treasure is not moved onto its own name by the last step of the mission. -/
theorem treasure_ne_of_contains {target : String} (h : Text.contains target "archive" = true) :
    treasure ≠ target := by
  rintro rfl
  exact absurd h (by decide +kernel)

theorem hasChar_of_isReservedName {name : String} (h : isReservedName name = false) :
    Text.hasChar name '/' = false := by
  simp only [isReservedName, Bool.or_eq_false_iff] at h
  exact h.2

theorem execute_of_effect (h : Effect s command t) :
    (s.execute command).map Outcome.session = .ok t := by
  cases h with
  | shows h => exact execute_of_shown h
  | @goes target next h =>
      rw [destination] at h
      by_cases hslash : Text.hasChar target '/' = true
      · rw [if_pos hslash] at h
        simp [execute, withArg, cd, hslash, h, Except.map, Outcome.shows]
      · rw [if_neg hslash] at h
        simp [execute, withArg, cd, hslash, h, Except.map, Outcome.shows]
  | @makes name hname hvacant =>
      obtain ⟨hexit, hitem⟩ := hvacant
      rw [directoryDescription]
      split
      · next hrelics =>
        obtain ⟨harchive, rfl⟩ := hrelics
        simp [execute, withArg, mkdir, hname, hexit, hitem, harchive, Except.map, withDirectory]
      · next hrelics =>
        simp [execute, withArg, mkdir, hname, hexit, hitem, hrelics, Except.map, withDirectory]
  | renews hname hexit hitem =>
      simp [execute, withArg, touch, hname, hexit, hitem, Except.map, Outcome.shows]
  | adds hname hvacant =>
      obtain ⟨hexit, hitem⟩ := hvacant
      simp [execute, withArg, touch, hname, hexit, hitem, Except.map, Outcome.shows]
  | warns hexit hitem hprotected hrepeats =>
      obtain ⟨world, hworld⟩ := World.exists_removeFile (Location.hasItem_iff.1 hitem)
      have hremove : s.world.removeFile s.current _ = some world := hworld
      simp [execute, withArg, rm, hexit, hremove, hprotected, hrepeats, Except.map, Outcome.shows]
  | @drops name world hexit hprotected hworld =>
      have hwarn : ¬ (name ∈ protectedFiles ∧ s.repeatsLast = false) := by
        rintro ⟨hmem, hrepeats⟩
        rw [hprotected hmem] at hrepeats
        cases hrepeats
      simp [execute, withArg, rm, hexit, hworld, hwarn, Except.map, Outcome.shows]
  | renames hslash hne hreturn hleaves htarget hworld =>
      have hitem : s.hasItem _ = true := Location.hasItem_iff.2 (World.mem_of_renameFile hworld)
      rw [IsReturn] at hreturn
      simp [execute, withTwoArgs, mv, hslash, hitem, hne, hreturn, hleaves, htarget, hworld,
        Except.map, Outcome.shows]
  | @returns target relics world hreturn harchive hrelics hworld =>
      have hitem : s.hasItem treasure = true := by
        rw [hasItem, here, hreturn.2.1]
        exact Location.hasItem_iff.2 (World.mem_of_relocateFile hworld)
      have hslash : Text.hasChar treasure '/' = false := by decide
      have hne := treasure_ne_of_contains hreturn.2.2
      rw [IsReturn] at hreturn
      have hsome : s.world.archive ≠ none := Option.isSome_iff_ne_none.1 harchive
      simp [execute, withTwoArgs, mv, returnTreasure, hslash, hitem, hne, hreturn, hsome, hrelics,
        hworld, Except.map]
  | copies hslash hne hsource hvacant hname =>
      obtain ⟨hexit, hitem⟩ := hvacant
      have htarget := hasChar_of_isReservedName hname
      simp [execute, withTwoArgs, cp, hslash, htarget, hne, hsource, hexit, hitem, hname,
        Except.map, Outcome.shows]
  | finds hhere harchive =>
      obtain ⟨hplace, hexit, hitem⟩ := hhere
      have hzip : Text.endsWith "archive.zip" ".zip" = true := by decide
      simp [execute, withArg, unzip, hplace, hexit, hitem, hzip, harchive, Except.map,
        Outcome.shows]
  | extracts hhere harchive hname =>
      obtain ⟨hplace, hexit, hitem⟩ := hhere
      have hzip : Text.endsWith "archive.zip" ".zip" = true := by decide
      simp [execute, withArg, unzip, hplace, hexit, hitem, hzip, harchive, hname, Except.map]
  | restarts => rfl

theorem execute_ok_iff :
    (∃ done, s.execute command = .ok done ∧ done.session = t) ↔ Effect s command t := by
  constructor
  · rintro ⟨done, h, rfl⟩
    exact effect_of_execute h
  · intro h
    have hmap := execute_of_effect h
    cases hexecute : s.execute command with
    | error e =>
        rw [hexecute] at hmap
        cases hmap
    | ok done =>
        rw [hexecute] at hmap
        cases hmap
        exact ⟨done, rfl, rfl⟩

/-! ## Lines -/

/-- The name of a file is refused as a command; anything else is carried out, or refused, as it
stands. -/
theorem perform_cases (s : Session) (typed : String) (command : Command) :
    s.perform typed command = s.execute command ∨
      ∃ word token, command.verb = .unknown word ∧
        s.perform typed command = .error (.notExecutable token) := by
  obtain ⟨verb, args⟩ := command
  cases verb with
  | unknown word =>
      simp only [perform]
      split
      · exact .inr ⟨word, _, rfl, rfl⟩
      · exact .inl rfl
  | _ => exact .inl rfl

/-- Only a known verb is ever carried out, so the check for the name of a file costs nothing. -/
theorem perform_ok {typed : String} :
    s.perform typed command = .ok done ↔ s.execute command = .ok done := by
  rcases perform_cases s typed command with h | ⟨word, token, hverb, h⟩
  · rw [h]
  · rw [h, execute, hverb]
    simp

def graded (s : Session) (command : Command) (succeeded : Bool) : Session :=
  (s.grade command succeeded "").session

theorem grade_session (s : Session) (command : Command) (succeeded : Bool) (output : String) :
    (s.grade command succeeded output).session = s.graded command succeeded := by
  rw [graded, grade, grade]
  split
  · rfl
  · split
    · rfl
    · rfl

theorem graded_eq (s : Session) (command : Command) (succeeded : Bool) :
    ∃ lessons, s.graded command succeeded = { s with lessons } := by
  rw [graded, grade]
  split
  · exact ⟨s.lessons, rfl⟩
  · split
    · exact ⟨_, rfl⟩
    · exact ⟨s.lessons, rfl⟩

theorem process_of_none (s : Session) {line : String} (h : Command.ofLine? line = none) :
    s.process line =
      { session := s, response := s.response CommandError.emptyCommand.render, events := [] } := by
  rw [process]
  dsimp only
  rw [Command.ofLine?_trim, h]

theorem process_of_command (s : Session) {line : String}
    (h : Command.ofLine? line = some command) :
    let done := (s.noting (Text.trim line)).judge (Text.trim line) command
    s.process line =
      { session := done.session
        response := done.session.response done.output
        events := .commandTyped s.here.key (Text.trim line) :: done.events } := by
  rw [process]
  dsimp only
  rw [Command.ofLine?_trim, h]

/-- `Leaves s line t`: playing `line` takes the session `s` to `t`. -/
inductive Leaves (s : Session) (line : String) : Session → Prop
  | blank : Command.ofLine? line = none → Leaves s line s
  | refused {command : Command} {e : CommandError} : Command.ofLine? line = some command →
      (s.noting (Text.trim line)).perform (Text.trim line) command = .error e →
      Leaves s line ((s.noting (Text.trim line)).graded command false)
  | redraws {command : Command} {t : Session} : Command.ofLine? line = some command →
      command.verb.redrawsScreen = true → Effect (s.noting (Text.trim line)) command t →
      Leaves s line t
  | takes {command : Command} {t : Session} : Command.ofLine? line = some command →
      command.verb.redrawsScreen = false → Effect (s.noting (Text.trim line)) command t →
      Leaves s line (t.graded command true)

theorem leaves_process (s : Session) (line : String) : Leaves s line (s.process line).session := by
  cases hcommand : Command.ofLine? line with
  | none =>
      rw [process_of_none s hcommand]
      exact .blank hcommand
  | some command =>
      rw [process_of_command s hcommand]
      simp only [judge]
      cases hperform : (s.noting (Text.trim line)).perform (Text.trim line) command with
      | error e =>
          simp only [grade_session]
          exact .refused hcommand hperform
      | ok done =>
          have heffect := effect_of_execute (perform_ok.1 hperform)
          simp only
          split
          · next hredraws => exact .redraws hcommand hredraws heffect
          · next hredraws =>
            simp only [grade_session]
            exact .takes hcommand (by simpa using hredraws) heffect

theorem process_of_effect {line : String} (hcommand : Command.ofLine? line = some command)
    (hverb : command.verb.redrawsScreen = false)
    (h : Effect (s.noting (Text.trim line)) command t) :
    (s.process line).session = t.graded command true := by
  obtain ⟨done, hexecute, rfl⟩ := execute_ok_iff.2 h
  have hperform : (s.noting (Text.trim line)).perform (Text.trim line) command = .ok done :=
    perform_ok.2 hexecute
  rw [process_of_command s hcommand]
  simp only [judge, hperform, hverb, Bool.false_eq_true, if_false, grade_session]

end ShellQuest.Session
