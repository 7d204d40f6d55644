/-
# Answers of commands

What a command that is carried out shows and what it reports, one constructor for each thing that can
be said.  `Effect` tells what becomes of the session; here the outcome stands as a whole, with the
output that the player reads and the events that are counted and logged.  `answers_of_execute` says
that there is nothing else to be said.
-/
import ShellQuest.Proofs.Session.Effect

namespace ShellQuest.Session

open World

/-! ## Texts -/

/-- What is added when the treasure is read again and again. -/
def readingHint : String :=
  "\n\nHint: 'treasure.json' seems like something you'd want to move, not just read."

/-- What is added when the relics are made while the treasure waits. -/
def relicsHint : String :=
  "\n\nHint: Now you can move the treasure.json from hidden_vault to archive/relics!"

/-- What the end of the mission is answered with. -/
def triumph : String :=
  Markup.success "🎉 MISSION ACCOMPLISHED! 🎉" ++
    "\nYou've successfully returned the treasure to its rightful place in archive/relics!"

def extractionWarning : String :=
  Markup.error "Warning: Archive already extracted. Files already exist here." ++
    "\n\nHint: Archive is already extracted. Continue with your mission!"

/-- What is reported of the extraction. -/
def extractionEvent (s : Session) : Event :=
  match s.world.exitNamed LocationId.downloads archiveName with
  | some made => .archiveAdopted (s.world.location made).key
  | none =>
      .directoryCreated (s.world.uniqueKey LocationId.downloads archiveName)
        (s.world.location LocationId.downloads).key

/-! ## Answers -/

/-- `Answers s command done`: carrying out `command` in `s` has the outcome `done`. -/
inductive Answers (s : Session) : Command → Outcome → Prop
  | helps {args : List String} : Answers s ⟨.help, args⟩ (.shows s helpText)
  | lists : Answers s ⟨.ls, []⟩ (.shows s s.listing)
  | walks {target : String} {next : LocationId} : s.destination target = .ok next →
      Answers s ⟨.cd, [target]⟩
        (.shows { s with current := next } s!"Changed directory to {target}")
  | enters {target : String} {next : LocationId} : s.destination target = .ok next →
      Answers s ⟨.cd, [target]⟩
        (.shows { s with current := next }
          s!"Changed directory to {(s.world.location next).name}")
  | reads {file text : String} : s.hasItem file = true → s.world.content file = some text →
      Answers s ⟨.cat, [file]⟩ (.shows s text)
  | nags {text : String} : s.hasItem treasure = true → s.world.content treasure = some text →
      Answers s ⟨.cat, [treasure]⟩ (.shows s (text ++ readingHint))
  | locates {args : List String} : Answers s ⟨.pwd, args⟩ (.shows s s.pwd)
  | makes {name : String} : s.Vacant name →
      Answers s ⟨.mkdir, [name]⟩
        (s.withDirectory name (s.directoryDescription name) s!"Created directory: {name}")
  | prompts : s.Vacant relicsName →
      Answers s ⟨.mkdir, [relicsName]⟩
        (s.withDirectory relicsName relicsDescription
          (s!"Created directory: {relicsName}" ++ relicsHint))
  | renews {name : String} : s.hasItem name = true →
      Answers s ⟨.touch, [name]⟩ (.shows s s!"Updated timestamp of {name}")
  | adds {name : String} : s.Vacant name →
      Answers s ⟨.touch, [name]⟩
        (.shows { s with world := s.world.addFile s.current name "" } s!"Created file: {name}")
  | warns {name : String} : s.hasItem name = true → name ∈ protectedFiles →
      Answers s ⟨.rm, [name]⟩ (.shows s (removalWarning name))
  | drops {name : String} {world : World} : s.world.removeFile s.current name = some world →
      Answers s ⟨.rm, [name]⟩ (.shows { s with world } s!"Removed: {name}")
  | renames {source target : String} {world : World} : ¬ s.IsReturn source target →
      s.world.renameFile s.current source target = some world →
      Answers s ⟨.mv, [source, target]⟩ (.shows { s with world } s!"Moved {source} to {target}")
  | returns {target : String} {relics : LocationId} {world : World} : s.IsReturn treasure target →
      s.world.relics = some relics →
      s.world.relocateFile LocationId.hiddenVault relics treasure = some world →
      Answers s ⟨.mv, [treasure, target]⟩
        { session := { s with world, missionComplete := true }, output := triumph,
          events := [.missionCompleted] }
  | copies {source target : String} : s.hasItem source = true → s.Vacant target →
      Answers s ⟨.cp, [source, target]⟩
        (.shows { s with world := s.world.copyFile s.current source target }
          s!"Copied {source} to {target}")
  | clears {args : List String} : Answers s ⟨.clear, args⟩ (.shows s Markup.clearScreen)
  | restarts {args : List String} : Answers s ⟨.reset, args⟩ (.shows start resetText)
  | finds : s.world.archive.isSome = true →
      Answers s ⟨.unzip, ["archive.zip"]⟩ (.shows s extractionWarning)
  | extracts : s.world.archive = none →
      Answers s ⟨.unzip, ["archive.zip"]⟩
        { session := { s with world := s.world.extractArchive.1 }
          output := "Archive extracted successfully. You can now access the 'archive' directory."
          events := [s.extractionEvent] }
  | leaves {args : List String} : Answers s ⟨.exit, args⟩ (.shows s farewell)

variable {s : Session} {command : Command} {done : Outcome}

/-! ## Each handler -/

theorem answers_ls {args : List String} (h : s.ls args = .ok done) : Answers s ⟨.ls, args⟩ done := by
  cases args with
  | nil =>
      cases h
      exact .lists
  | cons target args => cases h

theorem answers_cd {target : String} (h : s.cd target = .ok done) :
    Answers s ⟨.cd, [target]⟩ done := by
  rw [cd] at h
  split at h
  · next hslash =>
    dsimp only at h
    split at h
    · next next hnext =>
      cases h
      refine .walks ?_
      rw [destination, if_pos hslash]
      exact hnext
    · cases h
  · next hslash =>
    split at h
    · next next hnext =>
      cases h
      refine .enters ?_
      rw [destination, if_neg hslash]
      exact hnext
    · cases h

theorem answers_cat {file : String} (h : s.cat file = .ok done) :
    Answers s ⟨.cat, [file]⟩ done := by
  simp only [cat, check_ok, Bool.not_eq_true, Bool.not_eq_false'] at h
  obtain ⟨-, hitem, h⟩ := h
  split at h
  · cases h
  · next text htext =>
    cases h
    split
    · next hnag =>
      obtain ⟨rfl, -⟩ := hnag
      rw [String.append_assoc]
      exact .nags hitem htext
    · exact .reads hitem htext

theorem answers_mkdir {name : String} (h : s.mkdir name = .ok done) :
    Answers s ⟨.mkdir, [name]⟩ done := by
  simp only [mkdir, check_ok, Bool.not_eq_true] at h
  obtain ⟨-, hexit, hitem, h⟩ := h
  have hmakes : Answers s ⟨.mkdir, [name]⟩
      (s.withDirectory name (s.directoryDescription name) s!"Created directory: {name}") :=
    .makes ⟨hexit, hitem⟩
  split at h
  · next hrelics =>
    cases h
    rw [directoryDescription, if_pos hrelics] at hmakes
    obtain ⟨-, rfl⟩ := hrelics
    split
    · exact .prompts ⟨hexit, hitem⟩
    · exact hmakes
  · next hrelics =>
    cases h
    rwa [directoryDescription, if_neg hrelics] at hmakes

theorem answers_touch {name : String} (h : s.touch name = .ok done) :
    Answers s ⟨.touch, [name]⟩ done := by
  simp only [touch, check_ok, Bool.not_eq_true] at h
  obtain ⟨-, hexit, h⟩ := h
  split at h
  · next hitem =>
    cases h
    exact .renews hitem
  · next hitem =>
    cases h
    exact .adds ⟨hexit, by simpa using hitem⟩

theorem answers_rm {name : String} (h : s.rm name = .ok done) : Answers s ⟨.rm, [name]⟩ done := by
  simp only [rm, check_ok, Bool.not_eq_true] at h
  obtain ⟨-, h⟩ := h
  split at h
  · cases h
  · next world hworld =>
    split at h
    · next hwarn =>
      cases h
      simp only [Bool.and_eq_true, List.contains_iff_mem] at hwarn
      exact .warns (Location.hasItem_iff.2 (mem_of_removeFile hworld)) hwarn.1
    · cases h
      exact .drops hworld

theorem answers_mv {source target : String} (h : s.mv source target = .ok done) :
    Answers s ⟨.mv, [source, target]⟩ done := by
  simp only [mv, check_ok, Bool.not_eq_true, Bool.not_eq_false'] at h
  obtain ⟨-, hitem, -, h⟩ := h
  split at h
  · next hreturn =>
    obtain ⟨rfl, hvault, -⟩ := id hreturn
    simp only [returnTreasure, check_ok] at h
    obtain ⟨-, h⟩ := h
    split at h
    · cases h
    · next relics hrelics =>
      have htreasure : treasure ∈ (s.world.location LocationId.hiddenVault).items := by
        rw [← hvault]
        exact Location.hasItem_iff.1 hitem
      obtain ⟨world, hworld⟩ := exists_relocateFile (j := relics) htreasure
      rw [hworld] at h
      cases h
      exact .returns hreturn hrelics hworld
  · next hreturn =>
    simp only [check_ok] at h
    obtain ⟨-, -, h⟩ := h
    obtain ⟨world, hworld⟩ : ∃ world, s.world.renameFile s.current source target = some world :=
      exists_renameFile (Location.hasItem_iff.1 hitem)
    rw [hworld] at h
    cases h
    exact .renames hreturn hworld

theorem answers_cp {source target : String} (h : s.cp source target = .ok done) :
    Answers s ⟨.cp, [source, target]⟩ done := by
  simp only [cp, check_ok, Bool.not_eq_true, Bool.not_eq_false'] at h
  obtain ⟨-, -, hsource, htarget, hexit, -, h⟩ := h
  cases h
  exact .copies hsource ⟨hexit, htarget⟩

theorem answers_unzip {file : String} (h : s.unzip file = .ok done) :
    Answers s ⟨.unzip, [file]⟩ done := by
  simp only [unzip, check_ok, Bool.not_eq_true, Bool.not_eq_false', not_or, ne_eq,
    Decidable.not_not] at h
  obtain ⟨-, -, -, ⟨-, rfl⟩, h⟩ := h
  split at h
  · next harchive =>
    cases h
    exact .finds harchive
  · next harchive =>
    rw [check_ok] at h
    obtain ⟨-, h⟩ := h
    cases h
    exact .extracts (by simpa using harchive)

theorem answers_of_execute (h : s.execute command = .ok done) : Answers s command done := by
  obtain ⟨verb, args⟩ := command
  cases verb with
  | help =>
      cases h
      exact .helps
  | pwd =>
      cases h
      exact .locates
  | clear =>
      cases h
      exact .clears
  | reset =>
      cases h
      exact .restarts
  | exit =>
      cases h
      exact .leaves
  | ls => exact answers_ls h
  | cd =>
      obtain ⟨target, rfl, h⟩ := withArg_ok h
      exact answers_cd h
  | cat =>
      obtain ⟨file, rfl, h⟩ := withArg_ok h
      exact answers_cat h
  | mkdir =>
      obtain ⟨name, rfl, h⟩ := withArg_ok h
      exact answers_mkdir h
  | touch =>
      obtain ⟨name, rfl, h⟩ := withArg_ok h
      exact answers_touch h
  | rm =>
      obtain ⟨name, rfl, h⟩ := withArg_ok h
      exact answers_rm h
  | mv =>
      obtain ⟨source, target, rfl, h⟩ := withTwoArgs_ok h
      exact answers_mv h
  | cp =>
      obtain ⟨source, target, rfl, h⟩ := withTwoArgs_ok h
      exact answers_cp h
  | unzip =>
      obtain ⟨file, rfl, h⟩ := withArg_ok h
      exact answers_unzip h
  | unknown word => cases h

/-! ## Lines -/

/-- What is put before the output of a command that finishes a lesson. -/
def praise (s : Session) (command : Command) (succeeded : Bool) : String :=
  (s.grade command succeeded "").output

theorem grade_output (s : Session) (command : Command) (succeeded : Bool) (output : String) :
    (s.grade command succeeded output).output = s.praise command succeeded ++ output := by
  rw [praise, grade, grade]
  split
  · exact String.empty_append.symm
  · split
    · exact (congrArg (· ++ output) String.append_empty).symm
    · exact String.empty_append.symm

/-- `Says s line result`: the line is answered with this result. -/
inductive Says (s : Session) (line : String) : String → Prop
  | blank : Command.ofLine? line = none → Says s line CommandError.emptyCommand.render
  | refused {command : Command} {e : CommandError} : Command.ofLine? line = some command →
      (s.noting (Text.trim line)).perform (Text.trim line) command = .error e →
      Says s line ((s.noting (Text.trim line)).praise command false ++ e.render)
  | redraws {command : Command} {done : Outcome} : Command.ofLine? line = some command →
      command.verb.redrawsScreen = true → Answers (s.noting (Text.trim line)) command done →
      Says s line done.output
  | answers {command : Command} {done : Outcome} : Command.ofLine? line = some command →
      command.verb.redrawsScreen = false → Answers (s.noting (Text.trim line)) command done →
      Says s line (done.session.praise command true ++ done.output)

theorem says_process (s : Session) (line : String) :
    Says s line (s.process line).response.result := by
  cases hcommand : Command.ofLine? line with
  | none =>
      rw [process_of_none s hcommand]
      exact .blank hcommand
  | some command =>
      rw [process_of_command s hcommand]
      simp only [judge, response]
      cases hperform : (s.noting (Text.trim line)).perform (Text.trim line) command with
      | error e =>
          simp only [grade_output]
          exact .refused hcommand hperform
      | ok done =>
          have hanswers := answers_of_execute (perform_ok.1 hperform)
          simp only
          split
          · next hredraws => exact .redraws hcommand hredraws hanswers
          · next hredraws =>
            simp only [grade_output]
            exact .answers hcommand (by simpa using hredraws) hanswers

end ShellQuest.Session
