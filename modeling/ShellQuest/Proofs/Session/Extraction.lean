/-
# Extracting once

Only one command brings the archive, `unzip archive.zip` in downloads, and it does so only while there
is none.  From then on the archive is there until the game is reset, whatever becomes of its file or
of its directory, and with it every `unzip` is refused or answered with a warning.
-/
import ShellQuest.Proofs.Session.Ladder
import ShellQuest.Proofs.Session.Named
import ShellQuest.Proofs.World.Extraction

namespace ShellQuest.Session

open World

variable {s t : Session} {command : Command} {line : String} {a : LocationId}

/-! ## The extraction -/

/-- The line extracts the archive: it is typed in downloads, where its file is, and nothing stands in
the way. -/
structure Extracts (s : Session) (line : String) : Prop where
  command : Command.ofLine? line = some ⟨.unzip, ["archive.zip"]⟩
  here : s.AtArchiveFile
  none : s.world.archive = none
  vacant : s.hasItem archiveName = false

theorem extracts_of_archive (hnone : s.world.archive = none)
    (ha : (s.process line).session.world.archive = some a) :
    s.Extracts line ∧ (s.process line).session.world = s.world.extractArchive.1 := by
  rcases process_game s line with h | ⟨command, t, hcommand, h, ht⟩
  · rw [h.world, hnone] at ha
    cases ha
  · rw [ht.world] at ha ⊢
    cases h with
    | extracts hhere _ hvacant => exact ⟨⟨hcommand, hhere, hnone, hvacant⟩, rfl⟩
    | drops _ _ hworld => cases hnone.symm.trans ((removeFile_relists hworld).archive.symm.trans ha)
    | renames _ _ _ _ _ hworld =>
        cases hnone.symm.trans ((renameFile_relists hworld).archive.symm.trans ha)
    | returns _ hsome => exact absurd hnone (Option.isSome_iff_ne_none.1 hsome)
    | restarts => cases ha
    | _ => exact nomatch hnone.symm.trans ha

theorem Extracts.world (h : s.Extracts line) :
    (s.process line).session.world = s.world.extractArchive.1 := by
  have heffect : Effect (s.noting (Text.trim line)) ⟨.unzip, ["archive.zip"]⟩ _ :=
    .extracts h.here h.none h.vacant
  exact (sameGame_of_effect h.command rfl heffect).world

theorem extracts_iff (line : String) (hnone : s.world.archive = none) :
    (s.process line).session.world.archive.isSome = true ↔ s.Extracts line := by
  constructor
  · intro hsome
    obtain ⟨a, ha⟩ := Option.isSome_iff_exists.1 hsome
    exact (extracts_of_archive hnone ha).1
  · intro h
    rw [h.world, archive_extractArchive hnone]
    rfl

/-! ## After it -/

theorem archive_after {lines : List String} (hlines : ∀ line ∈ lines, Command.resets line = false)
    (ha : s.world.archive = some a) : (s.after lines).world.archive = some a := by
  refine after_invariant (P := fun s => s.world.archive = some a) (fun s line hline ha => ?_) ha
  refine process_invariant (P := fun s => s.world.archive = some a) ?_ ?_ ha
  · intro s t h ha
    rw [h.world]
    exact ha
  · intro s command t hcommand h ha
    exact archive_of_effect h (verb_ne_reset (hlines line hline) hcommand) ha

theorem world_of_unzip (ha : s.world.archive = some a) (hcommand : Command.ofLine? line = some command)
    (hverb : command.verb = .unzip) : (s.process line).session.world = s.world := by
  rcases process_game s line with h | ⟨command', t, hcommand', h, ht⟩
  · exact h.world
  · obtain rfl : command = command' := Option.some.inj (hcommand.symm.trans hcommand')
    rw [ht.world]
    cases h with
    | shows | goes | renews | warns | finds => rfl
    | extracts _ hnone => cases hnone.symm.trans ha
    | _ => cases hverb

/-- **The archive is extracted once.**  In every game that has no archive, a line brings it exactly if
it extracts it, and then the directory of the archive is the child of downloads that had its name, or
else a new one, its list goes on with those scripted files that it lacked, both of them have their
scripted texts, and all other lists and texts are as before.  Once there is an archive, no line whose
verb is `unzip` changes the world until the game is reset, whatever else is done. -/
theorem unzip_once (lines : List String) (line : String) :
    let s := start.after lines
    let t := (s.process line).session
    (s.world.archive = none → (t.world.archive.isSome = true ↔ s.Extracts line)) ∧
    (∀ a, s.world.archive = none → t.world.archive = some a → s.world.Unpacks t.world a) ∧
    (∀ a, t.world.archive = some a →
      ∀ later, (∀ line ∈ later, Command.resets line = false) →
      ∀ again command, Command.ofLine? again = some command → command.verb = .unzip →
        ((t.after later).process again).session.world = (t.after later).world) := by
  intro s t
  have ht : t = (s.process line).session := rfl
  refine ⟨?_, ?_, ?_⟩
  · intro hnone
    rw [ht]
    exact extracts_iff line hnone
  · intro a hnone ha
    rw [ht] at ha ⊢
    have hcharted : s.world.Charted := (Placed.after lines).charted
    have hworld := (extracts_of_archive hnone ha).2
    have hdirectory : s.world.archiveDirectory.2 = a := by
      rw [hworld, archive_extractArchive hnone] at ha
      exact Option.some.inj ha
    rw [hworld, ← hdirectory]
    exact hcharted.unpacks_extractArchive (signposted_after lines) hnone
  · intro a ha later hlater again command hcommand hverb
    exact world_of_unzip (archive_after hlater ha) hcommand hverb

end ShellQuest.Session
