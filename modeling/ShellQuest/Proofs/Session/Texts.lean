/-
# Texts in every game

No command leaves a text behind when the last file of its name goes, so a name that is new to the
world has no text (`textsListed_after`).  That is what makes renaming and copying exact: a file
without a text has none under its new name either, though the commands write nothing there.  The
one move that does not rename is the return of the treasure.
-/
import ShellQuest.Proofs.Session.Milestones
import ShellQuest.Proofs.Session.Named
import ShellQuest.Proofs.World.Texts

namespace ShellQuest.Session

open World

variable {s t : Session} {command : Command} {line source target : String}

/-! ## No text without a file -/

theorem textsListed_of_effect (hs : s.Placed) (hw : s.world.TextsListed) (h : Effect s command t) :
    t.world.TextsListed := by
  have hcharted := hs.charted
  cases h with
  | shows | goes | renews | warns | finds => exact hw
  | makes => exact hw.createDirectory hs.current_lt
  | adds => exact hw.addFile hs.current_lt _ _
  | drops _ _ hworld => exact hw.removeFile hworld
  | renames _ _ _ _ _ hworld => exact hw.renameFile hworld
  | returns _ _ hrelics hworld => exact hw.relocateFile (hcharted.relics_lt hrelics) hworld
  | copies => exact hw.copyFile hs.current_lt _ _
  | extracts _ hnone =>
      have hdirectory : s.world.archiveDirectory.1.TextsListed := by
        rcases archiveDirectory_cases s.world with ⟨made, -, hmade⟩ | ⟨-, hmade⟩
        · rw [hmade]
          exact hw
        · rw [hmade]
          exact hw.createDirectory hcharted.downloads_lt
      rw [extractArchive_eq hnone]
      exact hdirectory.addFiles hcharted.archiveDirectory_lt archiveFiles
  | restarts => exact TextsListed.seeded

theorem textsListed_after (lines : List String) : (start.after lines).world.TextsListed :=
  world_after TextsListed.seeded fun _ _ _ hs hw h => textsListed_of_effect hs hw h

/-! ## Renaming and copying -/

/-- A file here has no path for a name, and no new name is its own or that of another file here. -/
theorem apart_of_new (hw : s.world.Named IsName) (htarget : ¬ s.world.Lists target)
    (hsource : s.hasItem source = true) :
    Text.hasChar source '/' = false ∧ source ≠ target ∧ s.hasItem target = false := by
  have hitem := Location.hasItem_iff.1 hsource
  refine ⟨hasChar_of_isReservedName (isName_iff.1 (hw.item _ _ hitem)).2, ?_, ?_⟩
  · rintro rfl
    exact htarget ⟨s.current, hitem⟩
  · exact Location.hasItem_eq_false.2 fun hmem => htarget ⟨s.current, hmem⟩

theorem effect_mv_iff (hw : s.world.Named IsName) (htarget : ¬ s.world.Lists target)
    (hreturn : ¬ s.IsReturn source target) :
    (∃ t, Effect s ⟨.mv, [source, target]⟩ t) ↔
      s.hasItem source = true ∧ s.leavesDirectory target = false := by
  constructor
  · rintro ⟨t, h⟩
    cases h with
    | shows h => exact absurd h id
    | renames _ _ _ hleaves _ hworld =>
        exact ⟨Location.hasItem_iff.2 (mem_of_renameFile hworld), hleaves⟩
    | returns h => exact absurd h hreturn
  · rintro ⟨hsource, hleaves⟩
    obtain ⟨hslash, hne, hfree⟩ := apart_of_new hw htarget hsource
    obtain ⟨world, hworld⟩ : ∃ world, s.world.renameFile s.current source target = some world :=
      exists_renameFile (Location.hasItem_iff.1 hsource)
    exact ⟨_, .renames hslash hne hreturn hleaves hfree hworld⟩

theorem effect_cp_iff (hw : s.world.Named IsName) (htarget : ¬ s.world.Lists target) :
    (∃ t, Effect s ⟨.cp, [source, target]⟩ t) ↔
      s.hasItem source = true ∧ s.hasExit target = false ∧ isReservedName target = false := by
  constructor
  · rintro ⟨t, h⟩
    cases h with
    | shows h => exact absurd h id
    | copies _ _ hsource hvacant hname => exact ⟨hsource, hvacant.1, hname⟩
  · rintro ⟨hsource, hexit, hname⟩
    obtain ⟨hslash, hne, hfree⟩ := apart_of_new hw htarget hsource
    exact ⟨_, .copies hslash hne hsource ⟨hexit, hfree⟩ hname⟩

theorem renames_of_effect (hs : s.Tidy) (hw : s.world.TextsListed) (htarget : ¬ s.world.Lists target)
    (hreturn : ¬ s.IsReturn source target) (h : Effect s ⟨.mv, [source, target]⟩ t) :
    s.world.Renames t.world s.current source target ∧ t = { s with world := t.world } := by
  cases h with
  | shows h => exact absurd h id
  | renames _ _ _ _ _ hworld =>
      exact ⟨renames_renameFile hw (hs.items_nodup s.current) htarget hworld, rfl⟩
  | returns h => exact absurd h hreturn

theorem copies_of_effect (hs : s.Tidy) (hw : s.world.TextsListed) (htarget : ¬ s.world.Lists target)
    (h : Effect s ⟨.cp, [source, target]⟩ t) :
    s.world.Copies t.world s.current source target ∧ t = { s with world := t.world } := by
  cases h with
  | shows h => exact absurd h id
  | copies => exact ⟨copies_copyFile hw hs.placed.current_lt htarget, rfl⟩

/-- **A text follows its file and never stays behind.**  In every game each name that has a text is
the name of a file somewhere.  So when a file is renamed to a name that no directory lists, which any
move but the return of the treasure does, the new name has exactly the text that the old one had, and
the old one has none; when a file is copied, both names have it.  The list of the directory changes as
the command says, and that is all that changes in the world. -/
theorem texts_after (lines : List String) (line source target : String) :
    let s := start.after lines
    let t := (s.process line).session
    (∀ name, (s.world.content name).isSome = true → s.world.Lists name) ∧
    (Command.ofLine? line = some ⟨.mv, [source, target]⟩ → ¬ s.world.Lists target →
      ¬ s.IsReturn source target →
      ((∃ done, s.CarriesOut line ⟨.mv, [source, target]⟩ done) ↔
        s.hasItem source = true ∧ s.leavesDirectory target = false) ∧
      (∀ done, s.CarriesOut line ⟨.mv, [source, target]⟩ done →
        s.world.Renames t.world s.current source target ∧ t.current = s.current ∧
          t.missionComplete = s.missionComplete)) ∧
    (Command.ofLine? line = some ⟨.cp, [source, target]⟩ → ¬ s.world.Lists target →
      ((∃ done, s.CarriesOut line ⟨.cp, [source, target]⟩ done) ↔
        s.hasItem source = true ∧ s.hasExit target = false ∧ isReservedName target = false) ∧
      (∀ done, s.CarriesOut line ⟨.cp, [source, target]⟩ done →
        s.world.Copies t.world s.current source target ∧ t.current = s.current ∧
          t.missionComplete = s.missionComplete)) := by
  intro s t
  have hs : (s.noting (Text.trim line)).Tidy := (Tidy.after lines).of_sameGame (sameGame_noting s _)
  have hnames : s.world.Named IsName := named_isName_after lines
  have htexts : s.world.TextsListed := textsListed_after lines
  refine ⟨htexts, ?_, ?_⟩
  · intro hcommand htarget hreturn
    refine ⟨(exists_carriesOut_iff hcommand).trans (effect_mv_iff hnames htarget hreturn), ?_⟩
    intro done h
    obtain ⟨hrenames, hdone⟩ := renames_of_effect hs htexts htarget hreturn h.effect
    have hgame := h.sameGame
    rw [hdone] at hgame
    rw [← hgame.world] at hrenames
    exact ⟨hrenames, hgame.current, hgame.missionComplete⟩
  · intro hcommand htarget
    refine ⟨(exists_carriesOut_iff hcommand).trans (effect_cp_iff hnames htarget), ?_⟩
    intro done h
    obtain ⟨hcopies, hdone⟩ := copies_of_effect hs htexts htarget h.effect
    have hgame := h.sameGame
    rw [hdone] at hgame
    rw [← hgame.world] at hcopies
    exact ⟨hcopies, hgame.current, hgame.missionComplete⟩

end ShellQuest.Session
