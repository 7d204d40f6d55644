/-
# Whether the mission can still be finished

Directories stay for good and keep their names to themselves.  So the mission is lost once a
directory has the name of the treasure in the vault, for the treasure cannot come back there, or
the name of the file of the archive in downloads before it was extracted, for then it never will
be.  Nothing else loses it: `finishable_iff` gives the plan for every other session.
-/
import ShellQuest.Proofs.Session.Plan

namespace ShellQuest.Session

open World

variable {s t : Session} {command : Command} {line name : String} {i : LocationId}

/-! ## Lost missions -/

/-- A directory stands where a file of the mission would have to be. -/
def Barred (s : Session) : Prop :=
  s.world.hasExit LocationId.hiddenVault treasure = true ∨
    (s.world.archive = none ∧ s.world.hasExit LocationId.downloads "archive.zip" = true)

/-- The mission is not over and is barred. -/
structure Lost (s : Session) : Prop where
  tidy : s.Tidy
  pending : s.missionComplete = false
  barred : s.Barred

/-- The vault is neither the archive nor the relics, so no clash is there. -/
theorem Tidy.treasure_not_mem_vault (hs : s.Tidy)
    (h : s.world.hasExit LocationId.hiddenVault treasure = true) :
    treasure ∉ (s.world.location LocationId.hiddenVault).items := by
  intro hitem
  have hcharted := hs.placed.charted
  rcases hs.clash _ _ ⟨hitem, h⟩ with ⟨harchive, -⟩ | ⟨hrelics, -⟩
  · exact absurd (hcharted.five_le_archive harchive) (by decide)
  · obtain ⟨a, -, hexit⟩ := relics_eq_some.1 hrelics
    have hname := (exitNamed_eq_some hexit).2
    rw [hcharted.seeded_name (by decide)] at hname
    exact absurd hname (by decide)

namespace Lost

theorem of_sameGame (hs : s.Lost) (h : SameGame t s) : t.Lost where
  tidy := hs.tidy.of_sameGame h
  pending := by
    rw [h.missionComplete]
    exact hs.pending
  barred := by
    rw [Barred, h.world]
    exact hs.barred

theorem archive_of_effect (h : Effect s command t) (hverb : command.verb ≠ .reset)
    (hbarred : s.world.hasExit LocationId.downloads "archive.zip" = true)
    (hnone : s.world.archive = none) : t.world.archive = none := by
  cases h with
  | drops _ _ hworld =>
      rw [← hnone]
      exact (removeFile_relists hworld).archive
  | renames _ _ _ _ _ hworld =>
      rw [← hnone]
      exact (renameFile_relists hworld).archive
  | returns _ hsome =>
      rw [hnone] at hsome
      cases hsome
  | extracts hhere =>
      obtain ⟨hplace, hexit, -⟩ := hhere
      rw [hasExit, hplace, hbarred] at hexit
      cases hexit
  | restarts => exact absurd rfl hverb
  | _ => exact hnone

theorem effect (hs : s.Lost) (h : Effect s command t) (hverb : command.verb ≠ .reset) :
    t.Lost where
  tidy := hs.tidy.effect h
  pending := by
    -- only the return of the treasure ends the mission, and it needs the treasure and the archive
    cases h with
    | @returns target relics world hreturn harchive hrelics hworld =>
        rcases hs.barred with hexit | ⟨hnone, -⟩
        · exact absurd (mem_of_relocateFile hworld) (hs.tidy.treasure_not_mem_vault hexit)
        · rw [hnone] at harchive
          cases harchive
    | restarts => exact absurd rfl hverb
    | _ => exact hs.pending
  barred := by
    have hcharted := hs.tidy.placed.charted
    have hgrown := (effect_extends h hverb).1
    rcases hs.barred with hexit | ⟨hnone, hexit⟩
    · exact .inl (hasExit_of_extends hgrown hcharted.graph hcharted.hiddenVault_lt hexit)
    · exact .inr ⟨archive_of_effect h hverb hexit hnone,
        hasExit_of_extends hgrown hcharted.graph hcharted.downloads_lt hexit⟩

theorem of_leads (hs : s.Lost) (h : s.Leads t) : t.Lost :=
  h.game_invariant (fun h hs => hs.of_sameGame h) (fun h hverb hs => hs.effect h hverb) hs

end Lost

/-! ## Files where the player stands -/

/-- The same directories, the same archive, and the player in the same place. -/
structure SamePlaces (t s : Session) : Prop where
  directories : t.world.directories = s.world.directories
  archive : t.world.archive = s.world.archive
  current : t.current = s.current

theorem SamePlaces.refl (s : Session) : s.SamePlaces s := ⟨rfl, rfl, rfl⟩

theorem SamePlaces.hasExit (h : t.SamePlaces s) (i : LocationId) (name : String) :
    t.world.hasExit i name = s.world.hasExit i name :=
  hasExit_congr h.directories i name

theorem exists_file (hs : s.Tidy) (name : String) (hword : Text.IsWord name)
    (hreserved : isReservedName name = false) (hexit : s.hasExit name = false) :
    ∃ t, s.Leads t ∧ t.SamePlaces s ∧ name ∈ (t.world.location s.current).items := by
  by_cases hitem : name ∈ (s.world.location s.current).items
  · exact ⟨s, .refl s, .refl s, hitem⟩
  · have hcommand : Command.Plain ⟨.touch, [name]⟩ :=
      .of_word (by decide) rfl hword
    have hgame := sameGame_play hcommand
      (.adds (s := s.noting _) hreserved ⟨hexit, Location.hasItem_eq_false.2 hitem⟩)
    have hr := addFile_relists s.world s.current name ""
    refine ⟨_, .play s hcommand, ⟨?_, ?_, hgame.current⟩, ?_⟩
    · rw [hgame.world]
      exact hr.directories
    · rw [hgame.world]
      exact hr.archive
    · rw [hgame.world]
      have hitems := hr.items_self hs.placed.current_lt
      exact hitems ▸ mem_listItem.2 (.inr rfl)

theorem exists_without (hs : s.Tidy) (hname : WayName name) (hprotected : name ∉ protectedFiles) :
    ∃ t, s.Leads t ∧ t.SamePlaces s ∧ name ∉ (t.world.location s.current).items ∧
      ∀ other ≠ name, other ∈ (s.world.location s.current).items →
        other ∈ (t.world.location s.current).items := by
  by_cases hitem : name ∈ (s.world.location s.current).items
  · have hcommand : Command.Plain ⟨.rm, [name]⟩ :=
      .of_word (by decide) rfl hname.1
    have hexit : s.hasExit name = false := by
      rw [← Bool.not_eq_true]
      intro hexit
      exact hs.not_mem_items hexit hname hitem
    obtain ⟨w, hw⟩ := exists_removeFile hitem
    have hgame := sameGame_play hcommand
      (.drops (s := s.noting _) hexit (fun h => absurd h hprotected) hw)
    have hr := removeFile_relists hw
    have hitems := hr.items_self hs.placed.current_lt
    refine ⟨_, .play s hcommand, ⟨?_, ?_, hgame.current⟩, ?_, ?_⟩
    · rw [hgame.world]
      exact hr.directories
    · rw [hgame.world]
      exact hr.archive
    · rw [hgame.world]
      exact hitems ▸ (hs.items_nodup _).not_mem_erase
    · intro other hne hother
      rw [hgame.world]
      exact hitems ▸ (List.mem_erase_of_ne hne).2 hother
  · exact ⟨s, .refl s, .refl s, hitem, fun _ _ hother => hother⟩

/-! ## The plan -/

/-- The file of the archive can be had, with no other file in the way, unless it is barred. -/
theorem exists_atArchiveFile (hs : s.Tidy)
    (hopen : s.world.hasExit LocationId.downloads "archive.zip" = false) :
    ∃ t, s.Leads t ∧ t.AtArchiveFile ∧ t.hasItem archiveName = false ∧
      t.world.directories = s.world.directories ∧ t.world.archive = s.world.archive := by
  obtain ⟨arrived, harrive, hworld, hplace⟩ := walksTo_downloads hs
  have harrived := harrive.tidy hs
  have hexit : arrived.hasExit "archive.zip" = false := by
    rw [Session.hasExit, hplace, hworld]
    exact hopen
  obtain ⟨stocked, hstock, hfile, hzip⟩ :=
    exists_file harrived "archive.zip" (by decide) (by decide) hexit
  have hname : WayName archiveName := by decide
  obtain ⟨clear, hclear, hrest, hfree, hothers⟩ :=
    exists_without (hstock.tidy harrived) hname (by decide)
  have hcurrent : clear.current = LocationId.downloads := by
    rw [hrest.current, hfile.current, hplace]
  rw [hfile.current, hplace] at hfree hothers
  rw [hplace] at hzip
  refine ⟨clear, harrive.trans (hstock.trans hclear), ⟨hcurrent, ?_, ?_⟩, ?_, ?_, ?_⟩
  · rw [Session.hasExit, hcurrent, hrest.hasExit, hfile.hasExit, hworld]
    exact hopen
  · rw [hasItem, here, hcurrent]
    exact Location.hasItem_iff.2 (hothers _ (by decide) hzip)
  · rw [hasItem, here, hcurrent]
    exact Location.hasItem_eq_false.2 hfree
  · rw [hrest.directories, hfile.directories, hworld]
  · rw [hrest.archive, hfile.archive, hworld]

theorem exists_archive (hs : s.Tidy)
    (h : s.world.archive.isSome = true ∨
      s.world.hasExit LocationId.downloads "archive.zip" = false) :
    ∃ t, s.Leads t ∧ t.world.archive.isSome = true ∧
      t.world.hasExit LocationId.hiddenVault treasure =
        s.world.hasExit LocationId.hiddenVault treasure := by
  rcases Option.eq_none_or_eq_some s.world.archive with hnone | ⟨a, ha⟩
  · have hopen : s.world.hasExit LocationId.downloads "archive.zip" = false := by
      rcases h with hsome | hopen
      · rw [hnone] at hsome
        cases hsome
      · exact hopen
    obtain ⟨ready, hready, hhere, hname, hdirectories, harchive⟩ := exists_atArchiveFile hs hopen
    rw [hnone] at harchive
    have hcharted := (hready.tidy hs).placed.charted
    have hcommand : Command.Plain ⟨.unzip, ["archive.zip"]⟩ := by decide
    have hgame := sameGame_play hcommand (.extracts (s := ready.noting _) hhere harchive hname)
    refine ⟨_, hready.trans (.play ready hcommand), ?_, ?_⟩
    · rw [hgame.world]
      exact Option.isSome_of_eq_some (archive_extractArchive harchive)
    · rw [hgame.world, ← hasExit_congr hdirectories]
      exact hasExit_extractArchive hcharted hcharted.hiddenVault_lt harchive (by decide)
  · exact ⟨s, .refl s, Option.isSome_of_eq_some ha, rfl⟩

/-- The archive can be entered and cleared of a file that is in the way of the relics. -/
theorem exists_vacantRelics (hs : s.Tidy) (ha : s.world.archive = some i)
    (hnone : s.world.relics = none) :
    ∃ t, s.Leads t ∧ t.current = i ∧ t.Vacant relicsName ∧
      t.world.directories = s.world.directories ∧ t.world.archive = s.world.archive := by
  obtain ⟨arrived, harrive, hworld, hplace⟩ := walksTo_archive hs ha
  have hname : WayName relicsName := by decide
  obtain ⟨clear, hclear, hrest, hfree, -⟩ :=
    exists_without (harrive.tidy hs) hname (by decide)
  have hopen : s.world.exitNamed i relicsName = none := by
    rw [relics, ha] at hnone
    exact hnone
  refine ⟨clear, harrive.trans hclear, hrest.current.trans hplace, ⟨?_, ?_⟩, ?_, ?_⟩
  · rw [Session.hasExit, hrest.hasExit, hrest.current, hplace, hworld]
    exact hasExit_eq_false.2 hopen
  · rw [hasItem, here, hrest.current]
    exact Location.hasItem_eq_false.2 hfree
  · rw [hrest.directories, hworld]
  · rw [hrest.archive, hworld]

theorem exists_relics (hs : s.Tidy) (h : s.world.archive.isSome = true) :
    ∃ t, s.Leads t ∧ t.world.relics.isSome = true ∧
      t.world.hasExit LocationId.hiddenVault treasure =
        s.world.hasExit LocationId.hiddenVault treasure := by
  obtain ⟨a, ha⟩ := Option.isSome_iff_exists.1 h
  rcases Option.eq_none_or_eq_some s.world.relics with hnone | ⟨r, hr⟩
  · obtain ⟨ready, hready, hcurrent, hvacant, hdirectories, harchive⟩ :=
      exists_vacantRelics hs ha hnone
    have hplaced := (hready.tidy hs).placed
    have hgraph := hplaced.charted.graph
    have hcommand : Command.Plain ⟨.mkdir, [relicsName]⟩ := by decide
    have hreserved : isReservedName relicsName = false := by decide
    have hgame := sameGame_play hcommand (.makes (s := ready.noting _) hreserved hvacant)
    refine ⟨_, hready.trans (.play ready hcommand), ?_, ?_⟩
    · have hexit : ready.world.exitNamed ready.current relicsName = none :=
        hasExit_eq_false.1 hvacant.1
      have hmade : (ready.play ⟨.mkdir, [relicsName]⟩).world.relics = some ready.world.size := by
        refine relics_eq_some.2 ⟨a, ?_, ?_⟩
        · rw [hgame.world]
          exact harchive.trans ha
        · rw [hgame.world, ← hcurrent]
          refine (exitNamed_createDirectory hgraph hplaced.current_lt hplaced.current_lt).trans ?_
          rw [if_pos ⟨rfl, rfl⟩, hexit]
          rfl
      exact Option.isSome_of_eq_some hmade
    · rw [hgame.world, ← hasExit_congr hdirectories, Bool.eq_iff_iff]
      have hvault := hplaced.charted.hiddenVault_lt
      refine (hasExit_createDirectory hgraph hplaced.current_lt hvault).trans ?_
      have hne : treasure ≠ relicsName := by decide
      simp [hne]
  · exact ⟨s, .refl s, Option.isSome_of_eq_some hr, rfl⟩

theorem exists_returned (hs : s.Tidy) (h : s.world.relics.isSome = true)
    (hopen : s.world.hasExit LocationId.hiddenVault treasure = false) :
    ∃ t, s.Leads t ∧ t.missionComplete = true := by
  obtain ⟨arrived, harrive, hworld, hplace⟩ := walksTo_hiddenVault hs
  have hexit : arrived.hasExit treasure = false := by
    rw [Session.hasExit, hplace, hworld]
    exact hopen
  obtain ⟨stocked, hstock, hfile, htreasure⟩ :=
    exists_file (harrive.tidy hs) treasure (by decide) (by decide) hexit
  obtain ⟨r, hr⟩ := Option.isSome_iff_exists.1 h
  have hrelics : stocked.world.relics = some r := by
    rw [relics_congr hfile.directories hfile.archive, hworld]
    exact hr
  obtain ⟨a, ha, -⟩ := relics_eq_some.1 hrelics
  rw [hplace] at htreasure
  obtain ⟨w, hw⟩ := exists_relocateFile (j := r) htreasure
  have hreturn : stocked.IsReturn treasure archiveName :=
    ⟨rfl, hfile.current.trans hplace, by decide⟩
  have hcommand : Command.Plain ⟨.mv, [treasure, archiveName]⟩ := by decide
  have hgame := sameGame_play hcommand
    (.returns (s := stocked.noting _) hreturn (Option.isSome_of_eq_some ha) hrelics hw)
  exact ⟨_, harrive.trans (hstock.trans (.play stocked hcommand)), hgame.missionComplete⟩

theorem exists_finished (hs : s.Tidy) (h : ¬ s.Barred) :
    ∃ t, s.Leads t ∧ t.missionComplete = true := by
  simp only [Barred, not_or, not_and, Bool.not_eq_true] at h
  obtain ⟨hvault, hfile⟩ := h
  have hsource : s.world.archive.isSome = true ∨
      s.world.hasExit LocationId.downloads "archive.zip" = false := by
    rcases Option.eq_none_or_eq_some s.world.archive with hnone | ⟨a, ha⟩
    · exact .inr (hfile hnone)
    · exact .inl (Option.isSome_of_eq_some ha)
  obtain ⟨extracted, hextract, harchive, hsame⟩ := exists_archive hs hsource
  obtain ⟨made, hmake, hrelics, hstill⟩ := exists_relics (hextract.tidy hs) harchive
  have hopen : made.world.hasExit LocationId.hiddenVault treasure = false := by
    rw [hstill, hsame]
    exact hvault
  obtain ⟨done, hreturn, hcomplete⟩ :=
    exists_returned ((hextract.trans hmake).tidy hs) hrelics hopen
  exact ⟨done, hextract.trans (hmake.trans hreturn), hcomplete⟩

/-- **When the mission can still be finished.**  Lines without a reset that end the mission exist
just when it is over already or no directory bars it: none named as the treasure in the vault, and
none named as the file of the archive in downloads unless the archive is extracted. -/
theorem finishable_iff (lines : List String) :
    let s := start.after lines
    (∃ more, (∀ line ∈ more, Command.resets line = false) ∧
      (s.after more).missionComplete = true) ↔
    s.missionComplete = true ∨
      (s.world.hasExit LocationId.hiddenVault treasure = false ∧
        (s.world.archive.isSome = true ∨
          s.world.hasExit LocationId.downloads "archive.zip" = false)) := by
  intro s
  have hs : s.Tidy := Tidy.after lines
  have hbarred : (s.world.hasExit LocationId.hiddenVault treasure = false ∧
      (s.world.archive.isSome = true ∨
        s.world.hasExit LocationId.downloads "archive.zip" = false)) ↔ ¬ s.Barred := by
    cases harchive : s.world.archive with
    | none => simp [Barred, harchive]
    | some a => simp [Barred, harchive]
  rw [hbarred]
  constructor
  · rintro ⟨more, hmore, hcomplete⟩
    rw [or_iff_not_imp_left]
    intro hpending hbar
    have hlost : s.Lost := ⟨hs, by simpa using hpending, hbar⟩
    have hstill := (hlost.of_leads ⟨more, hmore, rfl⟩).pending
    rw [hcomplete] at hstill
    cases hstill
  · rintro (hcomplete | hopen)
    · exact ⟨[], nofun, hcomplete⟩
    · obtain ⟨t, ⟨more, hmore, rfl⟩, hcomplete⟩ := exists_finished hs hopen
      exact ⟨more, hmore, hcomplete⟩

/-- Renaming the treasure and making a directory of its name in the vault loses the mission. -/
theorem lost_after_mkdir :
    let s := start.after ["cd projects", "cd hidden_vault", "mv treasure.json safe",
      "mkdir treasure.json"]
    s.missionComplete = false ∧
      ¬ ∃ more, (∀ line ∈ more, Command.resets line = false) ∧
        (s.after more).missionComplete = true := by
  intro s
  have hpending : s.missionComplete = false := by decide +kernel
  refine ⟨hpending, ?_⟩
  rintro ⟨more, hmore, hcomplete⟩
  have hlost : s.Lost := ⟨Tidy.after _, hpending, .inl (by decide +kernel)⟩
  have hstill := (hlost.of_leads ⟨more, hmore, rfl⟩).pending
  rw [hcomplete] at hstill
  cases hstill

end ShellQuest.Session
