/-
# Milestones of the mission

The archive, the relics and the end of the mission come once and stay.  Only the archive and the end
are kept in the session; the relics are looked up by name whenever they are asked for, and stay what
they are because an exit that is found by a name is found by it ever after.  The mission ends by one
thing alone, the return of the treasure (`returns_of_missionComplete`, `Returns.missionComplete`), and
that carries one file from the vault to the relics: none is lost, none is doubled, and all the rest
stays as it was (`World.Carries`).
-/
import ShellQuest.Proofs.Session.Ladder

namespace ShellQuest

/-! ## Carrying a file -/

namespace World

/-- `v` is `w` after the file `name` was carried from the directory `i` to the directory `j`. -/
structure Carries (w v : World) (i j : LocationId) (name : String) : Prop where
  gone : name ∉ (v.location i).items
  once : (v.location j).items.count name = 1
  elsewhere : ∀ k, k ≠ i → k ≠ j → (v.location k).items = (w.location k).items
  others : ∀ k, ∀ other, other ≠ name →
    (other ∈ (v.location k).items ↔ other ∈ (w.location k).items)
  content : ∀ other, v.content other = w.content other

variable {w v : World} {i j a r : LocationId} {name : String}

/-- Where no list repeats a file, the file that is moved is carried: it leaves its directory, and is
listed once where it goes, also if a file of its name was there. -/
theorem carries_relocateFile (hw : ∀ k, (w.location k).items.Nodup) (hij : i ≠ j) (hj : j < w.size)
    (h : w.relocateFile i j name = some v) : w.Carries v i j name := by
  have hi : i < w.size := lt_size_of_mem_items (mem_of_relocateFile h)
  obtain ⟨u, hfirst, hlast⟩ := relocateFile_relists h
  have hsource : (v.location i).items = (w.location i).items.erase name := by
    rw [hlast.items_of_ne hij, hfirst.items_self hi]
  have htarget : (v.location j).items = listItem name (w.location j).items := by
    rw [hlast.items_self (by rwa [size_congr hfirst.directories]), hfirst.items_of_ne hij.symm]
  have helsewhere : ∀ k, k ≠ i → k ≠ j → (v.location k).items = (w.location k).items := by
    intro k hki hkj
    rw [hlast.items_of_ne hkj, hfirst.items_of_ne hki]
  refine ⟨?_, ?_, helsewhere, ?_, ?_⟩
  · rw [hsource]
    exact (hw i).not_mem_erase
  · rw [htarget]
    exact List.count_eq_one_of_mem (listItem_nodup (hw j)) (mem_listItem.2 (.inr rfl))
  · intro k other hother
    by_cases hki : k = i
    · rw [hki, hsource]
      exact List.mem_erase_of_ne hother
    · by_cases hkj : k = j
      · rw [hkj, htarget, mem_listItem]
        exact or_iff_left hother
      · rw [helsewhere k hki hkj]
  · intro other
    rw [World.content, World.content, contents_relocateFile h]

/-! ## Where the archive and the relics are -/

namespace Charted

theorem mem_children_archive (hw : w.Charted) (ha : w.archive = some a) :
    a ∈ w.children LocationId.downloads :=
  mem_children.2 ⟨hw.archive_lt a ha, hw.archive_parent a ha⟩

theorem relics_lt (hw : w.Charted) (hr : w.relics = some r) : r < w.size := by
  obtain ⟨a, ha, hexit⟩ := relics_eq_some.1 hr
  exact hw.graph.lt_size_of_mem_exits (hw.archive_lt a ha) (exitNamed_eq_some hexit).1

/-- The relics are none of the directories of the lessons, which have other names. -/
theorem five_le_relics (hw : w.Charted) (hr : w.relics = some r) : 5 ≤ r := by
  obtain ⟨a, -, hexit⟩ := relics_eq_some.1 hr
  have hname := (exitNamed_eq_some hexit).2
  by_contra hlt
  have hlt : r < 5 := Nat.lt_of_not_le hlt
  have hother : ∀ i < 5, (seeded.location i).name ≠ relicsName := by decide
  rw [hw.seeded_name hlt] at hname
  exact hother r hlt hname

end Charted

end World

namespace Session

open World

variable {s t : Session} {command : Command} {line : String}

/-! ## The return of the treasure -/

/-- The line returns the treasure: it moves it from the vault, where it is, and the archive has its
relics. -/
structure Returns (s : Session) (line target : String) : Prop where
  command : Command.ofLine? line = some ⟨.mv, [treasure, target]⟩
  names : Text.contains target "archive" = true
  place : s.current = LocationId.hiddenVault
  item : treasure ∈ (s.world.location LocationId.hiddenVault).items
  relics : s.world.relics.isSome = true

theorem Returns.carriesOut {target : String} (h : s.Returns line target) :
    ∃ done, s.CarriesOut line ⟨.mv, [treasure, target]⟩ done ∧ done.session.missionComplete = true := by
  obtain ⟨r, hr⟩ := Option.isSome_iff_exists.1 h.relics
  obtain ⟨a, ha, -⟩ := relics_eq_some.1 hr
  obtain ⟨world, hworld⟩ := exists_relocateFile (j := r) h.item
  have heffect : Effect (s.noting (Text.trim line)) ⟨.mv, [treasure, target]⟩ _ :=
    .returns ⟨rfl, h.place, h.names⟩ (Option.isSome_of_eq_some ha) hr hworld
  obtain ⟨done, hexecute, hdone⟩ := execute_ok_iff.2 heffect
  refine ⟨done, ⟨h.command, perform_ok.2 hexecute⟩, ?_⟩
  rw [hdone]

theorem Returns.missionComplete {target : String} (h : s.Returns line target) :
    (s.process line).session.missionComplete = true := by
  obtain ⟨done, hdone, hcomplete⟩ := h.carriesOut
  rw [hdone.sameGame.missionComplete]
  exact hcomplete

/-- A line that ends the mission returns the treasure, and leaves the world in which the treasure is
moved to the relics. -/
theorem returns_of_missionComplete (hs : s.missionComplete = false)
    (ht : (s.process line).session.missionComplete = true) :
    ∃ target r, s.Returns line target ∧ s.world.relics = some r ∧
      s.world.relocateFile LocationId.hiddenVault r treasure =
        some (s.process line).session.world := by
  rcases process_game s line with h | ⟨command, t, hcommand, h, hgame⟩
  · rw [h.missionComplete, hs] at ht
    cases ht
  · rw [hgame.missionComplete] at ht
    rw [hgame.world]
    cases h with
    | @returns target r world hreturn _ hrelics hworld =>
        obtain ⟨-, hplace, hnames⟩ := hreturn
        exact ⟨target, r, ⟨hcommand, hnames, hplace, mem_of_relocateFile hworld,
          Option.isSome_of_eq_some hrelics⟩, hrelics, hworld⟩
    | restarts => cases ht
    | _ => exact nomatch hs.symm.trans ht

/-! ## Every line keeps the milestones -/

theorem advances_process (hs : s.Placed) (hline : Command.resets line = false) :
    s.Advances (s.process line).session := by
  have hnoted := hs.of_sameGame (sameGame_noting s (Text.trim line))
  rcases process_game s line with h | ⟨command, t, hcommand, h, hgame⟩
  · exact h.advances
  · exact ((sameGame_noting s _).advances.trans
      (advances_of_effect hnoted h (verb_ne_reset hline hcommand))).trans hgame.advances

/-- **Milestones stay, and the end of the mission tells the truth.**  In every game, a line that does
not reset it keeps the archive, the relics and the end of the mission.  The archive is a directory
of that name below downloads and none of those at the start, and once the mission is over there are
an archive and relics.  The mission ends only by a line that returns the treasure from the vault, and
such a line carries the treasure to the relics, which are the same before and after it; and after every
line that returns the treasure the mission is over. -/
theorem milestones_after (lines : List String) (line : String) :
    let s := start.after lines
    let t := (s.process line).session
    (Command.resets line = false →
      (∀ a, s.world.archive = some a → t.world.archive = some a) ∧
      (∀ r, s.world.relics = some r → t.world.relics = some r) ∧
      (s.missionComplete = true → t.missionComplete = true)) ∧
    (∀ a, s.world.archive = some a →
      a ∈ s.world.children LocationId.downloads ∧ (s.world.location a).name = archiveName ∧
        seeded.size ≤ a) ∧
    (s.missionComplete = true →
      s.world.archive.isSome = true ∧ s.world.relics.isSome = true) ∧
    (s.missionComplete = false → t.missionComplete = true →
      ∃ target r, s.Returns line target ∧ s.world.relics = some r ∧ t.world.relics = some r ∧
        s.world.Carries t.world LocationId.hiddenVault r treasure) ∧
    (∀ target, s.Returns line target → t.missionComplete = true) := by
  intro s t
  have hs : s.Tidy := Tidy.after lines
  have hcharted := hs.placed.charted
  refine ⟨?_, ?_, ?_, ?_, fun target hreturns => hreturns.missionComplete⟩
  · intro hline
    have h : s.Advances t := advances_process hs.placed hline
    exact ⟨h.archive, h.relics, h.missionComplete⟩
  · intro a ha
    exact ⟨hcharted.mem_children_archive ha, hcharted.archive_name a ha,
      hcharted.five_le_archive ha⟩
  · intro hcomplete
    obtain ⟨r, hr⟩ := Option.isSome_iff_exists.1 (hs.relics_isSome hcomplete)
    obtain ⟨a, ha, -⟩ := relics_eq_some.1 hr
    exact ⟨Option.isSome_of_eq_some ha, Option.isSome_of_eq_some hr⟩
  · intro hpending hcomplete
    obtain ⟨target, r, hreturns, hr, hworld⟩ := returns_of_missionComplete hpending hcomplete
    have hline : Command.resets line = false :=
      Command.resets_eq_false hreturns.command (by simp)
    have hvault : LocationId.hiddenVault ≠ r := by
      have hle := hcharted.five_le_relics hr
      exact Nat.ne_of_lt (Nat.lt_of_lt_of_le (by decide) hle)
    have h : s.Advances t := advances_process hs.placed hline
    exact ⟨target, r, hreturns, hr, h.relics r hr,
      carries_relocateFile hs.items_nodup hvault (hcharted.relics_lt hr) hworld⟩

end Session

end ShellQuest
