/-
# Names in a directory

Files and the directories next to them are found by name, a file before a directory, so a directory
with the name of a file beside it is out of reach: that is a *clash*.  An exit that is found by its
name stays the one that is found, however the world grows.  What each change does to the clashes is
an equivalence, and only extracting the archive into a directory that was there can bring a new one
by itself; for any other change it is enough that the name was vacant.
-/
import ShellQuest.Proofs.World.Charted
import Mathlib.Data.List.Find

namespace ShellQuest.World

/-- A file of this name lies in `i`, and next to it a directory of the same name. -/
structure Clash (w : World) (i : LocationId) (name : String) : Prop where
  item : name ∈ (w.location i).items
  exit : w.hasExit i name = true

variable {w v : World} {i j parent : LocationId} {name other description : String}

/-! ## Exits by name -/

theorem hasExit_of_exitNamed (h : w.exitNamed i name = some j) : w.hasExit i name = true := by
  rw [hasExit, h]
  rfl

theorem find?_exits_of_extends (hv : v.Extends w) (hw : w.Graph) (hi : i < w.size) :
    (w.location i).exits.find? (fun e => (v.location e).name == name) = w.exitNamed i name := by
  rw [exitNamed]
  apply List.find?_congr
  intro e he
  rw [hv.name_eq e (hw.lt_size_of_mem_exits hi he)]

/-- The exit that a name finds is found by it in every later world. -/
theorem exitNamed_of_extends (hv : v.Extends w) (hw : w.Graph) (hi : i < w.size)
    (h : w.exitNamed i name = some j) : v.exitNamed i name = some j := by
  obtain ⟨rest, hrest⟩ := hv.exits_prefix i hi
  rw [exitNamed, ← hrest, List.find?_append, find?_exits_of_extends hv hw hi, h]
  rfl

theorem hasExit_of_extends (hv : v.Extends w) (hw : w.Graph) (hi : i < w.size)
    (h : w.hasExit i name = true) : v.hasExit i name = true := by
  obtain ⟨j, hj⟩ := Option.isSome_iff_exists.1 h
  exact hasExit_of_exitNamed (exitNamed_of_extends hv hw hi hj)

theorem Charted.exitNamed_seeded (hw : w.Charted) (hi : i < 5)
    (h : seeded.exitNamed i name = some j) : w.exitNamed i name = some j :=
  exitNamed_of_extends hw.grown graph_seeded hi h

theorem relics_eq_some :
    w.relics = some i ↔ ∃ a, w.archive = some a ∧ w.exitNamed a relicsName = some i := by
  rw [relics, Option.bind_eq_some_iff]

theorem relics_eq_none (h : w.archive = none) : w.relics = none := by
  rw [relics, h]
  rfl

theorem relics_congr (h : v.directories = w.directories) (harchive : v.archive = w.archive) :
    v.relics = w.relics := by
  simp only [relics, harchive, exitNamed_congr h]

theorem relics_of_extends (hv : v.Extends w) (hw : w.Charted) (harchive : v.archive = w.archive)
    (h : w.relics = some i) : v.relics = some i := by
  obtain ⟨a, ha, hexit⟩ := relics_eq_some.1 h
  refine relics_eq_some.2 ⟨a, harchive.trans ha, ?_⟩
  exact exitNamed_of_extends hv hw.graph (hw.archive_lt a ha) hexit

/-! ## A new directory -/

theorem name_createDirectory (hp : parent < w.size) :
    ((w.createDirectory parent name description).1.location w.size).name = name := by
  simp only [createDirectory]
  rw [location_insertLocation_self hp]

theorem exitNamed_createDirectory (hw : w.Graph) (hp : parent < w.size) (hi : i < w.size) :
    (w.createDirectory parent name description).1.exitNamed i other =
      (w.exitNamed i other).or (if i = parent ∧ other = name then some w.size else none) := by
  have hexits : ((w.createDirectory parent name description).1.location i).exits =
      (w.location i).exits ++ if i = parent then [w.size] else [] := by
    simp only [createDirectory]
    rw [location_insertLocation hi]
  rw [exitNamed, hexits, List.find?_append,
    find?_exits_of_extends (extends_createDirectory w _ _ _) hw hi]
  congr 1
  by_cases hip : i = parent
  · by_cases hname : other = name
    · simp [hip, hname, name_createDirectory hp]
    · simp [hip, hname, name_createDirectory hp, Ne.symm hname]
  · simp [hip]

theorem hasExit_createDirectory (hw : w.Graph) (hp : parent < w.size) (hi : i < w.size) :
    (w.createDirectory parent name description).1.hasExit i other = true ↔
      w.hasExit i other = true ∨ (i = parent ∧ other = name) := by
  rw [hasExit, exitNamed_createDirectory hw hp hi, Option.isSome_or, Bool.or_eq_true, hasExit]
  apply or_congr_right
  by_cases hnew : i = parent ∧ other = name
  · simp [hnew]
  · simp [hnew]

theorem hasExit_createDirectory_self (hp : parent < w.size) :
    (w.createDirectory parent name description).1.hasExit w.size other = true ↔
      other = (w.location parent).name := by
  have hexits :
      ((w.createDirectory parent name description).1.location w.size).exits = [parent] := by
    simp only [createDirectory]
    rw [location_insertLocation_self hp]
  rw [hasExit_iff, hexits]
  simp only [List.mem_singleton, exists_eq_left,
    (extends_createDirectory w parent name description).name_eq parent hp]
  exact eq_comm

theorem clash_createDirectory (hw : w.Graph) (hp : parent < w.size)
    (hname : name ∉ (w.location parent).items) :
    (w.createDirectory parent name description).1.Clash i other ↔ w.Clash i other := by
  constructor
  · rintro ⟨hitem, hexit⟩
    rw [items_createDirectory hp] at hitem
    rw [hasExit_createDirectory hw hp (lt_size_of_mem_items hitem)] at hexit
    rcases hexit with hexit | ⟨rfl, rfl⟩
    · exact ⟨hitem, hexit⟩
    · exact absurd hitem hname
  · rintro ⟨hitem, hexit⟩
    have hi := lt_size_of_mem_items hitem
    refine ⟨?_, (hasExit_createDirectory hw hp hi).2 (.inl hexit)⟩
    rw [items_createDirectory hp]
    exact hitem

/-! ## Files -/

theorem clash_of_directories_eq (h : v.directories = w.directories) :
    v.Clash i name ↔ name ∈ (v.location i).items ∧ w.hasExit i name = true := by
  constructor
  · rintro ⟨hitem, hexit⟩
    exact ⟨hitem, by rwa [hasExit_congr h] at hexit⟩
  · rintro ⟨hitem, hexit⟩
    exact ⟨hitem, by rwa [hasExit_congr h]⟩

/-- A list of files brings a clash only by a name that it gains. -/
theorem Relists.clash_cases {f : List String → List String} (h : v.Relists w i f)
    (hclash : v.Clash j other) :
    w.Clash j other ∨
      (j = i ∧ other ∈ f (w.location i).items ∧ w.hasExit i other = true) := by
  obtain ⟨hitem, hexit⟩ := (clash_of_directories_eq h.directories).1 hclash
  by_cases hji : j = i
  · subst hji
    have hj : j < w.size := by
      rw [← size_congr h.directories]
      exact lt_size_of_mem_items hitem
    rw [h.items_self hj] at hitem
    exact .inr ⟨rfl, hitem, hexit⟩
  · rw [h.items_of_ne hji] at hitem
    exact .inl ⟨hitem, hexit⟩

theorem Relists.clash_of_vacant {f : List String → List String} (h : v.Relists w i f)
    (hf : ∀ other ∈ f (w.location i).items,
      other ∈ (w.location i).items ∨ w.hasExit i other = false)
    (hclash : v.Clash j other) : w.Clash j other := by
  rcases h.clash_cases hclash with hclash | ⟨rfl, hitem, hexit⟩
  · exact hclash
  · rcases hf other hitem with hitem | hno
    · exact ⟨hitem, hexit⟩
    · rw [hno] at hexit
      cases hexit

/-! ## The archive -/

theorem exitNamed_extractArchive (hw : w.Graph) (hd : LocationId.downloads < w.size)
    (h : w.archive = none) :
    w.extractArchive.1.exitNamed LocationId.downloads archiveName = some w.archiveDirectory.2 := by
  rw [exitNamed_congr (directories_extractArchive h)]
  rcases archiveDirectory_cases w with ⟨made, hmade, hdirectory⟩ | ⟨hno, hdirectory⟩
  · rw [hdirectory]
    exact hmade
  · rw [hdirectory]
    rw [exitNamed_createDirectory hw hd hd, hno]
    rfl

theorem hasExit_extractArchive (hw : w.Charted) (hi : i < w.size) (h : w.archive = none)
    (hname : name ≠ archiveName) : w.extractArchive.1.hasExit i name = w.hasExit i name := by
  rw [hasExit_congr (directories_extractArchive h)]
  rcases archiveDirectory_cases w with ⟨made, -, hdirectory⟩ | ⟨-, hdirectory⟩
  · rw [hdirectory]
  · rw [hdirectory, Bool.eq_iff_iff, hasExit_createDirectory hw.graph hw.downloads_lt hi]
    simp [hname]

/-- What extracting brings: the scripted files clash with directories that the player made. -/
theorem clash_extractArchive (hw : w.Charted) (h : w.archive = none)
    (hname : archiveName ∉ (w.location LocationId.downloads).items) :
    w.extractArchive.1.Clash i name ↔
      w.Clash i name ∨ (w.exitNamed LocationId.downloads archiveName = some i ∧
        name ∈ archiveNames ∧ w.hasExit i name = true) := by
  have hd := hw.downloads_lt
  have hold : w.archiveDirectory.1.Clash i name ↔ w.Clash i name := by
    rcases archiveDirectory_cases w with ⟨made, -, hdirectory⟩ | ⟨-, hdirectory⟩
    · rw [hdirectory]
    · rw [hdirectory]
      exact clash_createDirectory hw.graph hd hname
  rw [clash_of_directories_eq (directories_extractArchive h),
    mem_items_extractArchive h hw.archiveDirectory_lt, or_and_right]
  have hitems : (name ∈ (w.archiveDirectory.1.location i).items ∧
      w.archiveDirectory.1.hasExit i name = true) ↔ w.Clash i name := by
    rw [← hold]
    exact ⟨fun ⟨hitem, hexit⟩ => ⟨hitem, hexit⟩, fun ⟨hitem, hexit⟩ => ⟨hitem, hexit⟩⟩
  rw [hitems]
  apply or_congr_right
  rcases archiveDirectory_cases w with ⟨made, hmade, hdirectory⟩ | ⟨hno, hdirectory⟩
  · rw [hdirectory, hmade, and_assoc, Option.some.injEq, eq_comm (a := i)]
  · -- a directory that is made for the archive has no exit but downloads
    rw [hdirectory, hno]
    constructor
    · rintro ⟨⟨rfl, hmem⟩, hexit⟩
      have hup := (hasExit_createDirectory_self hd).1 hexit
      rw [hw.seeded_name (by decide)] at hup
      rw [hup] at hmem
      exact absurd hmem (by decide)
    · rintro ⟨hsome, -⟩
      cases hsome

end ShellQuest.World
