/-
# Worlds of a game

What every world of a game has, beyond the graph: it has grown from the world at the start, so the
five directories of the lessons are where they were and keep their names; and the archive, once it
is there, is a directory of that name below downloads.
-/
import ShellQuest.Proofs.World.Archive

namespace ShellQuest.World

/-- A world that a game can get to, as far as its directories go. -/
structure Charted (w : World) : Prop where
  graph : w.Graph
  grown : w.Extends seeded
  archive_lt : ∀ a, w.archive = some a → a < w.size
  archive_parent : ∀ a, w.archive = some a → (w.location a).parent = some LocationId.downloads
  archive_name : ∀ a, w.archive = some a → (w.location a).name = archiveName

variable {w v : World} {i j a parent : LocationId} {name description : String}

/-! ## The start -/

theorem graph_seeded : seeded.Graph where
  home_lt := by decide
  id_eq := by decide
  parent_home := by decide
  parent_lt := by
    intro i hi hne
    match i, hi, hne with
    | 1, _, _ => exact ⟨0, by decide, rfl⟩
    | 2, _, _ => exact ⟨0, by decide, rfl⟩
    | 3, _, _ => exact ⟨0, by decide, rfl⟩
    | 4, _, _ => exact ⟨3, by decide, rfl⟩
  exits_eq := by decide
  keys_nodup := by decide

theorem charted_seeded : seeded.Charted where
  graph := graph_seeded
  grown := Extends.refl seeded
  archive_lt a h := by cases h
  archive_parent a h := by cases h
  archive_name a h := by cases h

namespace Charted

/-! ## The directories of the lessons -/

theorem five_le (hw : w.Charted) : 5 ≤ w.size := hw.grown.size_le

theorem downloads_lt (hw : w.Charted) : LocationId.downloads < w.size :=
  Nat.lt_of_lt_of_le (by decide) hw.five_le

theorem hiddenVault_lt (hw : w.Charted) : LocationId.hiddenVault < w.size :=
  Nat.lt_of_lt_of_le (by decide) hw.five_le

theorem seeded_name (hw : w.Charted) (hi : i < 5) :
    (w.location i).name = (seeded.location i).name :=
  hw.grown.name_eq i hi

theorem seeded_parent (hw : w.Charted) (hi : i < 5) :
    (w.location i).parent = (seeded.location i).parent :=
  hw.grown.parent_eq i hi

theorem five_le_of_parent_downloads (hw : w.Charted)
    (h : (w.location i).parent = some LocationId.downloads) : 5 ≤ i := by
  by_contra hi
  have hi : i < 5 := Nat.lt_of_not_le hi
  rw [hw.seeded_parent hi] at h
  match i, hi, h with
  | 0, _, h | 1, _, h | 2, _, h | 3, _, h | 4, _, h => exact absurd h (by decide)

theorem five_le_archive (hw : w.Charted) (ha : w.archive = some a) : 5 ≤ a :=
  hw.five_le_of_parent_downloads (hw.archive_parent a ha)

/-! ## What changes keep -/

theorem of_directories_eq (hw : w.Charted) (h : v.directories = w.directories)
    (harchive : v.archive = w.archive) : v.Charted where
  graph := hw.graph.of_directories_eq h
  grown := (Extends.of_directories_eq h).trans hw.grown
  archive_lt a ha := by
    rw [size_congr h]
    exact hw.archive_lt a (harchive ▸ ha)
  archive_parent a ha := by
    rw [parent_congr h]
    exact hw.archive_parent a (harchive ▸ ha)
  archive_name a ha := by
    rw [name_congr h]
    exact hw.archive_name a (harchive ▸ ha)

theorem of_extends (hw : w.Charted) (hv : v.Graph) (h : v.Extends w)
    (harchive : v.archive = w.archive) : v.Charted where
  graph := hv
  grown := h.trans hw.grown
  archive_lt a ha := Nat.lt_of_lt_of_le (hw.archive_lt a (harchive ▸ ha)) h.size_le
  archive_parent a ha := by
    rw [h.parent_eq a (hw.archive_lt a (harchive ▸ ha))]
    exact hw.archive_parent a (harchive ▸ ha)
  archive_name a ha := by
    rw [h.name_eq a (hw.archive_lt a (harchive ▸ ha))]
    exact hw.archive_name a (harchive ▸ ha)

theorem createDirectory (hw : w.Charted) (hp : parent < w.size) :
    (w.createDirectory parent name description).1.Charted :=
  hw.of_extends (graph_createDirectory hw.graph hp) (extends_createDirectory w _ _ _) rfl

theorem graph_archiveDirectory (hw : w.Charted) : w.archiveDirectory.1.Graph :=
  World.graph_archiveDirectory hw.graph hw.downloads_lt

theorem archiveDirectory_lt (hw : w.Charted) :
    w.archiveDirectory.2 < w.archiveDirectory.1.size := by
  have hexit := (archiveDirectory_exit hw.downloads_lt).1
  have hlt := Nat.lt_of_lt_of_le hw.downloads_lt (extends_archiveDirectory w).size_le
  exact hw.graph_archiveDirectory.lt_size_of_mem_exits hlt hexit

/-- The directory of the archive lies below downloads: the way up from there is home, which has
another name. -/
theorem archiveDirectory_parent (hw : w.Charted) :
    (w.archiveDirectory.1.location w.archiveDirectory.2).parent = some LocationId.downloads := by
  have hgrown := (extends_archiveDirectory w).trans hw.grown
  have hlt := Nat.lt_of_lt_of_le hw.downloads_lt (extends_archiveDirectory w).size_le
  obtain ⟨hexit, hname⟩ := archiveDirectory_exit hw.downloads_lt
  rcases (hw.graph_archiveDirectory.mem_exits hlt).1 hexit with hup | ⟨-, hdown⟩
  · rw [hgrown.parent_eq _ (by decide)] at hup
    have hid : LocationId.home = w.archiveDirectory.2 := Option.some.inj hup
    rw [← hid, hgrown.name_eq _ (by decide)] at hname
    exact absurd hname (by decide)
  · exact hdown

theorem extractArchive (hw : w.Charted) (h : w.archive = none) :
    w.extractArchive.1.Charted where
  graph := hw.graph_archiveDirectory.of_directories_eq (directories_extractArchive h)
  grown := (Extends.of_directories_eq (directories_extractArchive h)).trans
    ((extends_archiveDirectory w).trans hw.grown)
  archive_lt a ha := by
    rw [archive_extractArchive h] at ha
    cases ha
    rw [size_congr (directories_extractArchive h)]
    exact hw.archiveDirectory_lt
  archive_parent a ha := by
    rw [archive_extractArchive h] at ha
    cases ha
    rw [parent_congr (directories_extractArchive h)]
    exact hw.archiveDirectory_parent
  archive_name a ha := by
    rw [archive_extractArchive h] at ha
    cases ha
    rw [name_congr (directories_extractArchive h)]
    exact (archiveDirectory_exit hw.downloads_lt).2

end Charted

theorem extends_extractArchive (h : w.archive = none) : w.extractArchive.1.Extends w :=
  (Extends.of_directories_eq (directories_extractArchive h)).trans (extends_archiveDirectory w)

end ShellQuest.World
