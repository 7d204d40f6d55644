/-
# The archive in the graph

What extracting does: the directory of the archive is the exit of downloads by that name, made if
there was none, and its list of files gains the names of the scripted files that it lacked.
Nothing else is rewritten.
-/
import ShellQuest.Proofs.World.Creation
import ShellQuest.Proofs.World.Files

namespace ShellQuest.World

variable {w : World} {i j : LocationId} {name : String}

def archiveNames : List String := archiveFiles.map Prod.fst

theorem exitNamed_eq_some (h : w.exitNamed i name = some j) :
    j ∈ (w.location i).exits ∧ (w.location j).name = name := by
  have hname := List.find?_some h
  exact ⟨List.mem_of_find?_eq_some h, by simpa using hname⟩

theorem hasExit_iff :
    w.hasExit i name = true ↔ ∃ e ∈ (w.location i).exits, (w.location e).name = name := by
  simp [hasExit, exitNamed, List.find?_isSome]

theorem hasExit_eq_false : w.hasExit i name = false ↔ w.exitNamed i name = none := by
  simp [hasExit]

/-! ## The directory of the archive -/

theorem archiveDirectory_cases (w : World) :
    (∃ made, w.exitNamed LocationId.downloads archiveName = some made ∧
      w.archiveDirectory = (w, made)) ∨
    (w.exitNamed LocationId.downloads archiveName = none ∧
      w.archiveDirectory =
        w.createDirectory LocationId.downloads archiveName archiveDescription) := by
  rw [archiveDirectory]
  cases h : w.exitNamed LocationId.downloads archiveName with
  | some made => exact .inl ⟨made, rfl, rfl⟩
  | none => exact .inr ⟨rfl, rfl⟩

theorem graph_archiveDirectory (hw : w.Graph) (hd : LocationId.downloads < w.size) :
    w.archiveDirectory.1.Graph := by
  rcases archiveDirectory_cases w with ⟨made, -, h⟩ | ⟨-, h⟩
  · rw [h]
    exact hw
  · rw [h]
    exact graph_createDirectory hw hd

theorem extends_archiveDirectory (w : World) : w.archiveDirectory.1.Extends w := by
  rcases archiveDirectory_cases w with ⟨made, -, h⟩ | ⟨-, h⟩
  · rw [h]
    exact Extends.refl w
  · rw [h]
    exact extends_createDirectory w _ _ _

theorem size_archiveDirectory_le (w : World) : w.archiveDirectory.1.size ≤ w.size + 1 := by
  rcases archiveDirectory_cases w with ⟨made, -, h⟩ | ⟨-, h⟩
  · rw [h]
    exact Nat.le_succ _
  · rw [h, size_createDirectory]

theorem items_archiveDirectory (hd : LocationId.downloads < w.size) :
    (w.archiveDirectory.1.location i).items = (w.location i).items := by
  rcases archiveDirectory_cases w with ⟨made, -, h⟩ | ⟨-, h⟩
  · rw [h]
  · rw [h, items_createDirectory hd]

theorem archiveDirectory_exit (hd : LocationId.downloads < w.size) :
    w.archiveDirectory.2 ∈ (w.archiveDirectory.1.location LocationId.downloads).exits ∧
      (w.archiveDirectory.1.location w.archiveDirectory.2).name = archiveName := by
  rcases archiveDirectory_cases w with ⟨made, hmade, h⟩ | ⟨-, h⟩
  · rw [h]
    exact exitNamed_eq_some hmade
  · rw [h]
    simp only [createDirectory]
    rw [location_insertLocation hd, location_insertLocation_self hd]
    simp

/-! ## Extracting -/

/-- `w` with some files, each with its text, added to one directory. -/
def addFiles (w : World) (i : LocationId) (files : List (String × String)) : World :=
  files.foldl (fun w (name, text) => w.addFile i name text) w

theorem directories_addFiles (files : List (String × String)) (w : World) :
    (w.addFiles i files).directories = w.directories := by
  induction files generalizing w with
  | nil => rfl
  | cons file files ih =>
      have hrest := ih (w.addFile i file.1 file.2)
      exact hrest.trans (addFile_relists w i file.1 file.2).directories

theorem mem_items_addFiles (files : List (String × String)) {w : World} (hi : i < w.size) :
    name ∈ ((w.addFiles i files).location j).items ↔
      name ∈ (w.location j).items ∨ (j = i ∧ name ∈ files.map Prod.fst) := by
  induction files generalizing w with
  | nil => simp [addFiles]
  | cons file files ih =>
      have hadd := addFile_relists w i file.1 file.2
      have hsize : i < (w.addFile i file.1 file.2).size := by
        rw [size_congr hadd.directories]
        exact hi
      have hrest := ih hsize
      rw [addFiles, List.foldl_cons, ← addFiles, hrest, List.map_cons, List.mem_cons]
      by_cases hji : j = i
      · subst hji
        rw [hadd.items_self hi, mem_listItem, or_assoc]
        simp
      · rw [hadd.items_of_ne hji]
        simp [hji]

theorem items_nodup_addFiles (files : List (String × String)) {w : World}
    (hw : ∀ j, (w.location j).items.Nodup) (j : LocationId) :
    ((w.addFiles i files).location j).items.Nodup := by
  induction files generalizing w with
  | nil => exact hw j
  | cons file files ih =>
      apply ih
      exact (addFile_relists w i file.1 file.2).items_nodup (listItem_nodup (hw i)) hw

theorem extractArchive_eq (h : w.archive = none) :
    w.extractArchive =
      ({ w.archiveDirectory.1.addFiles w.archiveDirectory.2 archiveFiles with
          archive := some w.archiveDirectory.2 }, w.archiveDirectory.2) := by
  rw [extractArchive, h]
  rfl

theorem directories_extractArchive (h : w.archive = none) :
    w.extractArchive.1.directories = w.archiveDirectory.1.directories := by
  rw [extractArchive_eq h]
  exact directories_addFiles archiveFiles w.archiveDirectory.1

theorem archive_extractArchive (h : w.archive = none) :
    w.extractArchive.1.archive = some w.archiveDirectory.2 := by
  rw [extractArchive_eq h]

theorem mem_items_extractArchive (h : w.archive = none)
    (hlt : w.archiveDirectory.2 < w.archiveDirectory.1.size) :
    name ∈ (w.extractArchive.1.location j).items ↔
      name ∈ (w.archiveDirectory.1.location j).items ∨
        (j = w.archiveDirectory.2 ∧ name ∈ archiveNames) := by
  rw [extractArchive_eq h]
  exact mem_items_addFiles archiveFiles hlt

theorem items_nodup_extractArchive (hd : LocationId.downloads < w.size) (h : w.archive = none)
    (hw : ∀ j, (w.location j).items.Nodup) (j : LocationId) :
    (w.extractArchive.1.location j).items.Nodup := by
  rw [extractArchive_eq h]
  refine items_nodup_addFiles archiveFiles (fun j => ?_) j
  rw [items_archiveDirectory hd]
  exact hw j

end ShellQuest.World
