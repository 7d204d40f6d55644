/-
# Changing files

Every change of files rewrites the list of files of one directory, or of two, one after the other,
and leaves the directories and the archive alone.  `Relists v w i f` says so once for all of them:
`v` is `w` with the list of directory `i` rewritten by `f`, whatever became of the texts.
-/
import ShellQuest.Proofs.World.Lookup
import Mathlib.Data.List.Nodup

namespace ShellQuest.World

/-- `v` is `w` with the files listed in `i` changed by `f`, and perhaps other texts. -/
structure Relists (v w : World) (i : LocationId) (f : List String → List String) : Prop where
  locations : v.locations = (w.modifyItems i f).locations
  archive : v.archive = w.archive

variable {w v : World} {i j : LocationId} {f : List String → List String} {name other : String}

namespace Relists

theorem directories (h : v.Relists w i f) : v.directories = w.directories := by
  have hd := directories_modifyItems w i f
  rw [World.directories] at hd ⊢
  rw [h.locations]
  exact hd

theorem location_eq (h : v.Relists w i f) (j : LocationId) :
    v.location j = (w.modifyItems i f).location j := by
  rw [location, location, h.locations]

theorem items_self (h : v.Relists w i f) (hi : i < w.size) :
    (v.location i).items = f (w.location i).items := by
  rw [h.location_eq, items_modifyItems_self f hi]

theorem items_of_ne (h : v.Relists w i f) (hne : j ≠ i) :
    (v.location j).items = (w.location j).items := by
  rw [h.location_eq, items_modifyItems_of_ne f hne]

theorem mem_items (h : v.Relists w i f) (hkeeps : ∀ items : List String, name ∈ items → name ∈ f items)
    (hitem : name ∈ (w.location j).items) : name ∈ (v.location j).items := by
  by_cases hji : j = i
  · subst hji
    rw [h.items_self (lt_size_of_mem_items hitem)]
    exact hkeeps _ hitem
  · rw [h.items_of_ne hji]
    exact hitem

/-- A list that is rewritten without repeating a name leaves no directory with a repeated name. -/
theorem items_nodup (h : v.Relists w i f) (hf : (f (w.location i).items).Nodup)
    (hw : ∀ j, (w.location j).items.Nodup) (j : LocationId) : (v.location j).items.Nodup := by
  by_cases hji : j = i
  · subst hji
    rcases Nat.lt_or_ge j w.size with hj | hj
    · rw [h.items_self hj]
      exact hf
    · rw [location_of_size_le (by rw [size_congr h.directories]; exact hj)]
      exact List.nodup_nil
  · rw [h.items_of_ne hji]
    exact hw j

end Relists

/-! ## The list of a directory -/

theorem mem_listItem {items : List String} :
    other ∈ listItem name items ↔ other ∈ items ∨ other = name := by
  by_cases h : name ∈ items
  · have habsorb : other = name → other ∈ items := fun he => he ▸ h
    simpa [listItem, h] using habsorb
  · simp [listItem, h]

theorem listItem_nodup {items : List String} (h : items.Nodup) : (listItem name items).Nodup := by
  by_cases hmem : name ∈ items
  · simpa [listItem, hmem] using h
  · simp only [listItem, List.contains_eq_mem, hmem, decide_false, Bool.false_eq_true, if_false]
    exact List.nodup_append.2
      ⟨h, List.nodup_singleton name, fun a ha b hb hab => hmem (List.mem_singleton.1 hb ▸ hab ▸ ha)⟩

/-! ## The changes -/

theorem addFile_relists (w : World) (i : LocationId) (name text : String) :
    (w.addFile i name text).Relists w i (listItem name) :=
  ⟨rfl, rfl⟩

theorem copyFile_relists (w : World) (i : LocationId) (source target : String) :
    (w.copyFile i source target).Relists w i fun items => items ++ [target] :=
  ⟨rfl, rfl⟩

theorem removeFile_relists (h : w.removeFile i name = some v) :
    v.Relists w i fun items => items.erase name := by
  rw [removeFile] at h
  split at h
  · cases h
    exact ⟨rfl, rfl⟩
  · exact absurd h (by simp)

theorem renameFile_relists {source target : String} (h : w.renameFile i source target = some v) :
    v.Relists w i fun items => (items.erase source).filter (· != target) ++ [target] := by
  rw [renameFile] at h
  split at h
  · cases h
    exact ⟨rfl, rfl⟩
  · exact absurd h (by simp)

theorem relocateFile_relists (h : w.relocateFile i j name = some v) :
    ∃ u : World, (u.Relists w i fun items => items.erase name) ∧ v.Relists u j (listItem name) := by
  rw [relocateFile] at h
  split at h
  · cases h
    exact ⟨w.modifyItems i fun items => items.erase name, ⟨rfl, rfl⟩, ⟨rfl, rfl⟩⟩
  · exact absurd h (by simp)

theorem contents_relocateFile (h : w.relocateFile i j name = some v) : v.contents = w.contents := by
  rw [relocateFile] at h
  split at h
  · cases h
    rfl
  · cases h

theorem mem_items_relocateFile {k : LocationId} (h : w.relocateFile i j name = some v)
    (hne : other ≠ name) (hitem : other ∈ (w.location k).items) :
    other ∈ (v.location k).items := by
  obtain ⟨u, hfirst, hlast⟩ := relocateFile_relists h
  have hkept := hfirst.mem_items (fun _ => (List.mem_erase_of_ne hne).2) hitem
  exact hlast.mem_items (fun _ hitem => mem_listItem.2 (.inl hitem)) hkept

theorem mem_of_removeFile (h : w.removeFile i name = some v) : name ∈ (w.location i).items := by
  by_contra hno
  simp [removeFile, hno] at h

theorem mem_of_renameFile {source target : String} (h : w.renameFile i source target = some v) :
    source ∈ (w.location i).items := by
  by_contra hno
  simp [renameFile, hno] at h

theorem mem_of_relocateFile (h : w.relocateFile i j name = some v) :
    name ∈ (w.location i).items := by
  by_contra hno
  simp [relocateFile, hno] at h

/-- A file that is removed is gone, as it was not listed twice. -/
theorem not_mem_of_removeFile (hw : (w.location i).items.Nodup) (h : w.removeFile i name = some v) :
    name ∉ (v.location i).items := by
  rw [(removeFile_relists h).items_self (lt_size_of_mem_items (mem_of_removeFile h))]
  exact hw.not_mem_erase

theorem exists_removeFile (h : name ∈ (w.location i).items) :
    ∃ v, w.removeFile i name = some v := by
  simp [removeFile, h]

theorem exists_renameFile {source target : String} (h : source ∈ (w.location i).items) :
    ∃ v, w.renameFile i source target = some v := by
  simp [renameFile, h]

theorem exists_relocateFile (h : name ∈ (w.location i).items) :
    ∃ v, w.relocateFile i j name = some v := by
  simp [relocateFile, h]

end ShellQuest.World
