/-
# Looking into a changed world

What a change of the world does to the directory of a number.  A change of files keeps the table of
directories but for the lists of their files: the *bare* table.  Everything that only asks for
directories (names, exits, the way up, keys) is a function of the bare table, so it is untouched
by every change of files.
-/
import ShellQuest.World.Edit
import Mathlib.Data.List.Basic

namespace ShellQuest

namespace Location

/-- The directory without its files. -/
def bare (l : Location) : Location := { l with items := [] }

@[simp] theorem hasItem_iff {l : Location} {name : String} :
    l.hasItem name = true ↔ name ∈ l.items := by
  simp [hasItem]

@[simp] theorem hasItem_eq_false {l : Location} {name : String} :
    l.hasItem name = false ↔ name ∉ l.items := by
  simp [hasItem]

end Location

namespace World

variable {w v : World} {i j : LocationId} {name : String}

/-! ## The table -/

theorem location_of_size_le (h : w.size ≤ i) : w.location i = default := by
  rw [location, List.getD_eq_getElem?_getD, List.getElem?_eq_none h]
  rfl

theorem location_eq_getElem {i : Nat} (h : i < w.locations.length) :
    w.location i = w.locations[i] := by
  rw [location, List.getD_eq_getElem?_getD, List.getElem?_eq_getElem h]
  rfl

theorem location_mem (h : i < w.size) : w.location i ∈ w.locations := by
  rw [location_eq_getElem h]
  exact List.getElem_mem h

theorem exists_location_eq {l : Location} (h : l ∈ w.locations) :
    ∃ i < w.size, w.location i = l := by
  obtain ⟨i, hi, rfl⟩ := List.getElem_of_mem h
  exact ⟨i, hi, location_eq_getElem hi⟩

@[simp] theorem size_modifyLocation (w : World) (i : LocationId) (f : Location → Location) :
    (w.modifyLocation i f).size = w.size := by
  simp [modifyLocation, size]

theorem location_modifyLocation_self (f : Location → Location) (h : i < w.size) :
    (w.modifyLocation i f).location i = f (w.location i) := by
  have hi : i < (w.locations.modify i f).length := by
    rw [List.length_modify]
    exact h
  rw [location_eq_getElem (w := w.modifyLocation i f) hi, location_eq_getElem h]
  exact List.getElem_modify_eq f i _ hi

theorem location_modifyLocation_of_ne (f : Location → Location) (h : j ≠ i) :
    (w.modifyLocation i f).location j = w.location j := by
  simp [modifyLocation, location, List.getD_eq_getElem?_getD,
    List.getElem?_modify_ne f _ (Ne.symm h)]

theorem map_modifyLocation {α : Type} {g : Location → α} {f : Location → Location}
    (hf : ∀ l, g (f l) = g l) : (w.modifyLocation i f).locations.map g = w.locations.map g := by
  apply List.ext_getElem?
  intro j
  simp only [modifyLocation, List.getElem?_map, List.getElem?_modify]
  cases w.locations[j]? with
  | none => rfl
  | some l =>
      by_cases hij : i = j
      · simp [hij, hf]
      · simp [hij]

/-! ## The bare table -/

/-- The directories without their files. -/
def directories (w : World) : List Location := w.locations.map Location.bare

theorem bare_location (w : World) (i : Nat) :
    (w.location i).bare = w.directories.getD i default := by
  rcases Nat.lt_or_ge i w.size with h | h
  · have hi : i < w.directories.length := by
      rw [directories, List.length_map]
      exact h
    rw [location_eq_getElem h, List.getD_eq_getElem?_getD, List.getElem?_eq_getElem hi]
    simp only [directories, List.getElem_map, Option.getD_some]
    rfl
  · rw [location_of_size_le h, List.getD_eq_getElem?_getD, List.getElem?_eq_none]
    · rfl
    · rw [directories, List.length_map]
      exact h

section Congr

variable (h : v.directories = w.directories)
include h

theorem size_congr : v.size = w.size := by
  have hl := congrArg List.length h
  simpa [directories, size] using hl

theorem bare_congr (i : LocationId) : (v.location i).bare = (w.location i).bare := by
  rw [bare_location, bare_location, h]

theorem id_congr (i : LocationId) : (v.location i).id = (w.location i).id := by
  have hb := congrArg Location.id (bare_congr h i)
  exact hb

theorem key_congr (i : LocationId) : (v.location i).key = (w.location i).key := by
  have hb := congrArg Location.key (bare_congr h i)
  exact hb

theorem name_congr (i : LocationId) : (v.location i).name = (w.location i).name := by
  have hb := congrArg Location.name (bare_congr h i)
  exact hb

theorem description_congr (i : LocationId) :
    (v.location i).description = (w.location i).description := by
  have hb := congrArg Location.description (bare_congr h i)
  exact hb

theorem exits_congr (i : LocationId) : (v.location i).exits = (w.location i).exits := by
  have hb := congrArg Location.exits (bare_congr h i)
  exact hb

theorem parent_congr (i : LocationId) : (v.location i).parent = (w.location i).parent := by
  have hb := congrArg Location.parent (bare_congr h i)
  exact hb

theorem exitNamed_congr (i : LocationId) (name : String) :
    v.exitNamed i name = w.exitNamed i name := by
  simp only [exitNamed, exits_congr h, name_congr h]

theorem hasExit_congr (i : LocationId) (name : String) : v.hasExit i name = w.hasExit i name := by
  rw [hasExit, hasExit, exitNamed_congr h]

theorem keys_congr : v.locations.map Location.key = w.locations.map Location.key := by
  have hk := congrArg (List.map Location.key) h
  simpa [directories, Function.comp_def, Location.bare] using hk

end Congr

/-! ## Changes of files -/

theorem directories_modifyItems (w : World) (i : LocationId) (f : List String → List String) :
    (w.modifyItems i f).directories = w.directories :=
  map_modifyLocation fun _ => rfl

theorem items_modifyItems_self (f : List String → List String) (h : i < w.size) :
    ((w.modifyItems i f).location i).items = f (w.location i).items := by
  rw [modifyItems, location_modifyLocation_self _ h]

theorem items_modifyItems_of_ne (f : List String → List String) (h : j ≠ i) :
    ((w.modifyItems i f).location j).items = (w.location j).items := by
  rw [modifyItems, location_modifyLocation_of_ne _ h]

theorem lt_size_of_mem_items (h : name ∈ (w.location i).items) : i < w.size := by
  by_contra hi
  rw [location_of_size_le (Nat.le_of_not_lt hi)] at h
  exact absurd h List.not_mem_nil

end World

end ShellQuest
