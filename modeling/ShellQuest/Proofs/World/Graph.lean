/-
# The graph of directories

Directories form a tree with `home` at its root, written into the table so that a directory stands
after the one above it.  The exits of a directory are determined by the ways up alone: its own
parent first, and then, in the order of their creation, the directories whose parent it is.  This
is `World.Graph`.  A change of files does not touch it, and a new directory below an existing one
under a free key keeps it.

`World.Extends` is the other half: a world that comes later in a game has every directory of the
earlier one, unchanged but for its files and for exits added at the end.
-/
import ShellQuest.Proofs.World.Lookup
import ShellQuest.World.Seed
import Mathlib.Data.List.Nodup
import Mathlib.Data.List.Range

namespace ShellQuest.World

/-- The directories whose parent is `i`, in the order of their creation. -/
def children (w : World) (i : LocationId) : List LocationId :=
  (List.range w.size).filter fun j => (w.location j).parent == some i

/-- The table is a tree that is rooted at home and grows downwards. -/
structure Graph (w : World) : Prop where
  home_lt : LocationId.home < w.size
  id_eq : ∀ i < w.size, (w.location i).id = i
  parent_home : (w.location LocationId.home).parent = none
  parent_lt : ∀ i < w.size, i ≠ LocationId.home → ∃ p < i, (w.location i).parent = some p
  exits_eq : ∀ i < w.size, (w.location i).exits = (w.location i).parent.toList ++ w.children i
  keys_nodup : (w.locations.map Location.key).Nodup

/-- `v` has every directory of `w`, unchanged but for its files and for exits added at the end. -/
structure Extends (v w : World) : Prop where
  size_le : w.size ≤ v.size
  id_eq : ∀ i < w.size, (v.location i).id = (w.location i).id
  key_eq : ∀ i < w.size, (v.location i).key = (w.location i).key
  name_eq : ∀ i < w.size, (v.location i).name = (w.location i).name
  description_eq : ∀ i < w.size, (v.location i).description = (w.location i).description
  parent_eq : ∀ i < w.size, (v.location i).parent = (w.location i).parent
  exits_prefix : ∀ i < w.size, (w.location i).exits <+: (v.location i).exits

variable {w v u : World} {i j p : LocationId} {name : String}

theorem mem_children : j ∈ w.children i ↔ j < w.size ∧ (w.location j).parent = some i := by
  simp [children]

/-! ## Growth -/

namespace Extends

theorem refl (w : World) : w.Extends w :=
  ⟨Nat.le_refl _, fun _ _ => rfl, fun _ _ => rfl, fun _ _ => rfl, fun _ _ => rfl, fun _ _ => rfl,
    fun _ _ => List.prefix_rfl⟩

theorem trans (hv : u.Extends v) (hw : v.Extends w) : u.Extends w where
  size_le := Nat.le_trans hw.size_le hv.size_le
  id_eq i hi := (hv.id_eq i (Nat.lt_of_lt_of_le hi hw.size_le)).trans (hw.id_eq i hi)
  key_eq i hi := (hv.key_eq i (Nat.lt_of_lt_of_le hi hw.size_le)).trans (hw.key_eq i hi)
  name_eq i hi := (hv.name_eq i (Nat.lt_of_lt_of_le hi hw.size_le)).trans (hw.name_eq i hi)
  description_eq i hi :=
    (hv.description_eq i (Nat.lt_of_lt_of_le hi hw.size_le)).trans (hw.description_eq i hi)
  parent_eq i hi := (hv.parent_eq i (Nat.lt_of_lt_of_le hi hw.size_le)).trans (hw.parent_eq i hi)
  exits_prefix i hi :=
    (hw.exits_prefix i hi).trans (hv.exits_prefix i (Nat.lt_of_lt_of_le hi hw.size_le))

theorem of_directories_eq (h : v.directories = w.directories) : v.Extends w where
  size_le := Nat.le_of_eq (size_congr h).symm
  id_eq i _ := id_congr h i
  key_eq i _ := key_congr h i
  name_eq i _ := name_congr h i
  description_eq i _ := description_congr h i
  parent_eq i _ := parent_congr h i
  exits_prefix i _ := exits_congr h i ▸ List.prefix_rfl

end Extends

/-! ## What the graph says about the ways through the world -/

namespace Graph

theorem lt_of_parent (hw : w.Graph) (hj : j < w.size) (h : (w.location j).parent = some i) :
    i < j := by
  have hne : j ≠ LocationId.home := by
    rintro rfl
    rw [hw.parent_home] at h
    exact absurd h (by simp)
  obtain ⟨p, hp, hparent⟩ := hw.parent_lt j hj hne
  rw [h] at hparent
  cases hparent
  exact hp

theorem parentOf_eq (hw : w.Graph) (hi : i < w.size) : w.parentOf i = (w.location i).parent := by
  rw [parentOf]
  split
  · next h =>
    subst h
    exact hw.parent_home.symm
  · next h =>
    obtain ⟨p, -, hp⟩ := hw.parent_lt i hi h
    rw [hp]

theorem mem_exits (hw : w.Graph) (hi : i < w.size) :
    j ∈ (w.location i).exits ↔
      (w.location i).parent = some j ∨ (j < w.size ∧ (w.location j).parent = some i) := by
  rw [hw.exits_eq i hi, List.mem_append, mem_children, Option.mem_toList]

theorem lt_size_of_parent (hw : w.Graph) (hi : i < w.size) (h : (w.location i).parent = some p) :
    p < w.size :=
  Nat.lt_trans (hw.lt_of_parent hi h) hi

theorem lt_size_of_mem_exits (hw : w.Graph) (hi : i < w.size) (h : j ∈ (w.location i).exits) :
    j < w.size := by
  rcases (hw.mem_exits hi).1 h with hp | ⟨hj, -⟩
  · exact hw.lt_size_of_parent hi hp
  · exact hj

/-- No exit is listed twice: the way up comes before the directory, and every way down after it. -/
theorem exits_nodup (hw : w.Graph) (hi : i < w.size) : (w.location i).exits.Nodup := by
  rw [hw.exits_eq i hi, List.nodup_append]
  refine ⟨?_, List.nodup_range.filter _, ?_⟩
  · cases (w.location i).parent with
    | none => exact List.nodup_nil
    | some p => exact List.nodup_singleton p
  · intro a ha b hb hab
    subst hab
    obtain ⟨hlt, hparent⟩ := mem_children.1 hb
    have hup := hw.lt_of_parent hi (Option.mem_toList.1 ha)
    have hdown := hw.lt_of_parent hlt hparent
    exact Nat.lt_asymm hup hdown

theorem eq_of_key_eq (hw : w.Graph) (hi : i < w.size) (hj : j < w.size)
    (h : (w.location i).key = (w.location j).key) : i = j := by
  have hl := List.inj_on_of_nodup_map hw.keys_nodup (location_mem hi) (location_mem hj) h
  rw [← hw.id_eq i hi, hl, hw.id_eq j hj]

theorem findKey_key (hw : w.Graph) (hi : i < w.size) : w.findKey (w.location i).key = some i := by
  rw [findKey]
  cases hfound : w.locations.find? fun l => l.key == (w.location i).key with
  | none =>
      have hno := List.find?_eq_none.1 hfound _ (location_mem hi)
      simp at hno
  | some l =>
      obtain ⟨j, hj, rfl⟩ := exists_location_eq (List.mem_of_find?_eq_some hfound)
      have hkey := List.find?_some hfound
      rw [hw.eq_of_key_eq hj hi (by simpa using hkey), Option.map_some, hw.id_eq i hi]

theorem of_directories_eq (hw : w.Graph) (h : v.directories = w.directories) : v.Graph where
  home_lt := by
    rw [size_congr h]
    exact hw.home_lt
  id_eq i hi := by
    rw [size_congr h] at hi
    rw [id_congr h]
    exact hw.id_eq i hi
  parent_home := by
    rw [parent_congr h]
    exact hw.parent_home
  parent_lt i hi hne := by
    rw [size_congr h] at hi
    rw [parent_congr h]
    exact hw.parent_lt i hi hne
  exits_eq i hi := by
    rw [size_congr h] at hi
    rw [exits_congr h, parent_congr h, hw.exits_eq i hi]
    simp only [children, size_congr h, parent_congr h]
  keys_nodup := by
    rw [keys_congr h]
    exact hw.keys_nodup

end Graph

end ShellQuest.World
