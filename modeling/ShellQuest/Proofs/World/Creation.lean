/-
# Making directories

A new directory takes the next number, and its key is free: of the numbered forms of a key, which
all differ, one more is tried than there are directories.  So the graph is kept, and nothing is
lost but that the directory above gains one exit at its end.
-/
import ShellQuest.Proofs.World.Graph
import ShellQuest.World.Edit
import Mathlib.Data.List.Perm.Subperm
import Mathlib.Data.Nat.Find

namespace ShellQuest.World

variable {w : World} {i parent : LocationId} {key name description : String}

/-! ## Free keys -/

theorem findKey_eq_none : w.findKey key = none ↔ key ∉ w.locations.map Location.key := by
  rw [findKey, Option.map_eq_none_iff, List.find?_eq_none]
  simp only [List.mem_map, not_exists, not_and, beq_iff_eq]

theorem numberedKey_injective (base : String) : Function.Injective (numberedKey base) := by
  have hplain : ∀ n, numberedKey base 0 ≠ numberedKey base (n + 1) := by
    intro n h
    have hl := congrArg String.length h
    simp only [numberedKey, String.length_append, toString] at hl
    have hpos : 0 < (Nat.repr (n + 2)).length := Nat.length_repr_pos
    omega
  intro m n h
  cases m with
  | zero =>
      cases n with
      | zero => rfl
      | succ n => exact absurd h (hplain n)
  | succ m =>
      cases n with
      | zero => exact absurd h.symm (hplain m)
      | succ n =>
          have hr : Nat.repr (m + 2) = Nat.repr (n + 2) := (String.append_right_inj base).1 h
          have hd : Nat.toDigits 10 (m + 2) = Nat.toDigits 10 (n + 2) := by
            rw [← Nat.toList_repr, hr, Nat.toList_repr]
          have hmn := congrArg (Nat.ofDigitChars 10 · 0) hd
          simpa using hmn

/-- The keys that are tried for a directory `name` below `parent`, one after the other: the name itself,
and then the numbered forms of the parent's key, an underscore and the name. -/
def keyForm (w : World) (parent : LocationId) (name : String) : Nat → String
  | 0 => name
  | n + 1 => numberedKey ((w.location parent).key ++ "_" ++ name) n

theorem keyForm_injective (w : World) (parent : LocationId) (name : String) :
    Function.Injective (w.keyForm parent name) := by
  -- a numbered form is longer than the name that it ends with
  have hname : ∀ n, w.keyForm parent name 0 ≠ w.keyForm parent name (n + 1) := by
    intro n h
    have hl := congrArg String.length h
    have hline : "_".length = 1 := rfl
    cases n with
    | zero =>
        simp only [keyForm, numberedKey, String.length_append] at hl
        omega
    | succ n =>
        simp only [keyForm, numberedKey, String.length_append] at hl
        omega
  intro m n h
  cases m with
  | zero =>
      cases n with
      | zero => rfl
      | succ n => exact absurd h (hname n)
  | succ m =>
      cases n with
      | zero => exact absurd h.symm (hname m)
      | succ n => exact congrArg Nat.succ (numberedKey_injective _ h)

/-- There are not enough directories to take all of the forms: among the first `w.size + 1`, which all
differ, one is free. -/
theorem exists_free_form (w : World) {form : Nat → String} (hform : Function.Injective form) :
    ∃ n ≤ w.size, w.findKey (form n) = none := by
  by_contra hall
  have hsub : (List.range (w.size + 1)).map form ⊆ w.locations.map Location.key := by
    intro key hkey
    obtain ⟨n, hn, rfl⟩ := List.mem_map.1 hkey
    by_contra hfree
    exact hall ⟨n, Nat.le_of_lt_succ (List.mem_range.1 hn), findKey_eq_none.2 hfree⟩
  have hnodup : ((List.range (w.size + 1)).map form).Nodup := List.nodup_range.map hform
  have hle := (List.subperm_of_subset hnodup hsub).length_le
  simp only [List.length_map, List.length_range] at hle
  exact absurd hle (Nat.not_succ_le_self _)

theorem uniqueKey_eq_keyForm {n : Nat} (hn : n ≤ w.size)
    (htaken : ∀ m < n, w.findKey (w.keyForm parent name m) ≠ none)
    (hfree : w.findKey (w.keyForm parent name n) = none) :
    w.uniqueKey parent name = w.keyForm parent name n := by
  cases n with
  | zero => exact if_pos (Option.isNone_iff_eq_none.2 hfree)
  | succ n =>
      have hname : ¬ (w.findKey name).isNone = true := by
        intro h
        exact htaken 0 (Nat.succ_pos n) (Option.isNone_iff_eq_none.1 h)
      have hfound : (List.range (w.size + 1)).find?
          (fun m => (w.findKey (w.keyForm parent name (m + 1))).isNone) = some n := by
        rw [List.find?_range_eq_some]
        refine ⟨Option.isNone_iff_eq_none.2 hfree, List.mem_range.2 (Nat.lt_succ_of_lt hn), ?_⟩
        intro m hm
        have hno := htaken (m + 1) (Nat.succ_lt_succ hm)
        simpa [Option.isNone_iff_eq_none, Option.isSome_iff_ne_none] using hno
      rw [uniqueKey, if_neg hname]
      dsimp only
      rw [List.find?_map]
      show (((List.range (w.size + 1)).find?
        fun m => (w.findKey (w.keyForm parent name (m + 1))).isNone).map _).getD _ = _
      rw [hfound]
      rfl

theorem exists_uniqueKey_eq (w : World) (parent : LocationId) (name : String) :
    ∃ n ≤ w.size, w.uniqueKey parent name = w.keyForm parent name n ∧
      (∀ m < n, w.findKey (w.keyForm parent name m) ≠ none) ∧
      w.findKey (w.keyForm parent name n) = none := by
  obtain ⟨bound, hbound, hfree⟩ := exists_free_form w (w.keyForm_injective parent name)
  have hexists : ∃ n, w.findKey (w.keyForm parent name n) = none := ⟨bound, hfree⟩
  have hle : Nat.find hexists ≤ w.size := Nat.le_trans (Nat.find_le hfree) hbound
  have htaken : ∀ m < Nat.find hexists, w.findKey (w.keyForm parent name m) ≠ none :=
    fun m hm => Nat.find_min hexists hm
  exact ⟨Nat.find hexists, hle, uniqueKey_eq_keyForm hle htaken (Nat.find_spec hexists), htaken,
    Nat.find_spec hexists⟩

theorem findKey_uniqueKey (w : World) (parent : LocationId) (name : String) :
    w.findKey (w.uniqueKey parent name) = none := by
  obtain ⟨n, -, hkey, -, hfree⟩ := exists_uniqueKey_eq w parent name
  rw [hkey]
  exact hfree

/-! ## The table with one more directory -/

@[simp] theorem size_insertLocation :
    (w.insertLocation key name description parent).size = w.size + 1 := by
  rw [insertLocation, size_modifyLocation]
  simp [size]

theorem location_insertLocation_self (hp : parent < w.size) :
    (w.insertLocation key name description parent).location w.size =
      { id := w.size, key, name, description, items := [], exits := [parent],
        parent := some parent } := by
  rw [insertLocation, location_modifyLocation_of_ne _ (Nat.ne_of_gt hp)]
  simp [location, size]

/-- An earlier directory gains the new one as its last exit if it is the parent, and is otherwise
left alone. -/
theorem location_insertLocation (hi : i < w.size) :
    (w.insertLocation key name description parent).location i =
      { w.location i with
        exits := (w.location i).exits ++ if i = parent then [w.size] else [] } := by
  by_cases hip : i = parent
  · subst hip
    rw [insertLocation, location_modifyLocation_self]
    · simp [location, List.getElem?_append_left hi]
    · simpa [size] using Nat.lt_succ_of_lt hi
  · rw [insertLocation, location_modifyLocation_of_ne _ hip]
    simp [location, List.getElem?_append_left hi, hip]

theorem children_insertLocation (hp : parent < w.size) (i : LocationId) :
    (w.insertLocation key name description parent).children i =
      w.children i ++ if i = parent then [w.size] else [] := by
  rw [children, size_insertLocation, List.range_succ, List.filter_append, children]
  congr 1
  · apply List.filter_congr
    intro j hj
    rw [location_insertLocation (List.mem_range.1 hj)]
  · simp only [List.filter_cons, List.filter_nil, location_insertLocation_self hp, beq_iff_eq,
      Option.some.injEq, eq_comm (a := parent)]

theorem children_insertLocation_self (hw : w.Graph) (hp : parent < w.size) :
    (w.insertLocation key name description parent).children w.size = [] := by
  rw [children, List.filter_eq_nil_iff]
  intro j hj
  rw [size_insertLocation, List.mem_range] at hj
  rcases Nat.lt_succ_iff_lt_or_eq.1 hj with hj | rfl
  · rw [location_insertLocation hj]
    intro h
    exact absurd (hw.lt_of_parent hj (by simpa using h)) (Nat.lt_asymm hj)
  · rw [location_insertLocation_self hp]
    simpa using Nat.ne_of_lt hp

theorem keys_insertLocation :
    (w.insertLocation key name description parent).locations.map Location.key =
      w.locations.map Location.key ++ [key] := by
  rw [insertLocation, map_modifyLocation]
  · simp
  · intro l
    rfl

theorem graph_insertLocation (hw : w.Graph) (hp : parent < w.size) (hkey : w.findKey key = none) :
    (w.insertLocation key name description parent).Graph where
  home_lt := by
    rw [size_insertLocation]
    exact Nat.lt_succ_of_lt hw.home_lt
  id_eq i hi := by
    rw [size_insertLocation] at hi
    rcases Nat.lt_succ_iff_lt_or_eq.1 hi with hi | rfl
    · rw [location_insertLocation hi]
      exact hw.id_eq i hi
    · rw [location_insertLocation_self hp]
  parent_home := by
    rw [location_insertLocation hw.home_lt]
    exact hw.parent_home
  parent_lt i hi hne := by
    rw [size_insertLocation] at hi
    rcases Nat.lt_succ_iff_lt_or_eq.1 hi with hi | rfl
    · rw [location_insertLocation hi]
      exact hw.parent_lt i hi hne
    · rw [location_insertLocation_self hp]
      exact ⟨parent, hp, rfl⟩
  exits_eq i hi := by
    rw [size_insertLocation] at hi
    rcases Nat.lt_succ_iff_lt_or_eq.1 hi with hi | rfl
    · rw [location_insertLocation hi, children_insertLocation hp i, hw.exits_eq i hi,
        List.append_assoc]
    · rw [location_insertLocation_self hp, children_insertLocation_self hw hp]
      rfl
  keys_nodup := by
    rw [keys_insertLocation, List.nodup_append]
    refine ⟨hw.keys_nodup, List.nodup_singleton key, ?_⟩
    intro a ha b hb hab
    rw [List.mem_singleton.1 hb] at hab
    exact findKey_eq_none.1 hkey (hab ▸ ha)

theorem extends_insertLocation (w : World) (key name description : String) (parent : LocationId) :
    (w.insertLocation key name description parent).Extends w where
  size_le := by
    rw [size_insertLocation]
    exact Nat.le_succ _
  id_eq i hi := by rw [location_insertLocation hi]
  key_eq i hi := by rw [location_insertLocation hi]
  name_eq i hi := by rw [location_insertLocation hi]
  description_eq i hi := by rw [location_insertLocation hi]
  parent_eq i hi := by rw [location_insertLocation hi]
  exits_prefix i hi := by
    rw [location_insertLocation hi]
    exact List.prefix_append _ _

/-! ## Making a directory and extracting the archive -/

theorem graph_createDirectory (hw : w.Graph) (hp : parent < w.size) :
    (w.createDirectory parent name description).1.Graph :=
  graph_insertLocation hw hp (findKey_uniqueKey w parent name)

theorem extends_createDirectory (w : World) (parent : LocationId) (name description : String) :
    (w.createDirectory parent name description).1.Extends w :=
  extends_insertLocation _ _ _ _ _

theorem size_createDirectory (w : World) (parent : LocationId) (name description : String) :
    (w.createDirectory parent name description).1.size = w.size + 1 :=
  size_insertLocation

theorem items_createDirectory (hp : parent < w.size) :
    ((w.createDirectory parent name description).1.location i).items = (w.location i).items := by
  simp only [createDirectory]
  rcases Nat.lt_trichotomy i w.size with hi | rfl | hi
  · rw [location_insertLocation hi]
  · rw [location_insertLocation_self hp, location_of_size_le (Nat.le_refl _)]
    rfl
  · rw [location_of_size_le (Nat.le_of_lt hi), location_of_size_le]
    rw [size_insertLocation]
    exact hi

end ShellQuest.World
