/-
# Ways down

In the tree of directories a way down is a list of directories, each right below the one before it.
The ways up lead towards smaller numbers, so from home there is one way down to each directory, its
lineage, and how deep a directory lies is the length of that.  A way down from anywhere is what it adds
to the lineage of where it starts (`lineage_getLastD`): this says at once that there is no other way down
to the same end, and that each step of it leads one deeper.
-/
import ShellQuest.Proofs.World.Named
import Mathlib.Data.List.Chain

namespace ShellQuest.World

variable {w : World} {i j p top : LocationId} {way other rest : List LocationId}

/-- The list is a way down from `top`: each directory of it lies right below the one before. -/
def Descends (w : World) (top : LocationId) (way : List LocationId) : Prop :=
  List.IsChain (fun above below => w.parentOf below = some above) (top :: way)

/-- No directory of the way has the name of a file in the directory above it. -/
def Open (w : World) (way : List LocationId) : Prop :=
  ∀ i ∈ way, ∀ p ∈ w.parentOf i, (w.location i).name ∉ (w.location p).items

instance (w : World) (way : List LocationId) : Decidable (w.Open way) := List.decidableBAll _ way

/-- The way down from home to `i`.  The directory above has a smaller number in every tree, so it is
never passed over. -/
def lineage (w : World) (i : LocationId) : List LocationId :=
  match w.parentOf i with
  | none => []
  | some p => if p < i then w.lineage p ++ [i] else []
termination_by i

/-- How many steps down a directory lies from home. -/
def depth (w : World) (i : LocationId) : Nat := (w.lineage i).length

/-! ## Ways put together -/

theorem descends_nil (w : World) (top : LocationId) : w.Descends top [] := List.isChain_singleton top

theorem descends_cons : w.Descends top (i :: way) ↔ w.parentOf i = some top ∧ w.Descends i way :=
  List.isChain_cons_cons

theorem descends_singleton : w.Descends top [i] ↔ w.parentOf i = some top :=
  descends_cons.trans (and_iff_left (descends_nil w i))

theorem descends_append :
    w.Descends top (way ++ rest) ↔ w.Descends top way ∧ w.Descends (way.getLastD top) rest := by
  induction way generalizing top with
  | nil => exact (and_iff_right (descends_nil w top)).symm
  | cons i way ih =>
      rw [List.cons_append, descends_cons, descends_cons, ih, and_assoc, List.getLastD_cons]

theorem getLastD_append (way rest : List LocationId) (top : LocationId) :
    (way ++ rest).getLastD top = rest.getLastD (way.getLastD top) := by
  induction way generalizing top with
  | nil => rfl
  | cons i way ih => rw [List.cons_append, List.getLastD_cons, List.getLastD_cons, ih]

theorem open_cons (h : w.parentOf i = some top) :
    w.Open (i :: way) ↔ (w.location i).name ∉ (w.location top).items ∧ w.Open way := by
  rw [Open, List.forall_mem_cons, h]
  simp only [Option.mem_some, forall_eq']
  rfl

/-! ## The directory above -/

namespace Graph

theorem parentOf_eq_some (hw : w.Graph) :
    w.parentOf i = some p ↔ i < w.size ∧ (w.location i).parent = some p := by
  rcases Nat.lt_or_ge i w.size with hi | hi
  · rw [hw.parentOf_eq hi]
    exact ⟨fun h => ⟨hi, h⟩, fun h => h.2⟩
  · refine iff_of_false ?_ fun h => absurd h.1 (Nat.not_lt.2 hi)
    -- outside the table nothing is recorded, and no exit leads there
    have hnone : w.locations.find? (fun l => l.id != i && l.exits.contains i) = none := by
      rw [List.find?_eq_none]
      intro l hl hfound
      obtain ⟨k, hk, rfl⟩ := exists_location_eq hl
      simp only [Bool.and_eq_true, List.contains_iff_mem] at hfound
      exact absurd (hw.lt_size_of_mem_exits hk hfound.2) (Nat.not_lt.2 hi)
    rw [parentOf, location_of_size_le hi, hnone]
    intro h
    split at h
    · cases h
    · cases h

theorem parentOf_home (hw : w.Graph) : w.parentOf LocationId.home = none := by
  rw [hw.parentOf_eq hw.home_lt, hw.parent_home]

theorem lt_of_parentOf (hw : w.Graph) (h : w.parentOf i = some p) : p < i := by
  obtain ⟨hi, hp⟩ := hw.parentOf_eq_some.1 h
  exact hw.lt_of_parent hi hp

/-- What lies above a directory does not lie right below it too. -/
theorem parentOf_asymm (hw : w.Graph) (h : w.parentOf i = some p) : w.parentOf p ≠ some i :=
  fun hback => Nat.lt_asymm (hw.lt_of_parentOf h) (hw.lt_of_parentOf hback)

theorem lt_size_of_parentOf (hw : w.Graph) (h : w.parentOf i = some p) : i < w.size :=
  (hw.parentOf_eq_some.1 h).1

theorem exists_parentOf (hw : w.Graph) (hi : i < w.size) (hne : i ≠ LocationId.home) :
    ∃ p < i, w.parentOf i = some p := by
  obtain ⟨p, hlt, hp⟩ := hw.parent_lt i hi hne
  exact ⟨p, hlt, hw.parentOf_eq_some.2 ⟨hi, hp⟩⟩

theorem mem_exits_iff (hw : w.Graph) (hi : i < w.size) :
    j ∈ (w.location i).exits ↔ w.parentOf i = some j ∨ w.parentOf j = some i := by
  rw [hw.mem_exits hi, hw.parentOf_eq hi, hw.parentOf_eq_some]

/-! ## The lineage -/

theorem lineage_home (hw : w.Graph) : w.lineage LocationId.home = [] := by
  rw [lineage, hw.parentOf_home]

theorem lineage_of_parentOf (hw : w.Graph) (h : w.parentOf i = some p) :
    w.lineage i = w.lineage p ++ [i] := by
  rw [lineage, h]
  exact if_pos (hw.lt_of_parentOf h)

theorem descends_lineage (hw : w.Graph) (hi : i < w.size) :
    w.Descends LocationId.home (w.lineage i) ∧ (w.lineage i).getLastD LocationId.home = i := by
  induction i using Nat.strong_induction_on with
  | _ i ih =>
      by_cases hhome : i = LocationId.home
      · subst hhome
        rw [hw.lineage_home]
        exact ⟨descends_nil w _, rfl⟩
      · obtain ⟨p, hlt, hp⟩ := hw.exists_parentOf hi hhome
        obtain ⟨hway, hlast⟩ := ih p hlt (Nat.lt_trans hlt hi)
        rw [hw.lineage_of_parentOf hp]
        refine ⟨descends_append.2 ⟨hway, ?_⟩, List.getLastD_concat⟩
        rw [hlast]
        exact descends_singleton.2 hp

end Graph

/-! ## Ways down from anywhere -/

namespace Descends

/-- A way down continues the lineage of where it starts. -/
theorem lineage_getLastD (h : w.Descends top way) (hw : w.Graph) :
    w.lineage (way.getLastD top) = w.lineage top ++ way := by
  induction way generalizing top with
  | nil => exact (List.append_nil _).symm
  | cons i way ih =>
      obtain ⟨hi, hway⟩ := descends_cons.1 h
      rw [List.getLastD_cons, ih hway, hw.lineage_of_parentOf hi, List.append_assoc,
        List.singleton_append]

theorem eq_lineage (h : w.Descends LocationId.home way) (hw : w.Graph) :
    way = w.lineage (way.getLastD LocationId.home) := by
  rw [h.lineage_getLastD hw, hw.lineage_home, List.nil_append]

theorem depth_getLastD (h : w.Descends top way) (hw : w.Graph) :
    w.depth (way.getLastD top) = w.depth top + way.length := by
  rw [depth, h.lineage_getLastD hw, List.length_append, depth]

theorem take_drop (h : w.Descends top way) (n : Nat) :
    w.Descends top (way.take n) ∧ w.Descends ((way.take n).getLastD top) (way.drop n) := by
  rw [← descends_append, List.take_append_drop]
  exact h

theorem lt_size (h : w.Descends top way) (hw : w.Graph) : ∀ i ∈ way, i < w.size := by
  induction way generalizing top with
  | nil => nofun
  | cons i way ih =>
      obtain ⟨hi, hway⟩ := descends_cons.1 h
      exact List.forall_mem_cons.2 ⟨hw.lt_size_of_parentOf hi, ih hway⟩

theorem eq_of_map_name (h : w.Descends top way) (hother : w.Descends top other) (hw : w.Graph)
    (hsigns : w.Signposted)
    (hnames : way.map (fun i => (w.location i).name) = other.map fun i => (w.location i).name) :
    way = other := by
  induction way generalizing top other with
  | nil => exact (List.map_eq_nil_iff.1 hnames.symm).symm
  | cons i way ih =>
      obtain ⟨j, rest, rfl, hname, hrest⟩ := List.map_eq_cons_iff.1 hnames.symm
      obtain ⟨hi, hway⟩ := descends_cons.1 h
      obtain ⟨hj, hothers⟩ := descends_cons.1 hother
      have htop : top < w.size := Nat.lt_trans (hw.lt_of_parentOf hi) (hw.lt_size_of_parentOf hi)
      have hij : i = j := List.inj_on_of_nodup_map (hsigns top htop)
        ((hw.mem_exits_iff htop).2 (.inr hi)) ((hw.mem_exits_iff htop).2 (.inr hj)) hname.symm
      subst hij
      rw [ih hway hothers hrest.symm]

end Descends

end ShellQuest.World
