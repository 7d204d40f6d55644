/-
# The closest verb

The verb that is suggested for a word is found in one pass, which holds on to the best candidate so far
and gives it up only for one that is strictly closer in length.  `Leads` says what this comes to after any
part of the pass: the held one is closer than all before it and not farther than all after it.  So at the
end it is the closest verb of those that hold half of the word, and the earliest where several are
(`Closest`), which is one verb at most.  That a suggestion differs from the word needs no check, since the
word is no verb.
-/
import ShellQuest.Command.Error
import Mathlib.Data.List.Basic

namespace ShellQuest.Suggestion

variable {word name other candidate : String} {held : Option String} {done candidates : List String}

/-- The names of the verbs, in the order in which help lists them. -/
def names : List String := Verb.known.map Verb.name

/-- At least half of the characters of `word` occur in `name`, each counted as often as it stands in the
word. -/
def HoldsHalf (word name : String) : Prop :=
  word.length ≤ 2 * (word.toList.filter fun c => c ∈ name.toList).length

instance (word name : String) : Decidable (HoldsHalf word name) := inferInstanceAs (Decidable (_ ≤ _))

/-- How far the length of `name` is from that of `word`. -/
def gap (word name : String) : Nat := ((name.length : Int) - (word.length : Int)).natAbs

/-- Of the verbs that hold half of the word, `name` is the closest in length, and the earliest of the
closest ones. -/
def Closest (word name : String) : Prop :=
  HoldsHalf word name ∧ ∃ earlier later, names = earlier ++ name :: later ∧
    (∀ other ∈ earlier, HoldsHalf word other → gap word name < gap word other) ∧
    (∀ other ∈ later, HoldsHalf word other → gap word name ≤ gap word other)

/-- No verb is suggested for the word: it is too short, or no verb holds half of it. -/
def Hopeless (word : String) : Prop := word.length = 1 ∨ ∀ name ∈ names, ¬ HoldsHalf word name

theorem qualifies_iff : qualifies word name = true ↔ HoldsHalf word name := by
  rw [qualifies, HoldsHalf, decide_eq_true_iff, List.countP_eq_length_filter]
  simp only [List.contains_eq_mem]

theorem distance_eq (word name : String) : distance name.length word.length = gap word name := by
  rw [distance, gap]
  omega

/-! ## The pass -/

/-- What is held after the candidates: nothing if there was none, and else the earliest of the closest. -/
def Leads (word : String) (candidates : List String) : Option String → Prop
  | none => candidates = []
  | some name => ∃ earlier later, candidates = earlier ++ name :: later ∧
      (∀ other ∈ earlier, gap word name < gap word other) ∧
      ∀ other ∈ later, gap word name ≤ gap word other

/-- One more candidate is held if it is closer than the one before, and passed over if not. -/
theorem leads_closer (h : Leads word done held) (candidate : String) :
    Leads word (done ++ [candidate]) (closer word held candidate) := by
  cases held with
  | none =>
      have hdone : done = [] := h
      rw [hdone]
      exact ⟨[], [], rfl, List.forall_mem_nil _, List.forall_mem_nil _⟩
  | some name =>
      obtain ⟨earlier, later, rfl, hearlier, hlater⟩ := h
      simp only [closer, distance_eq]
      split
      · next hcloser =>
        refine ⟨earlier ++ name :: later, [], rfl, ?_, List.forall_mem_nil _⟩
        rw [List.forall_mem_append, List.forall_mem_cons]
        refine ⟨fun other hother => ?_, hcloser, fun other hother => ?_⟩
        · exact Nat.lt_trans hcloser (hearlier other hother)
        · exact Nat.lt_of_lt_of_le hcloser (hlater other hother)
      · next hno =>
        refine ⟨earlier, later ++ [candidate], by simp, hearlier, ?_⟩
        rw [List.forall_mem_append, List.forall_mem_singleton]
        exact ⟨hlater, Nat.le_of_not_lt hno⟩

/-- By induction over the candidates that are left. -/
theorem leads_foldl (h : Leads word done held) (candidates : List String) :
    Leads word (done ++ candidates) (candidates.foldl (closer word) held) := by
  induction candidates generalizing done held with
  | nil =>
      rw [List.append_nil]
      exact h
  | cons candidate candidates ih =>
      have hnext := ih (leads_closer h candidate)
      rw [List.append_assoc] at hnext
      exact hnext

/-! ## The verb that is found -/

theorem Closest.mem_names (h : Closest word name) : name ∈ names := by
  obtain ⟨-, earlier, later, hnames, -⟩ := h
  rw [hnames]
  exact List.mem_append_right earlier List.mem_cons_self

/-- Either no verb holds half of the word, or the closest one is found. -/
theorem best_cases (word : String) :
    (best word = none ∧ ∀ name ∈ names, ¬ HoldsHalf word name) ∨
      ∃ name, best word = some name ∧ Closest word name := by
  have hstart : Leads word [] none := rfl
  have hleads : Leads word (names.filter (qualifies word)) (best word) :=
    leads_foldl hstart (names.filter (qualifies word))
  cases hbest : best word with
  | none =>
      rw [hbest] at hleads
      refine .inl ⟨rfl, fun name hname hhalf => ?_⟩
      exact List.filter_eq_nil_iff.1 hleads name hname (qualifies_iff.2 hhalf)
  | some name =>
      rw [hbest] at hleads
      obtain ⟨before, after, hcandidates, hbefore, hafter⟩ := hleads
      -- the candidates before and after it are those among the names before and after it
      obtain ⟨first, second, hnames, rfl, hsecond⟩ := List.filter_eq_append_iff.1 hcandidates
      obtain ⟨skipped, later, rfl, hskipped, hname, rfl⟩ := List.filter_eq_cons_iff.1 hsecond
      refine .inr ⟨name, rfl, qualifies_iff.1 hname, first ++ skipped, later, ?_, ?_, ?_⟩
      · rw [hnames, List.append_assoc]
      · intro other hother hhalf
        rcases List.mem_append.1 hother with hother | hother
        · exact hbefore other (List.mem_filter.2 ⟨hother, qualifies_iff.2 hhalf⟩)
        · exact absurd (qualifies_iff.2 hhalf) (hskipped other hother)
      · intro other hother hhalf
        exact hafter other (List.mem_filter.2 ⟨hother, qualifies_iff.2 hhalf⟩)

theorem mem_of_best (h : best word = some name) : name ∈ names := by
  rcases best_cases word with ⟨hbest, -⟩ | ⟨closest, hbest, hclosest⟩
  · rw [hbest] at h
    cases h
  · rw [hbest] at h
    cases h
    exact hclosest.mem_names

theorem Closest.gap_le (h : Closest word name) (hother : other ∈ names) (hhalf : HoldsHalf word other) :
    gap word name ≤ gap word other := by
  obtain ⟨-, earlier, later, hnames, hearlier, hlater⟩ := h
  rw [hnames, List.mem_append, List.mem_cons] at hother
  rcases hother with hother | rfl | hother
  · exact Nat.le_of_lt (hearlier other hother hhalf)
  · exact Nat.le_refl _
  · exact hlater other hother hhalf

theorem Closest.eq (h : Closest word name) (h' : Closest word other) : other = name := by
  have hle := h.gap_le h'.mem_names h'.1
  have hge := h'.gap_le h.mem_names h.1
  obtain ⟨hhalf, earlier, later, hnames, hearlier, -⟩ := h
  obtain ⟨hhalf', earlier', later', hnames', hearlier', -⟩ := h'
  rw [hnames'] at hnames
  -- whichever comes first is closer than the other, unless they are the same
  rcases List.append_eq_append_iff.1 hnames with ⟨between, rfl, hrest⟩ | ⟨between, rfl, hrest⟩
  · cases between with
    | nil => exact (List.cons.inj hrest).1
    | cons first between =>
        obtain ⟨rfl, -⟩ := List.cons.inj hrest
        have hlt := hearlier other (List.mem_append_right _ List.mem_cons_self) hhalf'
        exact absurd hge (Nat.not_le_of_lt hlt)
  · cases between with
    | nil => exact (List.cons.inj hrest).1.symm
    | cons first between =>
        obtain ⟨rfl, -⟩ := List.cons.inj hrest
        have hlt := hearlier' name (List.mem_append_right _ List.mem_cons_self) hhalf
        exact absurd hle (Nat.not_le_of_lt hlt)

theorem answer_cases (hword : word ∉ names) (hne : word ≠ "") :
    (Hopeless word ∧ answer word = .unknown) ∨
      (¬ Hopeless word ∧
        ∃ name, Closest word name ∧ answer word = .unknownWithSuggestion word name) := by
  have hpos : word.length ≠ 0 := by
    rw [ne_eq, String.length_eq_zero_iff]
    exact hne
  rcases best_cases word with ⟨hbest, hnone⟩ | ⟨name, hbest, hclosest⟩
  · refine .inl ⟨.inr hnone, ?_⟩
    rw [answer, hbest]
  · have hdiffers : name ≠ word := by
      rintro rfl
      exact hword hclosest.mem_names
    by_cases hlong : 1 < word.length
    · refine .inr ⟨?_, name, hclosest, ?_⟩
      · rintro (hshort | hnone)
        · omega
        · exact hnone name hclosest.mem_names hclosest.1
      · rw [answer, hbest]
        exact if_pos ⟨hdiffers, hlong⟩
    · refine .inl ⟨.inl (by omega), ?_⟩
      rw [answer, hbest]
      exact if_neg fun h => hlong h.2

end ShellQuest.Suggestion
