/-
# What stripping leaves

Stripping reads a text once, from the left, and drops each escape sequence that it comes to: `Strips s r`
says so by the parts of the text, without a scanner.  Nothing is read twice, so what is left may hold what
was dropped.  Where an escape character is parted from a bracket by whole sequences only, these go and the
two come together (`Rejoins`), and this is the only way in which the start of a sequence can be left
(`strip_leaves_iff`).  Then a second stripping would change the text again, and otherwise it would not.
-/
import ShellQuest.Markup
import Mathlib.Data.List.Infix

namespace ShellQuest.Markup

/-- What an escape sequence starts with. -/
def opener : List Char := ['\x1b', '[']

/-- A whole escape sequence: the opener and everything up to the next letter. -/
def IsSequence (q : List Char) : Prop :=
  ∃ body last, q = opener ++ (body ++ [last]) ∧
    (∀ c ∈ body, c.isAlpha = false) ∧ last.isAlpha = true

/-- `r` is left of `s` if each escape sequence is dropped that a reader comes to from the left, and at the
end one that has no letter. -/
inductive Strips : List Char → List Char → Prop
  | nil : Strips [] []
  | char {c : Char} {s r : List Char} : ¬ opener <+: c :: s → Strips s r → Strips (c :: s) (c :: r)
  | sequence {q s r : List Char} : IsSequence q → Strips s r → Strips (q ++ s) r
  | unfinished {s : List Char} : (∀ c ∈ s, c.isAlpha = false) → Strips (opener ++ s) []

/-- A text at whose end the reader is in no sequence. -/
inductive Closed : List Char → Prop
  | nil : Closed []
  | char {c : Char} {s : List Char} : ¬ opener <+: c :: s → Closed s → Closed (c :: s)
  | sequence {q s : List Char} : IsSequence q → Closed s → Closed (q ++ s)

/-- Somewhere an escape character that the reader leaves is parted from a bracket that it leaves by whole
sequences and nothing else. -/
def Rejoins (s : List Char) : Prop :=
  ∃ before between after, s = before ++ '\x1b' :: (List.flatten between ++ '[' :: after) ∧
    Closed before ∧ between ≠ [] ∧ ∀ q ∈ between, IsSequence q

variable {c : Char} {q s r : List Char} {between : List (List Char)}

/-! ## The reader -/

theorem not_opener_of_ne (h : c ≠ '\x1b') (s : List Char) : ¬ opener <+: c :: s := by
  intro hopener
  exact h (List.cons_prefix_cons.1 hopener).1.symm

theorem visible_opener (s : List Char) : visible (opener ++ s) = afterSequence s := by
  show visible ('\x1b' :: '[' :: s) = _
  rw [visible]

theorem visible_char (h : ¬ opener <+: c :: s) : visible (c :: s) = c :: visible s := by
  rw [visible]
  intro rest hc hs
  rw [hc, hs] at h
  exact h ⟨rest, rfl⟩

theorem visible_cons (h : c ≠ '\x1b') (s : List Char) : visible (c :: s) = c :: visible s :=
  visible_char (not_opener_of_ne h s)

theorem afterSequence_append {body : List Char} {last : Char} (hbody : ∀ c ∈ body, c.isAlpha = false)
    (hlast : last.isAlpha = true) (s : List Char) : afterSequence (body ++ last :: s) = visible s := by
  induction body with
  | nil => rw [List.nil_append, afterSequence, if_pos hlast]
  | cons c body ih =>
      obtain ⟨hc, hbody⟩ := List.forall_mem_cons.1 hbody
      rw [List.cons_append, afterSequence, if_neg (by rw [hc]; exact Bool.false_ne_true), ih hbody]

theorem afterSequence_of_no_letter (h : ∀ c ∈ s, c.isAlpha = false) : afterSequence s = [] := by
  induction s with
  | nil => rw [afterSequence]
  | cons c s ih =>
      obtain ⟨hc, hs⟩ := List.forall_mem_cons.1 h
      rw [afterSequence, if_neg (by rw [hc]; exact Bool.false_ne_true), ih hs]

theorem Strips.visible_eq (h : Strips s r) : visible s = r := by
  induction h with
  | nil => rw [visible]
  | char hopener _ ih => rw [visible_char hopener, ih]
  | @sequence q s r hq _ ih =>
      obtain ⟨body, last, rfl, hbody, hlast⟩ := hq
      have hparts : opener ++ (body ++ [last]) ++ s = opener ++ (body ++ last :: s) := by simp
      rw [hparts, visible_opener, afterSequence_append hbody hlast, ih]
  | unfinished hs => rw [visible_opener, afterSequence_of_no_letter hs]

/-- Every text can be read: it starts with no sequence, with a whole one, or with one that does not end. -/
theorem exists_strips (s : List Char) : ∃ r, Strips s r := by
  induction hlength : s.length using Nat.strongRecOn generalizing s with
  | ind length ih =>
      by_cases hopener : opener <+: s
      · obtain ⟨t, rfl⟩ := hopener
        cases hletter : t.find? Char.isAlpha with
        | none =>
            have hno := List.find?_eq_none.1 hletter
            exact ⟨[], .unfinished fun c hc => by simpa using hno c hc⟩
        | some last =>
            obtain ⟨hlast, body, rest, rfl, hbody⟩ := List.find?_eq_some_iff_append.1 hletter
            have hq : IsSequence (opener ++ (body ++ [last])) :=
              ⟨body, last, rfl, fun c hc => by simpa using hbody c hc, hlast⟩
            have hrest : rest.length < length := by
              rw [← hlength]
              simp only [List.length_append, List.length_cons]
              omega
            obtain ⟨r, hr⟩ := ih _ hrest rest rfl
            have hparts : opener ++ (body ++ last :: rest) = opener ++ (body ++ [last]) ++ rest := by simp
            rw [hparts]
            exact ⟨r, .sequence hq hr⟩
      · cases s with
        | nil => exact ⟨[], .nil⟩
        | cons c s =>
            have hs : s.length < length := by
              rw [← hlength]
              exact Nat.lt_succ_self _
            obtain ⟨r, hr⟩ := ih _ hs s rfl
            exact ⟨c :: r, .char hopener hr⟩

theorem strips_visible (s : List Char) : Strips s (visible s) := by
  obtain ⟨r, hr⟩ := exists_strips s
  rw [hr.visible_eq]
  exact hr

/-! ## A second stripping -/

theorem IsSequence.length_pos (hq : IsSequence q) : 0 < q.length := by
  obtain ⟨body, last, rfl, -⟩ := hq
  exact Nat.succ_pos _

theorem Strips.length_le (h : Strips s r) : r.length ≤ s.length := by
  induction h with
  | nil => exact Nat.le_refl _
  | char _ _ ih => exact Nat.succ_le_succ ih
  | sequence _ _ ih =>
      rw [List.length_append]
      exact Nat.le_add_left_of_le ih
  | unfinished => exact Nat.zero_le _

theorem Strips.length_lt (h : Strips s r) (hs : opener <:+: s) : r.length < s.length := by
  induction h with
  | nil => exact absurd hs (by decide)
  | char hopener _ ih =>
      rcases List.infix_cons_iff.1 hs with hstart | hs
      · exact absurd hstart hopener
      · exact Nat.succ_lt_succ (ih hs)
  | sequence hq h _ =>
      have hle := h.length_le
      have hpos := hq.length_pos
      rw [List.length_append]
      omega
  | unfinished => exact Nat.succ_pos _

theorem strips_self (h : ¬ opener <:+: s) : Strips s s := by
  induction s with
  | nil => exact .nil
  | cons c s ih =>
      rw [List.infix_cons_iff, not_or] at h
      exact .char h.1 (ih h.2)

/-- Stripping changes a text exactly if an opener stands in it. -/
theorem visible_eq_self_iff : visible s = s ↔ ¬ opener <:+: s := by
  constructor
  · intro h hs
    have hlt := (strips_visible s).length_lt hs
    rw [h] at hlt
    exact Nat.lt_irrefl _ hlt
  · intro h
    exact (strips_self h).visible_eq

/-! ## Openers that are left -/

theorem strips_flatten (hq : ∀ q ∈ between, IsSequence q) (h : Strips s r) :
    Strips (between.flatten ++ s) r := by
  induction between with
  | nil => exact h
  | cons q between ih =>
      obtain ⟨hfirst, hrest⟩ := List.forall_mem_cons.1 hq
      rw [List.flatten_cons, List.append_assoc]
      exact .sequence hfirst (ih hrest)

/-- What is left starts with a bracket only if the text does, or the sequences at its start are followed
by one. -/
theorem Strips.exists_between (h : Strips s ('[' :: r)) : ∃ between after,
    s = List.flatten between ++ '[' :: after ∧ ∀ q ∈ between, IsSequence q := by
  generalize hleft : '[' :: r = left at h
  induction h with
  | nil => cases hleft
  | @char c s r _ _ _ =>
      cases hleft
      exact ⟨[], s, rfl, List.forall_mem_nil _⟩
  | @sequence q s r hq _ ih =>
      obtain ⟨between, after, rfl, hbetween⟩ := ih hleft
      refine ⟨q :: between, after, ?_, List.forall_mem_cons.2 ⟨hq, hbetween⟩⟩
      rw [List.flatten_cons, List.append_assoc]
  | unfinished => cases hleft

theorem Rejoins.cons (h : Rejoins s) (hc : ¬ opener <+: c :: s) : Rejoins (c :: s) := by
  obtain ⟨before, between, after, rfl, hbefore, hbetween⟩ := h
  refine ⟨c :: before, between, after, rfl, .char ?_ hbefore, hbetween⟩
  intro hopener
  exact hc (hopener.trans (List.prefix_append (c :: before) _))

theorem Rejoins.append (h : Rejoins s) (hq : IsSequence q) : Rejoins (q ++ s) := by
  obtain ⟨before, between, after, rfl, hbefore, hbetween⟩ := h
  exact ⟨q ++ before, between, after, (List.append_assoc _ _ _).symm, .sequence hq hbefore, hbetween⟩

/-- By induction over the parts of the text: an opener that is left was brought together. -/
theorem Strips.rejoins (h : Strips s r) (hr : opener <:+: r) : Rejoins s := by
  induction h with
  | nil => exact absurd hr (by decide)
  | @char c s r hopener h ih =>
      rcases List.infix_cons_iff.1 hr with hstart | hr
      · -- the escape character is read here, and the bracket is the next that is left
        obtain ⟨hc, hbracket⟩ := List.cons_prefix_cons.1 hstart
        obtain ⟨rest, rfl⟩ := hbracket
        obtain ⟨between, after, rfl, hbetween⟩ := h.exists_between
        subst hc
        refine ⟨[], between, after, rfl, .nil, ?_, hbetween⟩
        rintro rfl
        exact hopener ⟨after, rfl⟩
      · exact (ih hr).cons hopener
  | sequence hq _ ih => exact (ih hr).append hq
  | unfinished => exact absurd hr (by decide)

theorem Closed.strips_append (h : Closed s) {d : Char} {rest left : List Char} (hd : d ≠ '[')
    (hrest : Strips (d :: rest) left) : ∃ r, Strips (s ++ d :: rest) (r ++ left) := by
  induction h with
  | nil => exact ⟨[], hrest⟩
  | @char c s hopener _ ih =>
      obtain ⟨r, hr⟩ := ih
      refine ⟨c :: r, .char ?_ hr⟩
      intro hstart
      cases s with
      | nil => exact hd (List.cons_prefix_cons.1 (List.cons_prefix_cons.1 hstart).2).1.symm
      | cons e s =>
          obtain ⟨hc, hstart⟩ := List.cons_prefix_cons.1 hstart
          obtain ⟨he, -⟩ := List.cons_prefix_cons.1 hstart
          subst hc he
          exact hopener ⟨s, rfl⟩
  | @sequence q s hq _ ih =>
      obtain ⟨r, hr⟩ := ih
      rw [List.append_assoc]
      exact ⟨r, .sequence hq hr⟩

/-- An escape character in front of whole sequences is followed by another one. -/
theorem exists_escape_of_flatten (hne : between ≠ []) (hq : ∀ q ∈ between, IsSequence q) :
    ∃ rest, between.flatten = '\x1b' :: rest := by
  cases between with
  | nil => exact absurd rfl hne
  | cons q between =>
      obtain ⟨body, last, rfl, -⟩ := hq q List.mem_cons_self
      exact ⟨_, rfl⟩

theorem Rejoins.opener_infix (h : Rejoins s) : opener <:+: visible s := by
  obtain ⟨before, between, after, rfl, hbefore, hne, hbetween⟩ := h
  have hbracket : Strips ('[' :: after) ('[' :: visible after) :=
    .char (not_opener_of_ne (by decide) after) (strips_visible after)
  have hopener : ¬ opener <+: '\x1b' :: (between.flatten ++ '[' :: after) := by
    obtain ⟨rest, hrest⟩ := exists_escape_of_flatten hne hbetween
    rw [hrest]
    intro hstart
    exact absurd (List.cons_prefix_cons.1 (List.cons_prefix_cons.1 hstart).2).1 (by decide)
  obtain ⟨r, hr⟩ := hbefore.strips_append (by decide) (.char hopener (strips_flatten hbetween hbracket))
  rw [hr.visible_eq]
  exact ⟨r, visible after, by simp [opener]⟩

theorem opener_infix_visible_iff : opener <:+: visible s ↔ Rejoins s :=
  ⟨(strips_visible s).rejoins, Rejoins.opener_infix⟩

theorem Rejoins.escape_twice (h : Rejoins s) : ['\x1b', '\x1b'] <:+: s := by
  obtain ⟨before, between, after, rfl, -, hne, hbetween⟩ := h
  obtain ⟨rest, hrest⟩ := exists_escape_of_flatten hne hbetween
  rw [hrest]
  exact ⟨before, rest ++ '[' :: after, by simp⟩

/-- **When stripping leaves the start of a sequence.**  Stripping drops the sequences that a reader comes
to from the left.  An escape character with a bracket behind it is left exactly if the text has the two
with whole sequences between them, and exactly then a second stripping drops more.  So it happens in no
text in which no escape character is followed by another one. -/
theorem strip_leaves_iff (text : String) :
    Strips text.toList (strip text).toList ∧
    (opener <:+: (strip text).toList ↔ Rejoins text.toList) ∧
    (strip (strip text) = strip text ↔ ¬ Rejoins text.toList) ∧
    (Rejoins text.toList → ['\x1b', '\x1b'] <:+: text.toList) := by
  have hstrip : (strip text).toList = visible text.toList := String.toList_ofList
  rw [hstrip]
  refine ⟨strips_visible _, opener_infix_visible_iff, ?_, Rejoins.escape_twice⟩
  have htwice : strip (strip text) = strip text ↔ visible (visible text.toList) = visible text.toList := by
    rw [← String.toList_inj, hstrip]
    show (String.ofList (visible (strip text).toList)).toList = _ ↔ _
    rw [String.toList_ofList, hstrip]
  rw [htwice, visible_eq_self_iff, opener_infix_visible_iff]

/-- A whole sequence is left of two that stand in each other. -/
theorem strip_leaves_sequence :
    strip "\x1b\x1b[m[31mred" = "\x1b[31mred" ∧ IsSequence ['\x1b', '[', '3', '1', 'm'] ∧
      opener <:+: (strip "\x1b\x1b[m[31mred").toList ∧ strip (strip "\x1b\x1b[m[31mred") = "red" := by
  have hbody : ∀ c ∈ ['3', '1'], c.isAlpha = false :=
    List.forall_mem_cons.2 ⟨rfl, List.forall_mem_singleton.2 rfl⟩
  exact ⟨by decide, ⟨['3', '1'], 'm', rfl, hbody, rfl⟩, by decide, by decide⟩

end ShellQuest.Markup
