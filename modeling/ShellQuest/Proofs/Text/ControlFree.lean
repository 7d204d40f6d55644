/-
# Texts without control characters

A text is control-free if it holds no control character, and printed if its line feeds are the only
ones.  Both say something of every character, and `All p` is the general form.  Cutting a line into
words, or a path into segments, keeps it, for every character of a piece is one of the text.
Lower-casing is another matter, since it makes new characters: here the table of capitals is checked
run by run, and no small letter is a control character.  So it keeps `All p` if every graphic character
satisfies `p`.
-/
import ShellQuest.Text.Basic
import ShellQuest.Text.LowerCase

namespace ShellQuest

namespace Text

/-- No character of the text is a control character. -/
def ControlFree (t : String) : Prop := ∀ c ∈ t.toList, isControl c = false

/-- The only control characters of the text are line feeds. -/
def Printed (t : String) : Prop := ∀ c ∈ t.toList, isControl c = true → c = '\n'

/-- Every character of the text satisfies `p`. -/
def All (p : Char → Prop) (t : String) : Prop := ∀ c ∈ t.toList, p c

/-- Every character but the control characters satisfies `p`. -/
def Graphic (p : Char → Prop) : Prop := ∀ c, isControl c = false → p c

/-- Every printed character satisfies `p`. -/
def Plain (p : Char → Prop) : Prop := ∀ c, (isControl c = true → c = '\n') → p c

instance (t : String) : Decidable (ControlFree t) := List.decidableBAll _ t.toList

instance (t : String) : Decidable (Printed t) := List.decidableBAll _ t.toList

variable {p : Char → Prop} {c : Char} {s t : String} {ts : List String}

theorem graphic_of_plain (hp : Plain p) : Graphic p := by
  intro c hc
  apply hp
  intro hcontrol
  rw [hc] at hcontrol
  cases hcontrol

theorem graphic_notControl : Graphic fun c => isControl c = false := fun _ hc => hc

theorem graphic_ne_lineFeed : Graphic (· ≠ '\n') := by
  rintro c hc rfl
  exact absurd hc (by decide)

theorem all_ne_iff : All (· ≠ c) t ↔ c ∉ t.toList :=
  ⟨fun h hc => h c hc rfl, fun h _ hd heq => h (heq ▸ hd)⟩

theorem ControlFree.all (h : ControlFree t) (hp : Graphic p) : All p t := fun c hc => hp c (h c hc)

theorem Printed.all (h : Printed t) (hp : Plain p) : All p t := fun c hc => hp c (h c hc)

theorem ControlFree.printed (h : ControlFree t) : Printed t :=
  h.all (graphic_of_plain fun _ hc => hc)

/-! ## Texts put together -/

theorem all_append : All p (s ++ t) ↔ All p s ∧ All p t := by
  rw [All, String.toList_append, List.forall_mem_append]
  exact Iff.rfl

theorem All.append (hs : All p s) (ht : All p t) : All p (s ++ t) := all_append.2 ⟨hs, ht⟩

theorem ControlFree.append (hs : ControlFree s) (ht : ControlFree t) : ControlFree (s ++ t) :=
  All.append hs ht

theorem Printed.append (hs : Printed s) (ht : Printed t) : Printed (s ++ t) := All.append hs ht

/-- A check of the characters.  A long literal is printed by this check of `chars`, which it is equal to
by definition, and not by decoding its bytes. -/
theorem printed_of_chars {chars : List Char} (ht : t = String.ofList chars)
    (h : (chars.all fun c => !isControl c || c == '\n') = true) : Printed t := by
  intro c hc hcontrol
  rw [ht, String.toList_ofList] at hc
  have hc := List.all_eq_true.1 h c hc
  simpa [hcontrol] using hc

theorem intercalate_of_append {P : String → Prop} (hempty : P "")
    (happend : ∀ {s t}, P s → P t → P (s ++ t)) (hs : P s) (hts : ∀ t ∈ ts, P t) :
    P (s.intercalate ts) := by
  induction ts with
  | nil =>
      rw [String.intercalate_nil]
      exact hempty
  | cons t ts ih =>
      obtain ⟨ht, hts⟩ := List.forall_mem_cons.1 hts
      by_cases hne : ts = []
      · rw [hne, String.intercalate_singleton]
        exact ht
      · rw [String.intercalate_cons_of_ne_nil hne]
        exact happend (happend ht hs) (ih hts)

theorem All.intercalate (hs : All p s) (hts : ∀ t ∈ ts, All p t) : All p (s.intercalate ts) :=
  intercalate_of_append nofun All.append hs hts

/-! ## Pieces -/

theorem mem_of_mem_splitPiece {isGap : Char → Bool} {chars : List Char} :
    (∀ d ∈ (splitPiece isGap chars).1, d ∈ chars) ∧
      ∀ piece ∈ (splitPiece isGap chars).2, ∀ d ∈ piece, d ∈ chars := by
  induction chars with
  | nil => exact ⟨nofun, nofun⟩
  | cons c chars ih =>
      obtain ⟨hfirst, hrest⟩ := ih
      have hfirst : ∀ d ∈ (splitPiece isGap chars).1, d ∈ c :: chars :=
        fun d hd => List.mem_cons_of_mem c (hfirst d hd)
      have hrest : ∀ piece ∈ (splitPiece isGap chars).2, ∀ d ∈ piece, d ∈ c :: chars :=
        fun piece hpiece d hd => List.mem_cons_of_mem c (hrest piece hpiece d hd)
      rw [splitPiece]
      dsimp only
      split
      · refine ⟨nofun, ?_⟩
        split
        · exact hrest
        · exact List.forall_mem_cons.2 ⟨hfirst, hrest⟩
      · exact ⟨List.forall_mem_cons.2 ⟨List.mem_cons_self, hfirst⟩, hrest⟩

theorem mem_of_mem_pieces {isGap : Char → Bool} {chars piece : List Char}
    (hpiece : piece ∈ pieces isGap chars) (hc : c ∈ piece) : c ∈ chars := by
  obtain ⟨hfirst, hrest⟩ := @mem_of_mem_splitPiece isGap chars
  rw [pieces] at hpiece
  dsimp only at hpiece
  split at hpiece
  · exact hrest piece hpiece c hc
  · rcases List.mem_cons.1 hpiece with rfl | hpiece
    · exact hfirst c hc
    · exact hrest piece hpiece c hc

theorem All.of_mem_pieces {isGap : Char → Bool} (h : All p t)
    (hs : s ∈ (pieces isGap t.toList).map String.ofList) : All p s := by
  obtain ⟨piece, hpiece, rfl⟩ := List.mem_map.1 hs
  intro c hc
  rw [String.toList_ofList] at hc
  exact h c (mem_of_mem_pieces hpiece hc)

theorem All.of_mem_words (h : All p t) (hs : s ∈ words t) : All p s := h.of_mem_pieces hs

theorem All.of_mem_segments (h : All p t) (hs : s ∈ segments t) : All p s := h.of_mem_pieces hs

theorem ControlFree.trim (h : ControlFree t) : ControlFree (trim t) := by
  intro c hc
  rw [Text.trim, String.toList_ofList, trimChars, List.mem_reverse] at hc
  have hc := List.mem_reverse.1 ((List.dropWhile_sublist _).mem hc)
  exact h c ((List.dropWhile_sublist _).mem hc)

/-! ## Small letters -/

/-- The small letters of the run are graphic characters of ASCII, or come after the control characters
and are no surrogates. -/
def CaseRun.Lands (r : CaseRun) : Prop :=
  (0x20 ≤ r.first + r.shift ∧ r.last + r.shift < 0x7F) ∨
    (0xA0 ≤ r.first + r.shift ∧ r.last + r.shift < 0xD800) ∨
    (0xE000 ≤ r.first + r.shift ∧ r.last + r.shift < 0x110000)

instance (r : CaseRun) : Decidable r.Lands := inferInstanceAs (Decidable (_ ∨ _))

theorem lands_of_mem_caseRuns : ∀ r ∈ caseRuns, r.Lands := by decide +kernel

theorem isControl_ofNat {n : Nat} (hvalid : n < 0xD800 ∨ 0xDFFF < n ∧ n < 0x110000)
    (h : 0x20 ≤ n ∧ n < 0x7F ∨ 0xA0 ≤ n) : isControl (Char.ofNat n) = false := by
  have htoNat : (Char.ofNat n).toNat = n := by
    rw [Char.ofNat, dif_pos hvalid]
    rfl
  rw [isControl, htoNat]
  simp only [Bool.or_eq_false_iff, Bool.and_eq_false_iff, decide_eq_false_iff_not]
  omega

theorem of_mem_lowerChar {d : Char} (hd : d ∈ lowerChar c) : d = c ∨ isControl d = false := by
  rw [lowerChar] at hd
  split at hd
  · have hall : ∀ d ∈ ['i', '\u0307'], isControl d = false :=
      List.forall_mem_cons.2 ⟨rfl, List.forall_mem_cons.2 ⟨rfl, nofun⟩⟩
    exact .inr (hall d hd)
  · dsimp only at hd
    split at hd
    · next r hr =>
      have hlands := lands_of_mem_caseRuns r (List.mem_of_find?_eq_some hr)
      have hrange := List.find?_some hr
      simp only [Bool.and_eq_true, decide_eq_true_eq] at hrange
      rw [List.mem_singleton] at hd
      subst hd
      rw [CaseRun.Lands] at hlands
      right
      apply isControl_ofNat
      · omega
      · omega
    · exact .inl (List.mem_singleton.1 hd)

theorem of_mem_lowerAfter {before chars : List Char} {d : Char} (hd : d ∈ lowerAfter before chars) :
    d ∈ chars ∨ isControl d = false := by
  induction chars generalizing before with
  | nil => cases hd
  | cons c chars ih =>
      rw [lowerAfter] at hd
      rcases List.mem_append.1 hd with hd | hd
      · split at hd
        · -- the two small forms of the letter sigma
          rw [List.mem_singleton] at hd
          right
          split at hd
          · rw [hd]
            decide
          · rw [hd]
            decide
        · rcases of_mem_lowerChar hd with rfl | hd
          · exact .inl List.mem_cons_self
          · exact .inr hd
      · exact (ih hd).imp_left (List.mem_cons_of_mem c)

theorem All.lower (h : All p t) (hp : Graphic p) : All p (lower t) := by
  intro c hc
  rw [Text.lower, String.toList_ofList] at hc
  rcases of_mem_lowerAfter hc with hc | hc
  · exact h c hc
  · exact hp c hc

theorem lowerChar_ne_nil (c : Char) : lowerChar c ≠ [] := by
  rw [lowerChar]
  split
  · exact List.cons_ne_nil _ _
  · dsimp only
    split
    · exact List.cons_ne_nil _ _
    · exact List.cons_ne_nil _ _

theorem lower_ne_empty {t : String} (h : t.toList ≠ []) : lower t ≠ "" := by
  intro hempty
  have hnil : lowerAfter [] t.toList = [] := by
    rw [← String.toList_ofList (l := lowerAfter [] t.toList)]
    show (lower t).toList = []
    rw [hempty]
    rfl
  cases hchars : t.toList with
  | nil => exact h hchars
  | cons c chars =>
      rw [hchars, lowerAfter] at hnil
      have hfirst := (List.append_eq_nil_iff.1 hnil).1
      split at hfirst
      · cases hfirst
      · exact lowerChar_ne_nil c hfirst

/-! ## Numbers -/

theorem isControl_of_isDigit (h : c.isDigit = true) : isControl c = false := by
  rw [Char.isDigit_iff_toNat] at h
  have hzero : '0'.toNat = 48 := rfl
  have hnine : '9'.toNat = 57 := rfl
  simp only [isControl, Bool.or_eq_false_iff, Bool.and_eq_false_iff, decide_eq_false_iff_not]
  omega

theorem controlFree_toString (n : Nat) : ControlFree (toString n) := by
  intro c hc
  have hc : c ∈ Nat.toDigits 10 n := by
    rw [← Nat.toList_repr]
    exact hc
  exact isControl_of_isDigit (Nat.isDigit_of_mem_toDigits (by decide) (by decide) hc)

end Text

end ShellQuest
