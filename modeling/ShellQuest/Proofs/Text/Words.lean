/-
# Words of a line

Cutting a text at its gaps, seen from the two sides that matter.  Gaps at the ends of a text do not
count, so trimming a line changes none of its words; and a text that is written from words, with
one gap between each two, is cut into these words again.
-/
import ShellQuest.Text.Basic
import Mathlib.Data.List.TakeWhile

namespace ShellQuest.Text

variable {isGap : Char → Bool} {c : Char} {s t piece gaps : List Char}

/-! ## Gaps at the ends -/

@[simp] theorem pieces_cons_gap (h : isGap c = true) : pieces isGap (c :: s) = pieces isGap s := by
  simp [pieces, splitPiece, h]

theorem pieces_dropWhile (isGap : Char → Bool) (s : List Char) :
    pieces isGap (s.dropWhile isGap) = pieces isGap s := by
  induction s with
  | nil => rfl
  | cons c s ih =>
      by_cases hc : isGap c = true
      · rw [List.dropWhile_cons_of_pos hc, ih, pieces_cons_gap hc]
      · rw [List.dropWhile_cons_of_neg hc]

theorem splitPiece_gaps (h : ∀ c ∈ gaps, isGap c = true) : splitPiece isGap gaps = ([], []) := by
  induction gaps with
  | nil => rfl
  | cons c gaps ih =>
      have hc := h c List.mem_cons_self
      rw [splitPiece, ih fun d hd => h d (List.mem_cons_of_mem c hd)]
      simp [hc]

theorem splitPiece_append_gaps (h : ∀ c ∈ gaps, isGap c = true) (s : List Char) :
    splitPiece isGap (s ++ gaps) = splitPiece isGap s := by
  induction s with
  | nil => exact splitPiece_gaps h
  | cons c s ih => rw [List.cons_append, splitPiece, ih, splitPiece]

theorem pieces_append_gaps (h : ∀ c ∈ gaps, isGap c = true) (s : List Char) :
    pieces isGap (s ++ gaps) = pieces isGap s := by
  rw [pieces, splitPiece_append_gaps h, pieces]

/-- Putting one gap in the place of another changes no piece. -/
theorem pieces_map {f : Char → Char} (hgap : ∀ c, isGap (f c) = isGap c)
    (hkept : ∀ c, isGap c = false → f c = c) (s : List Char) :
    pieces isGap (s.map f) = pieces isGap s := by
  have hsplit : splitPiece isGap (s.map f) = splitPiece isGap s := by
    induction s with
    | nil => rfl
    | cons c s ih =>
        rw [List.map_cons, splitPiece, ih, hgap, splitPiece]
        by_cases hc : isGap c = true
        · simp only [hc, if_true]
        · rw [hkept c (by simpa using hc)]
  rw [pieces, hsplit, pieces]

theorem exists_blanks_after_trim (s : List Char) :
    ∃ blanks : List Char, (∀ c ∈ blanks, isBlank c = true) ∧
      s.dropWhile isBlank = trimChars s ++ blanks := by
  refine ⟨((s.dropWhile isBlank).reverse.takeWhile isBlank).reverse, ?_, ?_⟩
  · intro c hc
    exact List.mem_takeWhile_imp (List.mem_reverse.1 hc)
  · rw [trimChars, ← List.reverse_append, List.takeWhile_append_dropWhile, List.reverse_reverse]

@[simp] theorem words_trim (s : String) : words (trim s) = words s := by
  obtain ⟨blanks, hblanks, hs⟩ := exists_blanks_after_trim s.toList
  have hpieces : pieces isBlank (trimChars s.toList) = pieces isBlank s.toList := by
    rw [← pieces_append_gaps hblanks, ← hs, pieces_dropWhile]
  rw [words, trim, String.toList_ofList, hpieces, words]

theorem trimChars_concat (h : isBlank c = true) (s : List Char) :
    trimChars (s ++ [c]) = trimChars s := by
  rw [trimChars, trimChars, List.dropWhile_append]
  split
  · next hnone =>
    rw [List.dropWhile_cons_of_pos h, List.isEmpty_iff.1 hnone]
    rfl
  · rw [List.reverse_append, List.reverse_singleton, List.singleton_append,
      List.dropWhile_cons_of_pos h]

@[simp] theorem trim_append_lineFeed (t : String) : trim (t ++ "\n") = trim t := by
  have hchars : (t ++ "\n").toList = t.toList ++ ['\n'] := by
    rw [String.toList_append]
    rfl
  rw [trim, hchars, trimChars_concat (by decide), trim]

theorem pieces_eq_nil : pieces isGap s = [] ↔ ∀ c ∈ s, isGap c = true := by
  constructor
  · intro h
    induction s with
    | nil => nofun
    | cons c s ih =>
        by_cases hc : isGap c = true
        · rw [pieces_cons_gap hc] at h
          exact List.forall_mem_cons.2 ⟨hc, ih h⟩
        · simp [pieces, splitPiece, hc] at h
  · intro h
    rw [pieces, splitPiece_gaps h]
    rfl

/-- Cutting at every single gap finds the same stretch at the start, and the same pieces among the
other stretches, of which some may be empty. -/
theorem splitOnP_eq_splitPiece (isGap : Char → Bool) (s : List Char) :
    ∃ rest, s.splitOnP isGap = (splitPiece isGap s).1 :: rest ∧
      (splitPiece isGap s).2 = rest.filter fun piece => !piece.isEmpty := by
  induction s with
  | nil => exact ⟨[], rfl, rfl⟩
  | cons c s ih =>
      obtain ⟨rest, hsplit, hrest⟩ := ih
      rw [List.splitOnP_cons_eq_if_modifyHead, hsplit, splitPiece]
      dsimp only
      rw [hrest]
      by_cases hc : isGap c = true
      · refine ⟨(splitPiece isGap s).1 :: rest, by simp [hc], ?_⟩
        cases hfirst : (splitPiece isGap s).1 with
        | nil => simp [hc]
        | cons d first => simp [hc]
      · exact ⟨rest, by simp [hc], by simp [hc]⟩

theorem pieces_eq_filter (isGap : Char → Bool) (s : List Char) :
    pieces isGap s = (s.splitOnP isGap).filter fun piece => !piece.isEmpty := by
  obtain ⟨rest, hsplit, hrest⟩ := splitOnP_eq_splitPiece isGap s
  rw [pieces, hsplit]
  dsimp only
  rw [hrest]
  cases (splitPiece isGap s).1 with
  | nil => rfl
  | cons c piece => rfl

theorem segments_eq_filter (path : String) :
    segments path =
      ((path.toList.splitOn '/').filter fun segment => !segment.isEmpty).map String.ofList := by
  rw [segments, pieces_eq_filter, List.splitOn_eq_splitOnP]

/-! ## Texts written from pieces -/

theorem splitPiece_append (h : ∀ c ∈ piece, isGap c = false) (s : List Char) :
    splitPiece isGap (piece ++ s) = (piece ++ (splitPiece isGap s).1, (splitPiece isGap s).2) := by
  induction piece with
  | nil => rfl
  | cons c piece ih =>
      have hc := h c List.mem_cons_self
      rw [List.cons_append, splitPiece, ih fun d hd => h d (List.mem_cons_of_mem c hd)]
      simp [hc]

theorem pieces_piece (hne : piece ≠ []) (h : ∀ c ∈ piece, isGap c = false) :
    pieces isGap piece = [piece] := by
  have hs := splitPiece_append h []
  rw [List.append_nil] at hs
  rw [pieces, hs]
  simp [splitPiece, hne]

theorem pieces_piece_append (hne : piece ≠ []) (h : ∀ c ∈ piece, isGap c = false)
    (hc : isGap c = true) (s : List Char) :
    pieces isGap (piece ++ c :: s) = piece :: pieces isGap s := by
  rw [pieces, splitPiece_append h, splitPiece]
  simp [hc, hne, pieces]

theorem pieces_intercalate (hc : isGap c = true) (parts : List (List Char))
    (h : ∀ piece ∈ parts, piece ≠ [] ∧ ∀ d ∈ piece, isGap d = false) :
    pieces isGap ([c].intercalate parts) = parts := by
  induction parts with
  | nil => rfl
  | cons piece parts ih =>
      obtain ⟨hne, hpiece⟩ := h piece List.mem_cons_self
      have hrest := ih fun p hp => h p (List.mem_cons_of_mem piece hp)
      cases parts with
      | nil => rw [List.intercalate_singleton, pieces_piece hne hpiece]
      | cons next parts =>
          rw [List.intercalate_cons_cons, List.append_assoc, List.singleton_append,
            pieces_piece_append hne hpiece hc, hrest]

theorem texts_pieces_intercalate {sep : String} {texts : List String} (hsep : sep.toList = [c])
    (hc : isGap c = true)
    (h : ∀ t ∈ texts, t.toList ≠ [] ∧ ∀ d ∈ t.toList, isGap d = false) :
    (pieces isGap (sep.intercalate texts).toList).map String.ofList = texts := by
  have hparts : ∀ piece ∈ texts.map String.toList, piece ≠ [] ∧ ∀ d ∈ piece, isGap d = false := by
    intro piece hpiece
    obtain ⟨t, ht, rfl⟩ := List.mem_map.1 hpiece
    exact h t ht
  rw [String.toList_intercalate, hsep, pieces_intercalate hc _ hparts, List.map_map]
  simp [Function.comp_def]

/-! ## Words -/

/-- A text that can stand as a word on a line: not empty, and without white space. -/
def IsWord (t : String) : Prop := t.toList ≠ [] ∧ ∀ c ∈ t.toList, isBlank c = false

instance (t : String) : Decidable (IsWord t) :=
  decidable_of_iff ((!t.toList.isEmpty && t.toList.all fun c => !isBlank c) = true)
    (by simp [IsWord])

theorem of_mem_splitPiece :
    (∀ d ∈ (splitPiece isGap s).1, isGap d = false) ∧
      ∀ piece ∈ (splitPiece isGap s).2, piece ≠ [] ∧ ∀ d ∈ piece, isGap d = false := by
  induction s with
  | nil => exact ⟨nofun, nofun⟩
  | cons c s ih =>
      obtain ⟨hfirst, hrest⟩ := ih
      rw [splitPiece]
      dsimp only
      split
      · refine ⟨nofun, ?_⟩
        split
        · exact hrest
        · next hne => exact List.forall_mem_cons.2 ⟨⟨by simpa using hne, hfirst⟩, hrest⟩
      · next hc => exact ⟨List.forall_mem_cons.2 ⟨by simpa using hc, hfirst⟩, hrest⟩

theorem of_mem_pieces (h : piece ∈ pieces isGap s) : piece ≠ [] ∧ ∀ d ∈ piece, isGap d = false := by
  obtain ⟨hfirst, hrest⟩ := @of_mem_splitPiece isGap s
  rw [pieces] at h
  dsimp only at h
  split at h
  · exact hrest piece h
  · next hne =>
    rcases List.mem_cons.1 h with rfl | h
    · exact ⟨by simpa using hne, hfirst⟩
    · exact hrest piece h

theorem isWord_of_mem_words {t line : String} (h : t ∈ words line) : IsWord t := by
  obtain ⟨piece, hpiece, rfl⟩ := List.mem_map.1 h
  rw [IsWord, String.toList_ofList]
  exact of_mem_pieces hpiece

/-- A text of white space. -/
def IsBlank (t : String) : Prop := ∀ c ∈ t.toList, isBlank c = true

instance (t : String) : Decidable (IsBlank t) := List.decidableBAll _ t.toList

theorem words_eq_nil {t : String} : words t = [] ↔ IsBlank t := by
  rw [words, List.map_eq_nil_iff, pieces_eq_nil, IsBlank]

theorem isEmpty_trim {t : String} : (trim t).isEmpty = true ↔ IsBlank t := by
  rw [String.isEmpty_iff]
  constructor
  · intro h
    rw [← words_eq_nil, ← words_trim, h]
    rfl
  · intro h
    have hnone : t.toList.dropWhile isBlank = [] := List.dropWhile_eq_nil_iff.2 h
    rw [trim, trimChars, hnone]
    rfl

theorem words_append_blank (t : String) {u : String} (h : IsBlank u) : words (t ++ u) = words t := by
  rw [words, String.toList_append, pieces_append_gaps h, words]

theorem words_eq_filter (t : String) :
    words t =
      ((t.toList.splitOnP isBlank).filter fun word => !word.isEmpty).map String.ofList := by
  rw [words, pieces_eq_filter]

theorem words_intercalate {ws : List String} (h : ∀ t ∈ ws, IsWord t) :
    words (" ".intercalate ws) = ws :=
  texts_pieces_intercalate (c := ' ') (by decide) (by decide) h

end ShellQuest.Text
