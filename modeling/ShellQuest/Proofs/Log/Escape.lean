/-
# Escaped texts

What is escaped for the log holds no control character, and it can be read again: a character is written
as itself or behind a backslash, and the character after the backslash tells what else belongs to it.  So
reading takes what one character is written as, whatever comes after it (`unescape_escapeChar`), and a
written text is the text of no other one.  All that can be lost is what goes beyond the preview.  The
ellipsis that stands for it may also be a character of a text; but a preview with its ellipsis is longer
than a text that fits, so the two are told apart by their lengths.
-/
import ShellQuest.Log
import ShellQuest.Proofs.Text.ControlFree

namespace ShellQuest.Log

open Text (ControlFree isControl)

variable {c d : Char} {n : Nat}

/-! ## Control characters -/

theorem isControl_of_mem_hexByte (h : c ∈ hexByte n) : isControl c = false := by
  have hdigit : ∀ d, isControl ("0123456789ABCDEF".toList.getD d '0') = false := by
    intro d
    rcases Nat.lt_or_ge d 16 with hd | hd
    · have hall : ∀ d < 16, isControl ("0123456789ABCDEF".toList.getD d '0') = false := by decide
      exact hall d hd
    · have hlength : "0123456789ABCDEF".toList.length = 16 := by decide
      rw [List.getD_eq_getElem?_getD, List.getElem?_eq_none (hlength ▸ hd)]
      decide
  have hall : ∀ c ∈ hexByte n, isControl c = false :=
    List.forall_mem_cons.2 ⟨hdigit _, List.forall_mem_singleton.2 (hdigit _)⟩
  exact hall c h

theorem isControl_of_mem_escapeChar (h : d ∈ escapeChar c) : isControl d = false := by
  have hpair : ∀ {a b : Char}, isControl a = false → isControl b = false →
      ∀ d ∈ [a, b], isControl d = false :=
    fun ha hb => List.forall_mem_cons.2 ⟨ha, List.forall_mem_singleton.2 hb⟩
  unfold escapeChar at h
  split at h
  · exact hpair (by decide) (by decide) d h
  · exact hpair (by decide) (by decide) d h
  · exact hpair (by decide) (by decide) d h
  · exact hpair (by decide) (by decide) d h
  · split at h
    · rcases List.mem_cons.1 h with rfl | h
      · decide
      · rcases List.mem_cons.1 h with rfl | h
        · decide
        · exact isControl_of_mem_hexByte h
    · next hc =>
      rw [List.mem_singleton.1 h]
      simpa using hc

theorem controlFree_escape (text : String) : ControlFree (escape text) := by
  intro c hc
  rw [escape, String.toList_ofList, escapeChars] at hc
  rcases List.mem_append.1 hc with hc | hc
  · obtain ⟨d, -, hc⟩ := List.mem_flatMap.1 hc
    exact isControl_of_mem_escapeChar hc
  · split at hc
    · cases hc
    · rw [List.mem_singleton.1 hc]
      decide

/-! ## Reading -/

def hexDigit (c : Char) : Nat := "0123456789ABCDEF".toList.idxOf c

/-- The text that was written as `s`. -/
def unescape : List Char → List Char
  | [] => []
  | '\\' :: 'n' :: s => '\n' :: unescape s
  | '\\' :: 'r' :: s => '\r' :: unescape s
  | '\\' :: 't' :: s => '\t' :: unescape s
  | '\\' :: 'x' :: high :: low :: s => Char.ofNat (hexDigit high * 16 + hexDigit low) :: unescape s
  | '\\' :: c :: s => c :: unescape s
  | c :: s => c :: unescape s

theorem unescape_cons (h : c ≠ '\\') (s : List Char) : unescape (c :: s) = c :: unescape s := by
  rw [unescape]
  all_goals
    intros
    exact absurd ‹_› h

theorem unescape_hexByte (hn : n < 256) (s : List Char) :
    unescape ('\\' :: 'x' :: (hexByte n ++ s)) = Char.ofNat n :: unescape s := by
  have hdigit : ∀ d < 16, hexDigit ("0123456789ABCDEF".toList.getD d '0') = d := by decide
  show Char.ofNat (hexDigit _ * 16 + hexDigit _) :: unescape s = _
  rw [hdigit (n / 16) (by omega), hdigit (n % 16) (by omega)]
  congr 2
  omega

theorem unescape_escapeChar (c : Char) (s : List Char) :
    unescape (escapeChar c ++ s) = c :: unescape s := by
  unfold escapeChar
  split
  · rfl
  · rfl
  · rfl
  · rfl
  · next hbackslash _ _ _ =>
    split
    · next hcontrol =>
      have hbyte : c.toNat < 256 := by
        simp only [isControl, Bool.or_eq_true, Bool.and_eq_true, decide_eq_true_eq] at hcontrol
        omega
      show unescape ('\\' :: 'x' :: (hexByte c.toNat ++ s)) = _
      rw [unescape_hexByte hbyte, Char.ofNat_toNat]
    · exact unescape_cons hbackslash s

/-- By induction over the text: each character is read as it was written. -/
theorem unescape_flatMap (s : List Char) : unescape (s.flatMap escapeChar) = s := by
  induction s with
  | nil => rfl
  | cons c s ih => rw [List.flatMap_cons, unescape_escapeChar, ih]

/-! ## Previews -/

/-- What is shown of a text: all of it, or as much as fits and an ellipsis. -/
def preview (plain : List Char) : List Char :=
  plain.take previewLength ++ if plain.length ≤ previewLength then [] else ['…']

theorem escapeChars_eq (s : List Char) :
    escapeChars s = (preview (Markup.visible s)).flatMap escapeChar := by
  rw [escapeChars, preview, List.flatMap_append]
  congr 1
  split
  · rfl
  · rfl

/-- An escaped text is read as the preview of what stripping leaves of it. -/
theorem unescape_escape (text : String) :
    unescape (escape text).toList = preview (Markup.strip text).toList := by
  rw [escape, String.toList_ofList, escapeChars_eq, unescape_flatMap, Markup.strip, String.toList_ofList]

theorem escape_eq_ofList (text : String) :
    escape text = String.ofList ((preview (Markup.strip text).toList).flatMap escapeChar) := by
  rw [escape, escapeChars_eq, Markup.strip, String.toList_ofList]

theorem preview_of_le {plain : List Char} (h : plain.length ≤ previewLength) : preview plain = plain := by
  rw [preview, if_pos h, List.take_of_length_le h, List.append_nil]

theorem preview_of_lt {plain : List Char} (h : previewLength < plain.length) :
    preview plain = plain.take previewLength ++ ['…'] := by
  rw [preview, if_neg (Nat.not_le_of_lt h)]

/-- A preview is longer than what can be shown exactly if the text was cut. -/
theorem length_preview_iff {plain : List Char} :
    previewLength < (preview plain).length ↔ previewLength < plain.length := by
  rcases Nat.lt_or_ge previewLength plain.length with h | h
  · rw [preview_of_lt h, List.length_append, List.length_take, Nat.min_eq_left (Nat.le_of_lt h)]
    exact iff_of_true (Nat.lt_succ_self _) h
  · rw [preview_of_le h]

theorem take_preview (plain : List Char) :
    (preview plain).take previewLength = plain.take previewLength := by
  rcases Nat.lt_or_ge previewLength plain.length with h | h
  · have hlength : (plain.take previewLength).length = previewLength :=
      List.length_take_of_le (Nat.le_of_lt h)
    rw [preview_of_lt h, List.take_append_of_le_length (Nat.le_of_eq hlength.symm), List.take_take,
      Nat.min_self]
  · rw [preview_of_le h]

theorem preview_eq_iff {plain other : List Char} :
    preview plain = preview other ↔ plain.take previewLength = other.take previewLength ∧
      (previewLength < plain.length ↔ previewLength < other.length) := by
  constructor
  · intro h
    have htake := congrArg (List.take previewLength) h
    rw [take_preview, take_preview] at htake
    refine ⟨htake, ?_⟩
    rw [← length_preview_iff, h, length_preview_iff]
  · rintro ⟨htake, hlength⟩
    have hfits : plain.length ≤ previewLength ↔ other.length ≤ previewLength := by omega
    simp only [preview, htake, hfits]

/-- **Escaping is single-line and loses no more than the overflow.**  No escaped text holds a control
character.  Two texts are escaped alike exactly if what stripping leaves of them starts with the same 300
characters, and either both go on after these or neither does.  And a text that does not is recovered. -/
theorem escape_eq_iff :
    (∀ text, ControlFree (escape text)) ∧
    (∀ s t, escape s = escape t ↔
      (Markup.strip s).toList.take 300 = (Markup.strip t).toList.take 300 ∧
        (300 < (Markup.strip s).length ↔ 300 < (Markup.strip t).length)) ∧
    (∀ text, (Markup.strip text).length ≤ 300 →
      unescape (escape text).toList = (Markup.strip text).toList) := by
  refine ⟨controlFree_escape, ?_, ?_⟩
  · intro s t
    have hpreview : escape s = escape t ↔
        preview (Markup.strip s).toList = preview (Markup.strip t).toList := by
      constructor
      · intro h
        rw [← unescape_escape, ← unescape_escape, h]
      · intro h
        rw [escape_eq_ofList, escape_eq_ofList, h]
    rw [hpreview]
    exact preview_eq_iff
  · intro text h
    rw [unescape_escape]
    exact preview_of_le h

end ShellQuest.Log
