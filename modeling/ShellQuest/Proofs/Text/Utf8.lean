/-
# Texts as bytes

A text is sent as its bytes in UTF-8.  A line feed among them is a line feed of the text and never
part of another character, so the lines of a text can be cut out of its bytes: each of them is a
text again.
-/
import ShellQuest.Proofs.Text.FullLines

namespace ShellQuest.Text

/-- The bytes of a text in UTF-8. -/
def bytes (t : String) : List UInt8 := t.toByteArray.data.toList

def IsUtf8 (s : List UInt8) : Prop := ∃ t, bytes t = s

variable {c : Char} {t : String} {line body : List UInt8} {frame : Array UInt8}

theorem bytes_ofList (s : List Char) :
    bytes (String.ofList s) = s.flatMap String.utf8EncodeChar := by
  rw [bytes, String.toByteArray_ofList, List.utf8Encode, List.data_toByteArray]

theorem bytes_eq (t : String) : bytes t = t.toList.flatMap String.utf8EncodeChar := by
  rw [← bytes_ofList, String.ofList_toList]

@[simp] theorem bytes_append (t u : String) : bytes (t ++ u) = bytes t ++ bytes u := by
  rw [bytes_eq, String.toList_append, List.flatMap_append, ← bytes_eq, ← bytes_eq]

@[simp] theorem length_bytes (t : String) : (bytes t).length = t.utf8ByteSize := rfl

/-! ## Reading bytes as a text -/

theorem fromUTF8?_eq_some : String.fromUTF8? ⟨frame⟩ = some t ↔ bytes t = frame.toList := by
  rw [String.fromUTF8?]
  constructor
  · intro h
    split at h
    · cases h
      rfl
    · cases h
  · intro h
    have hframe : t.toByteArray = ⟨frame⟩ := ByteArray.ext (Array.toList_inj.1 h)
    have hvalid : ByteArray.IsValidUTF8 ⟨frame⟩ := hframe ▸ t.isValidUTF8
    rw [dif_pos hvalid]
    exact congrArg some (String.toByteArray_inj.1 hframe.symm)

theorem fromUTF8?_eq_none : String.fromUTF8? ⟨frame⟩ = none ↔ ¬ IsUtf8 frame.toList := by
  rw [Option.eq_none_iff_forall_ne_some, IsUtf8, not_exists]
  constructor
  · intro h t ht
    exact h t (fromUTF8?_eq_some.2 ht)
  · intro h t ht
    exact h t (fromUTF8?_eq_some.1 ht)

/-! ## Bytes of ASCII characters -/

/-- The byte of an ASCII character stands for nothing else. -/
theorem ascii_mem_encodeChar {n : Nat} (hn : n < 128) :
    UInt8.ofNat n ∈ String.utf8EncodeChar c ↔ c.toNat = n := by
  have heq : ∀ {m : Nat}, UInt8.ofNat n = UInt8.ofNat m ↔ m % 256 = n := by
    intro m
    rw [← UInt8.toNat_inj, UInt8.toNat_ofNat', UInt8.toNat_ofNat']
    omega
  simp only [String.utf8EncodeChar]
  -- every byte of a longer form has its highest bit set
  split
  · rw [List.mem_singleton, heq]
    have hcode : c.toNat = c.val.toNat := rfl
    omega
  · next hlong =>
    have hcode : c.toNat = c.val.toNat := rfl
    refine iff_of_false ?_ (by omega)
    split
    · simp only [List.mem_cons, List.not_mem_nil, or_false, heq]
      omega
    · split
      · simp only [List.mem_cons, List.not_mem_nil, or_false, heq]
        omega
      · simp only [List.mem_cons, List.not_mem_nil, or_false, heq]
        omega

theorem ascii_mem_bytes {n : Nat} (hn : n < 128) :
    UInt8.ofNat n ∈ bytes t ↔ ∃ c ∈ t.toList, c.toNat = n := by
  rw [bytes_eq, List.mem_flatMap]
  simp only [ascii_mem_encodeChar hn]

theorem lineFeed_mem_encodeChar : lineFeed ∈ String.utf8EncodeChar c ↔ c = '\n' := by
  have hfeed : lineFeed = UInt8.ofNat 10 := rfl
  rw [hfeed, ascii_mem_encodeChar (by decide), ← Char.toNat_inj]
  rfl

theorem lineFeed_mem_bytes : lineFeed ∈ bytes t ↔ '\n' ∈ t.toList := by
  rw [bytes_eq, List.mem_flatMap]
  constructor
  · rintro ⟨c, hc, hmem⟩
    rwa [← lineFeed_mem_encodeChar.1 hmem]
  · intro h
    exact ⟨'\n', h, lineFeed_mem_encodeChar.2 rfl⟩

theorem isUtf8_of_mem_fullLines (h : line ∈ fullLines (bytes t)) : IsUtf8 line := by
  rw [bytes_eq] at h
  generalize t.toList = s at h
  induction s generalizing line with
  | nil => cases h
  | cons c s ih =>
      rw [List.flatMap_cons] at h
      by_cases hc : c = '\n'
      · subst hc
        have hline : fullLines (String.utf8EncodeChar '\n' ++ s.flatMap String.utf8EncodeChar) =
            [lineFeed] :: fullLines (s.flatMap String.utf8EncodeChar) :=
          fullLines_line List.not_mem_nil _
        rw [hline] at h
        rcases List.mem_cons.1 h with rfl | h
        · exact ⟨"\n", by decide⟩
        · exact ih h
      · have hfree : lineFeed ∉ String.utf8EncodeChar c := by
          rw [lineFeed_mem_encodeChar]
          exact hc
        rw [fullLines_append hfree String.utf8EncodeChar_ne_nil] at h
        cases hrest : fullLines (s.flatMap String.utf8EncodeChar) with
        | nil =>
            rw [hrest, List.mem_singleton] at h
            refine ⟨String.ofList [c], ?_⟩
            rw [bytes_ofList, List.flatMap_singleton, h]
        | cons first lines =>
            rw [hrest] at h ih
            rcases List.mem_cons.1 h with rfl | h
            · obtain ⟨t, ht⟩ := ih List.mem_cons_self
              refine ⟨String.ofList [c] ++ t, ?_⟩
              rw [bytes_append, bytes_ofList, List.flatMap_singleton, ht]
            · exact ih (List.mem_cons_of_mem first h)

end ShellQuest.Text
