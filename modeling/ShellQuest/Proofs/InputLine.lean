/-
# Which lines may be played

A line is measured before anything is dropped from it; then its line end goes, and what is left must
be plain, that is without control characters but tabs.  Nothing else is asked (`clean_eq`), so each of
the three outcomes comes with the exact lines that have it (`clean_iff`).  What is played instead of the
line is no other command: a line end and a tab are white space, and so is the space that stands for a
tab, so the words stay (`words_untabbed`, `words_unended`).  And it is played as it stands if it comes
in again, since it is no longer than the line and has nothing left to replace.
-/
import ShellQuest.InputLine
import ShellQuest.Proofs.Command.Written
import ShellQuest.Proofs.Text.ControlFree
import ShellQuest.Proofs.Text.Utf8

namespace ShellQuest.InputLine

open Text (ControlFree)

variable {t line body out : String} {s : List Char} {limit : Nat}

/-- The line has no control characters but tabs. -/
def IsPlain (t : String) : Prop := ∀ c ∈ t.toList, Text.isControl c = true → c = '\t'

instance (t : String) : Decidable (IsPlain t) := List.decidableBAll _ t.toList

/-- The line with spaces for its tabs. -/
def untabbed (t : String) : String := String.ofList (t.toList.map untab)

/-- The line without its line end. -/
def unended (t : String) : String := String.ofList (withoutLineEnd t.toList)

/-- The line is played as it stands, once it has come in. -/
def Playable (line : String) : Prop := ∃ raw limit, clean raw limit = .ok line

/-! ## The line end -/

/-- `HasBody line body`: the line is `body` and the line end after it, if it has one. -/
inductive HasBody : String → String → Prop
  | returned (body : String) : HasBody (body ++ "\r\n") body
  | fed {body : String} : body.toList.getLast? ≠ some '\r' → HasBody (body ++ "\n") body
  | bare {body : String} : body.toList.getLast? ≠ some '\n' → HasBody body body

theorem withoutLineEnd_of_not_lineFeed (h : s.getLast? ≠ some '\n') : withoutLineEnd s = s := by
  rw [← List.head?_reverse] at h
  unfold withoutLineEnd
  split
  · next heq => exact absurd (congrArg List.head? heq) h
  · next heq => exact absurd (congrArg List.head? heq) h
  · rfl

theorem withoutLineEnd_of_free (h : '\n' ∉ s) : withoutLineEnd s = s :=
  withoutLineEnd_of_not_lineFeed fun hlast => h (List.mem_of_getLast? hlast)

theorem withoutLineEnd_lineFeed (h : s.getLast? ≠ some '\r') : withoutLineEnd (s ++ ['\n']) = s := by
  rw [← List.head?_reverse] at h
  unfold withoutLineEnd
  rw [List.reverse_append, List.reverse_singleton, List.singleton_append]
  split
  · next heq => exact absurd (congrArg List.head? (List.cons.inj heq).2) h
  · next heq => rw [← (List.cons.inj heq).2, List.reverse_reverse]
  · next hfeed => exact absurd rfl (hfeed s.reverse)

theorem withoutLineEnd_return (s : List Char) : withoutLineEnd (s ++ ['\r', '\n']) = s := by
  have hreverse : (s ++ ['\r', '\n']).reverse = '\n' :: '\r' :: s.reverse := by simp
  unfold withoutLineEnd
  rw [hreverse]
  exact List.reverse_reverse s

theorem unended_lineFeed (h : body.toList.getLast? ≠ some '\r') : unended (body ++ "\n") = body := by
  have hchars : (body ++ "\n").toList = body.toList ++ ['\n'] := String.toList_append
  rw [unended, hchars, withoutLineEnd_lineFeed h, String.ofList_toList]

theorem unended_return (body : String) : unended (body ++ "\r\n") = body := by
  have hchars : (body ++ "\r\n").toList = body.toList ++ ['\r', '\n'] := String.toList_append
  rw [unended, hchars, withoutLineEnd_return, String.ofList_toList]

theorem exists_body (line : String) : ∃ body, HasBody line body := by
  by_cases hfeed : line.toList.getLast? = some '\n'
  · obtain ⟨s, hs⟩ := List.getLast?_eq_some_iff.1 hfeed
    by_cases hreturn : s.getLast? = some '\r'
    · obtain ⟨r, rfl⟩ := List.getLast?_eq_some_iff.1 hreturn
      have hline : line = String.ofList r ++ "\r\n" := by
        apply String.toList_inj.1
        rw [hs, String.toList_append, String.toList_ofList, List.append_assoc]
        rfl
      exact ⟨String.ofList r, hline ▸ .returned _⟩
    · have hline : line = String.ofList s ++ "\n" := by
        apply String.toList_inj.1
        rw [hs, String.toList_append, String.toList_ofList]
        rfl
      refine ⟨String.ofList s, hline ▸ .fed ?_⟩
      rw [String.toList_ofList]
      exact hreturn
  · exact ⟨line, .bare hfeed⟩

theorem HasBody.unended_eq (h : HasBody line body) : unended line = body := by
  cases h with
  | returned => exact unended_return body
  | fed hreturn => exact unended_lineFeed hreturn
  | bare hfeed => rw [unended, withoutLineEnd_of_not_lineFeed hfeed, String.ofList_toList]

theorem unended_eq_iff : unended line = body ↔ HasBody line body := by
  constructor
  · rintro rfl
    obtain ⟨body, h⟩ := exists_body line
    rw [h.unended_eq]
    exact h
  · exact HasBody.unended_eq

/-! ## What is left of a line -/

/-- A line end is white space, so no word goes with it. -/
theorem words_unended (line : String) : Text.words (unended line) = Text.words line := by
  obtain ⟨body, h⟩ := exists_body line
  rw [h.unended_eq]
  cases h with
  | returned => exact (Text.words_append_blank body (by decide)).symm
  | fed => exact (Text.words_append_blank body (by decide)).symm
  | bare => rfl

/-- A tab is white space, and so is the space that stands for it. -/
theorem words_untabbed (t : String) : Text.words (untabbed t) = Text.words t := by
  have hgap : ∀ c, Text.isBlank (untab c) = Text.isBlank c := by
    intro c
    rw [untab]
    split
    · next htab =>
      rw [htab]
      decide
    · rfl
  have hkept : ∀ c, Text.isBlank c = false → untab c = c := by
    intro c hc
    refine if_neg fun htab => ?_
    rw [htab] at hc
    exact absurd hc (by decide)
  rw [Text.words, untabbed, String.toList_ofList, Text.pieces_map hgap hkept, Text.words]

theorem utf8ByteSize_unended_le (line : String) :
    (unended line).utf8ByteSize ≤ line.utf8ByteSize := by
  obtain ⟨body, h⟩ := exists_body line
  rw [h.unended_eq]
  cases h with
  | returned | fed =>
      rw [String.utf8ByteSize_append]
      exact Nat.le_add_right _ _
  | bare => exact Nat.le_refl _

theorem utf8ByteSize_untabbed (t : String) : (untabbed t).utf8ByteSize = t.utf8ByteSize := by
  have hchar : ∀ c, (String.utf8EncodeChar (untab c)).length = (String.utf8EncodeChar c).length := by
    intro c
    rw [untab]
    split
    · next htab =>
      rw [htab]
      rfl
    · rfl
  rw [← Text.length_bytes, ← Text.length_bytes, Text.bytes_eq t, untabbed, Text.bytes_ofList,
    List.length_flatMap, List.length_flatMap, List.map_map]
  exact congrArg List.sum (List.map_congr_left fun c _ => hchar c)

theorem IsPlain.controlFree_untabbed (h : IsPlain t) : ControlFree (untabbed t) := by
  intro c hc
  rw [untabbed, String.toList_ofList, List.mem_map] at hc
  obtain ⟨d, hd, rfl⟩ := hc
  rw [untab]
  split
  · decide
  · next htab => exact Bool.eq_false_iff.2 fun hcontrol => htab (h d hd hcontrol)

theorem IsPlain.lineFeed_notMem (h : IsPlain t) : '\n' ∉ t.toList :=
  fun hmem => absurd (h '\n' hmem (by decide)) (by decide)

theorem isPlain_of_controlFree (h : ControlFree t) : IsPlain t := by
  intro c hc hcontrol
  rw [h c hc] at hcontrol
  cases hcontrol

theorem untabbed_of_controlFree (h : ControlFree t) : untabbed t = t := by
  have hkept : ∀ c ∈ t.toList, untab c = id c := by
    intro c hc
    refine if_neg fun htab => ?_
    have hcontrol := h c hc
    rw [htab] at hcontrol
    exact absurd hcontrol (by decide)
  rw [untabbed, List.map_congr_left hkept, List.map_id, String.ofList_toList]

theorem IsPlain.unended_eq (h : IsPlain t) : unended t = t := by
  rw [unended, withoutLineEnd_of_free h.lineFeed_notMem, String.ofList_toList]

/-! ## The outcomes -/

theorem isPlain_unended_iff : IsPlain (unended line) ↔
    ((withoutLineEnd line.toList).any fun c => c != '\t' && Text.isControl c) = false := by
  rw [IsPlain, unended, String.toList_ofList, List.any_eq_false]
  refine forall₂_congr fun c _ => ?_
  rw [Bool.and_eq_true, bne_iff_ne, not_and]
  exact ⟨fun h htab hcontrol => htab (h hcontrol), fun h hcontrol => not_not.1 fun htab =>
    h htab hcontrol⟩

/-- The line is played without its line end and with spaces for its tabs, unless it is too long, or
what is left of it is not plain. -/
theorem clean_eq (line : String) (limit : Nat) :
    clean line limit =
      if limit < line.utf8ByteSize then .error (.tooLong limit)
      else if IsPlain (unended line) then .ok (untabbed (unended line))
      else .error .controlCharacters := by
  have huntabbed : String.ofList ((withoutLineEnd line.toList).map untab) =
      untabbed (unended line) := by
    rw [untabbed, unended, String.toList_ofList]
  rw [clean]
  dsimp only
  rw [huntabbed]
  split
  · rfl
  · by_cases hplain : IsPlain (unended line)
    · rw [if_pos hplain, isPlain_unended_iff.1 hplain]
      rfl
    · have hany := eq_true_of_ne_false (mt isPlain_unended_iff.2 hplain)
      rw [if_neg hplain, if_pos hany]

theorem clean_of_lt (h : limit < t.utf8ByteSize) : clean t limit = .error (.tooLong limit) := by
  rw [clean_eq, if_pos h]

theorem clean_of_not_isPlain (hsize : ¬ limit < t.utf8ByteSize) (h : ¬ IsPlain (unended t)) :
    clean t limit = .error .controlCharacters := by
  rw [clean_eq, if_neg hsize, if_neg h]

theorem clean_of_isPlain (hsize : t.utf8ByteSize ≤ limit) (h : IsPlain (unended t)) :
    clean t limit = .ok (untabbed (unended t)) := by
  rw [clean_eq, if_neg (Nat.not_lt.2 hsize), if_pos h]

theorem IsPlain.clean_eq (h : IsPlain t) (hsize : t.utf8ByteSize ≤ limit) :
    clean t limit = .ok (untabbed t) := by
  have hplain : IsPlain (unended t) := h.unended_eq.symm ▸ h
  rw [clean_of_isPlain hsize hplain, h.unended_eq]

theorem clean_eq_tooLong {m : Nat} :
    clean line limit = .error (.tooLong m) ↔ m = limit ∧ limit < line.utf8ByteSize := by
  rw [clean_eq]
  split
  · next hlong => simp [hlong, eq_comm]
  · next hshort =>
    split
    · simp [hshort]
    · simp [hshort]

theorem clean_eq_controlCharacters :
    clean line limit = .error .controlCharacters ↔
      line.utf8ByteSize ≤ limit ∧ ¬ IsPlain (unended line) := by
  rw [clean_eq]
  split
  · next hlong => simp [Nat.not_le.2 hlong]
  · next hshort =>
    split
    · next hplain => simp [hplain]
    · next hplain => simp [hplain, Nat.not_lt.1 hshort]

theorem clean_eq_ok :
    clean line limit = .ok out ↔
      line.utf8ByteSize ≤ limit ∧ IsPlain (unended line) ∧ out = untabbed (unended line) := by
  rw [clean_eq]
  split
  · next hlong => simp [Nat.not_le.2 hlong]
  · next hshort =>
    split
    · next hplain => simp [hplain, Nat.not_lt.1 hshort, eq_comm]
    · next hplain => simp [hplain]

theorem Playable.controlFree (h : Playable line) : ControlFree line := by
  obtain ⟨raw, limit, hclean⟩ := h
  obtain ⟨-, hplain, rfl⟩ := clean_eq_ok.1 hclean
  exact hplain.controlFree_untabbed

theorem utf8ByteSize_le_of_clean (h : clean line limit = .ok out) : out.utf8ByteSize ≤ limit := by
  obtain ⟨hsize, -, rfl⟩ := clean_eq_ok.1 h
  calc (untabbed (unended line)).utf8ByteSize
    _ = (unended line).utf8ByteSize := utf8ByteSize_untabbed _
    _ ≤ line.utf8ByteSize := utf8ByteSize_unended_le line
    _ ≤ limit := hsize

/-- What may be played may be played as it stands. -/
theorem clean_of_clean (h : clean line limit = .ok out) : clean out limit = .ok out := by
  have hfree : ControlFree out := Playable.controlFree ⟨line, limit, h⟩
  have hclean := (isPlain_of_controlFree hfree).clean_eq (utf8ByteSize_le_of_clean h)
  rw [untabbed_of_controlFree hfree] at hclean
  exact hclean

theorem words_of_clean (h : clean line limit = .ok out) : Text.words out = Text.words line := by
  obtain ⟨-, -, rfl⟩ := clean_eq_ok.1 h
  rw [words_untabbed, words_unended]

/-- **Exactly the safe lines are accepted, and their commands stay.**  A line is refused as too long
exactly if it has more bytes than the limit.  Any other line has one body, which is the line up to a
line end after it; the line is refused for its control characters exactly if the body holds one that
is not a tab, and accepted as the body with spaces for its tabs if it holds none.  What a line is
accepted as is within the limit and without control characters, is accepted as it stands, and is the
command that the line is. -/
theorem clean_iff (line : String) (limit : Nat) :
    (∀ m, clean line limit = .error (.tooLong m) ↔ m = limit ∧ limit < line.utf8ByteSize) ∧
    (∃ body, (∀ other, HasBody line other ↔ other = body) ∧
      (clean line limit = .error .controlCharacters ↔ line.utf8ByteSize ≤ limit ∧
        ∃ c ∈ body.toList, Text.isControl c = true ∧ c ≠ '\t') ∧
      ∀ out, clean line limit = .ok out ↔ line.utf8ByteSize ≤ limit ∧
        (∀ c ∈ body.toList, Text.isControl c = true → c = '\t') ∧
        out = String.ofList (body.toList.map fun c => if c = '\t' then ' ' else c)) ∧
    ∀ out, clean line limit = .ok out →
      out.utf8ByteSize ≤ limit ∧ ControlFree out ∧ clean out limit = .ok out ∧
      Command.ofLine? out = Command.ofLine? line := by
  refine ⟨fun m => clean_eq_tooLong, ⟨unended line, ?_, ?_, fun out => clean_eq_ok⟩, ?_⟩
  · intro other
    rw [← unended_eq_iff]
    exact eq_comm
  · rw [clean_eq_controlCharacters, IsPlain]
    simp only [not_forall, exists_prop]
  · intro out h
    exact ⟨utf8ByteSize_le_of_clean h, Playable.controlFree ⟨line, limit, h⟩, clean_of_clean h,
      Command.ofLine?_of_words (words_of_clean h)⟩

/-- A carriage return that is not part of the line end is a control character. -/
example : clean "ls\r\r\n" 64 = .error .controlCharacters ∧ clean "ls\t-a\r\n" 64 = .ok "ls -a" := by
  decide +kernel

end ShellQuest.InputLine
