/-
# Marked texts

A text is marked if it is put together from whole escape sequences and, between them, characters of
one kind, none of which is the escape character.  So an escape character in it always starts one of
these sequences, stripping it leaves the characters between them, also where it stands among other
texts, and it wipes the screen only if a sequence for that is in it.  The texts that commands show are
coloured: marked with the sequences of colour spans alone.  The kind of the characters is open: they
are the printed ones if the player's lines are clean, and all but the escape character in general.
-/
import ShellQuest.Proofs.Markup.Strip
import ShellQuest.Proofs.Text.ControlFree

namespace ShellQuest.Markup

open Text (isControl Printed All)

/-- The sequences that open and end colour spans. -/
def colours : List String := ["\x1b[31m", "\x1b[32m", "\x1b[34m", "\x1b[0m"]

/-- The sequences of the game: the colours, and the two that wipe the screen. -/
def sequences : List String := colours ++ ["\x1b[2J", "\x1b[H"]

/-- The characters of this kind can stand between sequences: the printed ones are among them, and the
escape character is not. -/
structure Ink (p : Char → Prop) : Prop where
  plain : Text.Plain p
  ne_escape : ∀ c, p c → c ≠ '\x1b'

/-- `Marked p known s`: `s` is put together from characters that satisfy `p`, without the escape
character, and sequences out of `known`. -/
inductive Marked (p : Char → Prop) (known : List String) : List Char → Prop
  | nil : Marked p known []
  | char {c : Char} {s : List Char} : p c → c ≠ '\x1b' → Marked p known s → Marked p known (c :: s)
  | sequence {q : String} {s : List Char} : q ∈ known → Marked p known s →
      Marked p known (q.toList ++ s)

/-- The text is marked with colours at most. -/
def Coloured (p : Char → Prop) (t : String) : Prop := Marked p colours t.toList

variable {p : Char → Prop} {known more : List String} {s r before after : List Char} {c : Char}
  {t u : String}

theorem ink_printed : Ink fun c => isControl c = true → c = '\n' where
  plain _ hc := hc
  ne_escape c hc := by
    rintro rfl
    exact absurd (hc (by decide)) (by decide)

theorem ink_ne_escape : Ink (· ≠ '\x1b') where
  plain c hc := ink_printed.ne_escape c hc
  ne_escape _ hc := hc

/-- A fixed text, by a check of its characters. -/
theorem Ink.fixed (hp : Ink p) {chars : List Char} (ht : t = String.ofList chars)
    (h : (chars.all fun c => !isControl c || c == '\n') = true) : All p t :=
  (Text.printed_of_chars ht h).all hp.plain

/-! ## Texts put together -/

namespace Marked

theorem append (hs : Marked p known s) (hr : Marked p known r) : Marked p known (s ++ r) := by
  induction hs with
  | nil => exact hr
  | char hc hne _ ih => exact .char hc hne ih
  | sequence hq _ ih =>
      rw [List.append_assoc]
      exact .sequence hq ih

theorem mono (hsub : known ⊆ more) (h : Marked p known s) : Marked p more s := by
  induction h with
  | nil => exact .nil
  | char hc hne _ ih => exact .char hc hne ih
  | sequence hq _ ih => exact .sequence (hsub hq) ih

theorem of_all (hp : Ink p) (h : ∀ c ∈ s, p c) : Marked p known s := by
  induction s with
  | nil => exact .nil
  | cons c s ih =>
      obtain ⟨hc, hs⟩ := List.forall_mem_cons.1 h
      exact .char hc (hp.ne_escape c hc) (ih hs)

theorem of_mem {q : String} (hq : q ∈ known) : Marked p known q.toList := by
  have h : Marked p known (q.toList ++ []) := .sequence hq .nil
  rwa [List.append_nil] at h

end Marked

theorem Coloured.append (ht : Coloured p t) (hu : Coloured p u) : Coloured p (t ++ u) := by
  rw [Coloured, String.toList_append]
  exact Marked.append ht hu

theorem Ink.coloured (hp : Ink p) (h : All p t) : Coloured p t := Marked.of_all hp h

theorem Ink.coloured_span (hp : Ink p) {opened : String} (hopened : opened ∈ colours) (h : All p t) :
    Coloured p (opened ++ t ++ Markup.plain) := by
  have hclosed : Markup.plain ∈ colours := by decide
  exact Coloured.append (.append (Marked.of_mem hopened) (hp.coloured h)) (Marked.of_mem hclosed)

theorem Ink.coloured_directory (hp : Ink p) (h : All p t) : Coloured p (directory t) :=
  hp.coloured_span (by decide) h

theorem Ink.coloured_success (hp : Ink p) (h : All p t) : Coloured p (success t) :=
  hp.coloured_span (by decide) h

theorem Ink.coloured_error (hp : Ink p) (h : All p t) : Coloured p (error t) :=
  hp.coloured_span (by decide) h

/-! ## Escape characters -/

/-- The escape character is the first character of a sequence and no other. -/
theorem exists_tail_of_mem_sequences :
    ∀ q ∈ sequences, q.toList = '\x1b' :: q.toList.tail ∧ '\x1b' ∉ q.toList.tail := by
  decide

theorem Marked.exists_sequence (hknown : known ⊆ sequences) (h : Marked p known s)
    (heq : s = before ++ '\x1b' :: after) : ∃ q ∈ known, q.toList <+: '\x1b' :: after := by
  induction h generalizing before with
  | nil => simp at heq
  | @char c s _ hne _ ih =>
      cases before with
      | nil =>
          rw [List.nil_append, List.cons.injEq] at heq
          exact absurd heq.1 hne
      | cons b before =>
          rw [List.cons_append, List.cons.injEq] at heq
          exact ih heq.2
  | @sequence q s hq _ ih =>
      obtain ⟨hq', hno⟩ := exists_tail_of_mem_sequences q (hknown hq)
      cases before with
      | nil => exact ⟨q, hq, s, heq⟩
      | cons b before =>
          rw [hq', List.cons_append, List.cons_append, List.cons.injEq] at heq
          -- the escape character lies behind the sequence, or it would be in its tail
          rcases List.append_eq_append_iff.1 heq.2 with ⟨between, -, hs⟩ | ⟨between, htail, hs⟩
          · exact ih hs
          · cases between with
            | nil =>
                have hstart : s = [] ++ '\x1b' :: after := hs.symm
                exact ih hstart
            | cons d between =>
                rw [List.cons_append, List.cons.injEq] at hs
                rw [htail, ← hs.1] at hno
                exact absurd (List.mem_append_right _ List.mem_cons_self) hno

/-! ## Stripping -/

theorem visible_sequence {q : String} (hq : q ∈ sequences) (s : List Char) :
    visible (q.toList ++ s) = visible s := by
  simp only [sequences, colours, List.cons_append, List.nil_append, List.mem_cons,
    List.not_mem_nil, or_false] at hq
  rcases hq with rfl | rfl | rfl | rfl | rfl | rfl
  · rfl
  · rfl
  · rfl
  · rfl
  · rfl
  · rfl

/-- What is left of a marked text without its sequences are the characters between them. -/
theorem Marked.all_visible (h : Marked p sequences s) : ∀ c ∈ visible s, p c := by
  induction h with
  | nil =>
      intro c hc
      rw [visible] at hc
      cases hc
  | char hc hne _ ih =>
      rw [visible_cons hne]
      exact List.forall_mem_cons.2 ⟨hc, ih⟩
  | sequence hq _ ih =>
      rw [visible_sequence hq]
      exact ih

/-- A marked text is stripped by itself, whatever comes after it. -/
theorem Marked.visible_append (h : Marked p sequences s) (rest : List Char) :
    visible (s ++ rest) = visible s ++ visible rest := by
  induction h with
  | nil => rw [List.nil_append, visible, List.nil_append]
  | char hc hne _ ih => rw [List.cons_append, visible_cons hne, visible_cons hne, ih, List.cons_append]
  | sequence hq _ ih => rw [List.append_assoc, visible_sequence hq, visible_sequence hq, ih]

/-! ## Wiping the screen -/

theorem Coloured.clearsScreen (h : Coloured p t) : Markup.clearsScreen t = false := by
  rw [Markup.clearsScreen, Text.startsWith]
  have h : Marked p colours t.toList := h
  generalize t.toList = s at h
  cases h with
  | nil => rfl
  | char _ hne _ =>
      have hstart : clearScreen.toList = '\x1b' :: clearScreen.toList.tail := by decide
      rw [hstart, List.isPrefixOf, beq_false_of_ne hne.symm, Bool.false_and]
  | sequence hq _ =>
      simp only [colours, List.mem_cons, List.not_mem_nil, or_false] at hq
      rcases hq with rfl | rfl | rfl | rfl
      · rfl
      · rfl
      · rfl
      · rfl

end ShellQuest.Markup
