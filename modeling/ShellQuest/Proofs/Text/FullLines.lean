/-
# Lines with their ends

Bytes cut right after each line feed.  What follows the last line feed is a line as well, unless
there is nothing.  Proofs go through bytes line by line (`line_induction`): either no line feed is
left, or there is a first one.
-/
import ShellQuest.Text.Basic
import Mathlib.Data.List.Basic

namespace ShellQuest.Text

/-- The lines of some bytes, each with the line feed that ends it. -/
def fullLines : List UInt8 → List (List UInt8)
  | [] => []
  | byte :: bytes =>
      if byte = lineFeed then [byte] :: fullLines bytes
      else
        match fullLines bytes with
        | [] => [[byte]]
        | line :: lines => (byte :: line) :: lines

/-- `line` is a complete line where it stands: it starts at the start of everything or after a line
feed, it ends with its first line feed or with the end of everything, and it is not empty. -/
structure IsLine (before line after : List UInt8) : Prop where
  starts : before = [] ∨ before.getLast? = some lineFeed
  ends : line.getLast? = some lineFeed ∨ after = []
  single : lineFeed ∉ line.dropLast
  ne_nil : line ≠ []

variable {body bytes line : List UInt8} {first rest : List (List UInt8)}

theorem fullLines_append (h : lineFeed ∉ body) (hne : body ≠ []) (rest : List UInt8) :
    fullLines (body ++ rest) =
      match fullLines rest with
      | [] => [body]
      | line :: lines => (body ++ line) :: lines := by
  induction body with
  | nil => exact absurd rfl hne
  | cons byte body ih =>
      rw [List.mem_cons, not_or] at h
      obtain ⟨hbyte, hbody⟩ := h
      rw [List.cons_append, fullLines, if_neg (Ne.symm hbyte)]
      cases body with
      | nil =>
          rw [List.nil_append]
          rfl
      | cons next body =>
          rw [ih hbody (List.cons_ne_nil _ _)]
          cases fullLines rest with
          | nil => rfl
          | cons line lines => rfl

theorem fullLines_open (h : lineFeed ∉ body) (hne : body ≠ []) : fullLines body = [body] := by
  have happend := fullLines_append h hne []
  rw [List.append_nil] at happend
  exact happend

theorem fullLines_line (h : lineFeed ∉ body) (bytes : List UInt8) :
    fullLines (body ++ lineFeed :: bytes) = (body ++ [lineFeed]) :: fullLines bytes := by
  have hfeed : fullLines (lineFeed :: bytes) = [lineFeed] :: fullLines bytes := by
    rw [fullLines, if_pos rfl]
  by_cases hne : body = []
  · rw [hne, List.nil_append, hfeed, List.nil_append]
  · rw [fullLines_append h hne, hfeed]

/-- Bytes hold no line feed, or there is a first one. -/
theorem line_induction {P : List UInt8 → Prop} (hopen : ∀ tail, lineFeed ∉ tail → P tail)
    (hline : ∀ body rest, lineFeed ∉ body → P rest → P (body ++ lineFeed :: rest))
    (bytes : List UInt8) : P bytes := by
  induction hlength : bytes.length using Nat.strongRecOn generalizing bytes with
  | ind n ih =>
      by_cases hmem : lineFeed ∈ bytes
      · obtain ⟨body, rest, rfl, hbody⟩ := List.eq_append_cons_of_mem hmem
        have hshorter : rest.length < n := by
          rw [← hlength, List.length_append, List.length_cons]
          omega
        exact hline body rest hbody (ih rest.length hshorter rest rfl)
      · exact hopen bytes hmem

theorem flatten_fullLines (bytes : List UInt8) : (fullLines bytes).flatten = bytes := by
  induction bytes using line_induction with
  | hopen tail htail =>
      cases tail with
      | nil => rfl
      | cons byte tail =>
          rw [fullLines_open htail (List.cons_ne_nil _ _), List.flatten_singleton]
  | hline body rest hbody ih =>
      rw [fullLines_line hbody, List.flatten_cons, ih, List.append_assoc, List.singleton_append]

theorem isLine_of_fullLines (h : fullLines bytes = first ++ line :: rest) :
    IsLine first.flatten line rest.flatten := by
  induction bytes using line_induction generalizing first with
  | hopen tail htail =>
      by_cases hne : tail = []
      · subst hne
        exact absurd h (by simp [fullLines])
      · rw [fullLines_open htail hne] at h
        cases first with
        | nil =>
            cases h
            exact ⟨.inl rfl, .inr rfl, fun hmem => htail (List.dropLast_subset _ hmem), hne⟩
        | cons _ first => exact absurd h (by simp)
  | hline body later hbody ih =>
      rw [fullLines_line hbody] at h
      cases first with
      | nil =>
          cases h
          refine ⟨.inl rfl, .inl List.getLast?_concat, ?_, by simp⟩
          rw [List.dropLast_concat]
          exact hbody
      | cons head first =>
          rw [List.cons_append, List.cons.injEq] at h
          obtain ⟨rfl, hlater⟩ := h
          obtain ⟨hstarts, hends, hsingle, hne⟩ := ih hlater
          refine ⟨.inr ?_, hends, hsingle, hne⟩
          rw [List.flatten_cons, List.getLast?_append]
          rcases hstarts with hnil | hlast
          · rw [hnil, List.getLast?_concat]
            rfl
          · rw [hlast]
            rfl

theorem single_of_mem_fullLines (h : line ∈ fullLines bytes) : lineFeed ∉ line.dropLast := by
  obtain ⟨first, rest, hsplit⟩ := List.append_of_mem h
  exact (isLine_of_fullLines hsplit).single

/-! ## Lines without their ends -/

variable {b : UInt8}

theorem mem_of_mem_endedLine (h : b ∈ endedLine line) : b ∈ line := by
  cases line with
  | nil => exact h
  | cons first line =>
      rw [endedLine] at h
      split at h
      · exact List.mem_cons_of_mem first (List.mem_reverse.1 h)
      · exact List.mem_reverse.1 h

theorem mem_of_mem_linesAfter {held : List UInt8} (hline : line ∈ linesAfter held bytes)
    (hb : b ∈ line) : b ∈ held ∨ b ∈ bytes := by
  induction bytes generalizing held with
  | nil =>
      rw [linesAfter] at hline
      split at hline
      · cases hline
      · rw [List.mem_singleton.1 hline, List.mem_reverse] at hb
        exact .inl hb
  | cons byte bytes ih =>
      rw [linesAfter] at hline
      split at hline
      · rcases List.mem_cons.1 hline with rfl | hline
        · exact .inl (mem_of_mem_endedLine hb)
        · rcases ih hline with hheld | hbytes
          · cases hheld
          · exact .inr (List.mem_cons_of_mem byte hbytes)
      · rcases ih hline with hheld | hbytes
        · rcases List.mem_cons.1 hheld with rfl | hheld
          · exact .inr List.mem_cons_self
          · exact .inl hheld
        · exact .inr (List.mem_cons_of_mem byte hbytes)

theorem mem_of_mem_lines (hline : line ∈ lines bytes) (hb : b ∈ line) : b ∈ bytes := by
  rcases mem_of_mem_linesAfter hline hb with h | h
  · cases h
  · exact h

end ShellQuest.Text
