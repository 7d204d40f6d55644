/-
# Texts that are too long

A client that sends a text is cut off at its first line that does not fit into a frame, and nowhere
else.  Whether it is told so hangs on where the cap falls: between two characters the frame is read
and refused; inside a character what is left of the line is no text, and the connection ends without
a word.
-/
import ShellQuest.Proofs.Relay.Trace

namespace ShellQuest.Relay

open Text (lineFeed fullLines IsUtf8)

variable {limit : Nat} {bytes line : List UInt8} {lines : List (List UInt8)}

/-- The line does not fit into a frame: it is longer than the cap, or it is as long and has no line
feed that ends the frame. -/
def isOverlong (limit : Nat) (line : List UInt8) : Bool :=
  frameCap limit < line.length || (line.length = frameCap limit && line.getLast? != some lineFeed)

theorem isOverlong_iff : isOverlong limit line = true ↔
    frameCap limit < line.length ∨
      (line.length = frameCap limit ∧ line.getLast? ≠ some lineFeed) := by
  rw [isOverlong]
  simp

/-! ## Lines that are texts -/

theorem isFatal_iff_isOverlong (limit : Nat) (hutf8 : IsUtf8 line) (hline : lineFeed ∉ line.dropLast) :
    (Frame.ofBytes limit (line.take (frameCap limit))).isFatal = true ↔
      isOverlong limit line = true := by
  rw [isOverlong_iff]
  by_cases hlong : frameCap limit < line.length
  · refine ⟨fun _ => .inl hlong, fun _ => ?_⟩
    by_contra hcalm
    have hfits := fits_of_calm hline (by simpa using hcalm)
    omega
  · have htake : line.take (frameCap limit) = line := List.take_of_length_le (by omega)
    rw [htake, Frame.isFatal_iff]
    constructor
    · rintro (hbad | ⟨hlast, hlength⟩)
      · exact absurd hutf8 hbad
      · exact .inr ⟨hlength, hlast⟩
    · rintro (hlonger | ⟨hlength, hlast⟩)
      · exact absurd hlonger hlong
      · exact .inr ⟨hlast, hlength⟩

namespace Connection

/-- What ends the connection is the first line that does not fit. -/
theorem mem_reached_iff {kind : Frame} (hkind : kind.isFatal = true)
    (hlines : ∀ line ∈ lines, IsUtf8 line ∧ lineFeed ∉ line.dropLast) :
    kind ∈ (reached limit lines).map (Frame.ofBytes limit) ↔
      ∃ line, lines.find? (isOverlong limit) = some line ∧
        Frame.ofBytes limit (line.take (frameCap limit)) = kind := by
  induction lines with
  | nil => simp [reached]
  | cons line lines ih =>
      obtain ⟨⟨hutf8, hline⟩, hlines⟩ := List.forall_mem_cons.1 hlines
      have hfatal := isFatal_iff_isOverlong limit hutf8 hline
      rw [reached, List.map_cons, List.mem_cons]
      by_cases hlong : isOverlong limit line = true
      · rw [if_pos (hfatal.2 hlong), List.find?_cons_of_pos hlong]
        constructor
        · rintro (rfl | hmem)
          · exact ⟨line, rfl, rfl⟩
          · cases hmem
        · rintro ⟨_, h, rfl⟩
          cases h
          exact .inl rfl
      · have hcalm : ¬ (Frame.ofBytes limit (line.take (frameCap limit))).isFatal = true :=
          fun h => hlong (hfatal.1 h)
        rw [if_neg hcalm, List.find?_cons_of_neg hlong, ih hlines]
        constructor
        · rintro (rfl | h)
          · exact absurd hkind hcalm
          · exact h
        · exact .inr

/-! ## Replies -/

theorem tooLong_notMem_asked (limit : Nat) (requests : List String) :
    Reply.requestTooLong ∉ (asked limit requests).replies := by
  refine asked_invariant (P := fun c => Reply.requestTooLong ∉ c.replies) ?_ List.not_mem_nil
    requests
  intro c request hc
  obtain ⟨reply, hreply, hreplies⟩ := answer_replies limit c request
  rw [hreplies, List.mem_append, List.mem_singleton, not_or]
  exact ⟨hc, hreply.symm⟩

theorem tooLong_mem_replies (limit : Nat) (bytes : List UInt8) :
    Reply.requestTooLong ∈ (run limit bytes).replies ↔
      .cut ∈ (start.frames limit bytes).map (Frame.ofBytes limit) := by
  have hasked := tooLong_notMem_asked limit (requests limit (start.frames limit bytes))
  rw [run_eq_asked]
  show Reply.requestTooLong ∈ _ ++ refusal limit (start.frames limit bytes) ↔ _
  rw [List.mem_append, refusal]
  split
  · next hcut => exact ⟨fun _ => hcut, fun _ => .inr List.mem_cons_self⟩
  · next hcut =>
    refine ⟨fun h => ?_, fun h => absurd h hcut⟩
    rcases h with h | h
    · exact absurd h hasked
    · cases h

theorem ending_eq_invalidData (limit : Nat) (bytes : List UInt8) :
    (run limit bytes).ending = some .invalidData ↔
      .noText ∈ (start.frames limit bytes).map (Frame.ofBytes limit) := by
  rw [run_eq_asked]
  show some (endingOf limit (start.frames limit bytes)) = _ ↔ _
  rw [endingOf]
  split
  · next h => exact ⟨fun _ => h, fun _ => rfl⟩
  · next h => exact ⟨fun he => (by cases he), fun hmem => absurd hmem h⟩

theorem ending_eq_finished (limit : Nat) (bytes : List UInt8) :
    (run limit bytes).ending = some .finished ↔ ¬ (run limit bytes).ending = some .invalidData := by
  rw [run_eq_asked]
  show some (endingOf limit (start.frames limit bytes)) = _ ↔
    ¬ some (endingOf limit (start.frames limit bytes)) = _
  cases endingOf limit (start.frames limit bytes) with
  | finished => decide
  | invalidData => decide

/-- A refusal is the last reply, and the only one. -/
theorem exists_earlier (limit : Nat) (bytes : List UInt8)
    (h : Reply.requestTooLong ∈ (run limit bytes).replies) :
    ∃ earlier, (run limit bytes).replies = earlier ++ [Reply.requestTooLong] ∧
      Reply.requestTooLong ∉ earlier := by
  rw [tooLong_mem_replies] at h
  refine ⟨_, ?_, tooLong_notMem_asked limit (requests limit (start.frames limit bytes))⟩
  rw [run_eq_asked, refusal, if_pos h]

/-! ## Texts -/

/-- The first line of a text that does not fit into a frame. -/
def overlongLine (limit : Nat) (text : String) : Option (List UInt8) :=
  (fullLines (Text.bytes text)).find? (isOverlong limit)

/-- What a client would expect: the connection finishes, and a request is refused as too long exactly
if there is a line longer than the cap. -/
def RefusesLonger (limit : Nat) (text : String) : Prop :=
  (run limit (Text.bytes text)).ending = some .finished ∧
    (Reply.requestTooLong ∈ (run limit (Text.bytes text)).replies ↔
      ∃ line ∈ fullLines (Text.bytes text), frameCap limit < line.length)

variable {text : String}

theorem mem_frames_iff {kind : Frame} (hkind : kind.isFatal = true) :
    kind ∈ (start.frames limit (Text.bytes text)).map (Frame.ofBytes limit) ↔
      ∃ line, overlongLine limit text = some line ∧
        Frame.ofBytes limit (line.take (frameCap limit)) = kind := by
  rw [frames_eq_reached]
  apply mem_reached_iff hkind
  intro line hmem
  exact ⟨Text.isUtf8_of_mem_fullLines hmem, Text.single_of_mem_fullLines hmem⟩

theorem ofBytes_overlongLine (h : overlongLine limit text = some line) :
    Frame.ofBytes limit (line.take (frameCap limit)) = .cut ↔
      IsUtf8 (line.take (frameCap limit)) := by
  have hmem : line ∈ fullLines (Text.bytes text) := List.mem_of_find?_eq_some h
  have hlong : isOverlong limit line = true := List.find?_some h
  have hfatal := (isFatal_iff_isOverlong limit (Text.isUtf8_of_mem_fullLines hmem)
    (Text.single_of_mem_fullLines hmem)).2 hlong
  rw [Frame.ofBytes_eq_cut]
  refine ⟨fun h => h.1, fun hutf8 => ⟨hutf8, ?_⟩⟩
  rw [Frame.isFatal_iff] at hfatal
  rcases hfatal with hbad | hcut
  · exact absurd hutf8 hbad
  · exact hcut

/-- A line as long as the cap that does not fit is the last one, so no line is longer. -/
theorem longer_of_overlongLine (h : overlongLine limit text = some line)
    (hlonger : ∃ line ∈ fullLines (Text.bytes text), frameCap limit < line.length) :
    frameCap limit < line.length := by
  obtain ⟨hlong, first, rest, hsplit, hfirst⟩ := List.find?_eq_some_iff_append.1 h
  rcases isOverlong_iff.1 hlong with hlength | ⟨-, hlast⟩
  · exact hlength
  · obtain ⟨longer, hmem, hlength⟩ := hlonger
    have hnothing : rest.flatten = [] :=
      (Text.isLine_of_fullLines hsplit).ends.resolve_left hlast
    rw [hsplit, List.mem_append, List.mem_cons] at hmem
    rcases hmem with hmem | rfl | hmem
    · have hfits := hfirst longer hmem
      rw [Bool.not_eq_true', ← Bool.not_eq_true, isOverlong_iff] at hfits
      exact absurd (.inl hlength) hfits
    · exact hlength
    · rw [List.flatten_eq_nil_iff.1 hnothing longer hmem] at hlength
      cases hlength

/-- **A text is cut off at its first line that does not fit, and refused unless the cap falls inside
a character.**  The refusal is the last reply.  So a client gets what it would expect as long as
its first line that does not fit is longer than the cap and is cut between two characters. -/
theorem refusal_of_text (limit : Nat) (text : String) :
    ((run limit (Text.bytes text)).ending = some .invalidData ↔
        ∃ line, overlongLine limit text = some line ∧ ¬ IsUtf8 (line.take (frameCap limit))) ∧
      ((run limit (Text.bytes text)).ending = some .finished ↔
        ∀ line, overlongLine limit text = some line → IsUtf8 (line.take (frameCap limit))) ∧
      (Reply.requestTooLong ∈ (run limit (Text.bytes text)).replies ↔
        ∃ line, overlongLine limit text = some line ∧ IsUtf8 (line.take (frameCap limit))) ∧
      (Reply.requestTooLong ∈ (run limit (Text.bytes text)).replies →
        ∃ earlier, (run limit (Text.bytes text)).replies = earlier ++ [Reply.requestTooLong] ∧
          Reply.requestTooLong ∉ earlier) ∧
      (RefusesLonger limit text ↔ ∀ line, overlongLine limit text = some line →
        IsUtf8 (line.take (frameCap limit)) ∧ frameCap limit < line.length) := by
  have hinvalid : (run limit (Text.bytes text)).ending = some .invalidData ↔
      ∃ line, overlongLine limit text = some line ∧ ¬ IsUtf8 (line.take (frameCap limit)) := by
    rw [ending_eq_invalidData, mem_frames_iff rfl]
    simp only [Frame.ofBytes_eq_noText]
  have hfinished : (run limit (Text.bytes text)).ending = some .finished ↔
      ∀ line, overlongLine limit text = some line → IsUtf8 (line.take (frameCap limit)) := by
    rw [ending_eq_finished, hinvalid]
    simp only [not_exists, not_and, not_not]
  have hrefused : Reply.requestTooLong ∈ (run limit (Text.bytes text)).replies ↔
      ∃ line, overlongLine limit text = some line ∧ IsUtf8 (line.take (frameCap limit)) := by
    rw [tooLong_mem_replies, mem_frames_iff rfl]
    constructor
    · rintro ⟨line, hline, hcut⟩
      exact ⟨line, hline, (ofBytes_overlongLine hline).1 hcut⟩
    · rintro ⟨line, hline, hutf8⟩
      exact ⟨line, hline, (ofBytes_overlongLine hline).2 hutf8⟩
  refine ⟨hinvalid, hfinished, hrefused, exists_earlier limit _, ?_⟩
  constructor
  · rintro ⟨hends, hlonger⟩ line hline
    have hutf8 := hfinished.1 hends line hline
    exact ⟨hutf8, longer_of_overlongLine hline (hlonger.1 (hrefused.2 ⟨line, hline, hutf8⟩))⟩
  · intro hcuts
    refine ⟨hfinished.2 fun line hline => (hcuts line hline).1, ?_⟩
    rw [hrefused]
    constructor
    · rintro ⟨line, hline, -⟩
      exact ⟨line, List.mem_of_find?_eq_some hline, (hcuts line hline).2⟩
    · rintro ⟨longer, hmem, hlength⟩
      have hsome : (overlongLine limit text).isSome = true := by
        rw [overlongLine, List.find?_isSome]
        exact ⟨longer, hmem, isOverlong_iff.2 (.inl hlength)⟩
      obtain ⟨line, hline⟩ := Option.isSome_iff_exists.1 hsome
      exact ⟨line, hline, (hcuts line hline).1⟩

/-- A line that is cut inside a character ends the connection without a reply, and a last line that
just fills a frame is refused although it is not longer. -/
theorem not_refusesLonger :
    ¬ RefusesLonger 16 (String.ofList (List.replicate 63 'a' ++ ['é', '\n'])) ∧
      (run 16 (Text.bytes (String.ofList (List.replicate 63 'a' ++ ['é', '\n'])))).replies = [] ∧
      ¬ RefusesLonger 16 ("\x7b\"command\":\"ls\"\x7d".pushn ' ' 48) := by
  refine ⟨fun h => ?_, by decide +kernel, fun h => ?_⟩
  · have hends : (run 16 (Text.bytes
        (String.ofList (List.replicate 63 'a' ++ ['é', '\n'])))).ending = some .invalidData := by
      decide +kernel
    have hfinished := h.1
    rw [hends] at hfinished
    cases hfinished
  · have hrefused : Reply.requestTooLong ∈
        (run 16 (Text.bytes ("\x7b\"command\":\"ls\"\x7d".pushn ' ' 48))).replies := by
      decide +kernel
    have hfit : ∀ line ∈ fullLines (Text.bytes ("\x7b\"command\":\"ls\"\x7d".pushn ' ' 48)),
        line.length ≤ frameCap 16 := by
      decide +kernel
    obtain ⟨line, hline, hlength⟩ := h.2.1 hrefused
    have hle := hfit line hline
    omega

end Connection

end ShellQuest.Relay
