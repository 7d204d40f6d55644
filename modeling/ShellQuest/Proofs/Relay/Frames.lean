/-
# Frames

What the bytes of a complete frame turn out to be, and what a connection becomes when it takes them.
A frame that is no text, or that is cut at the cap, ends the connection; any other leaves it ready
for the next one.  A line is taken as a frame of at most the cap (`takeLine`), so that a line which
leaves the connection open is one that was taken whole (`eq_of_calm`).
-/
import ShellQuest.Proofs.Text.Utf8
import ShellQuest.Relay.Connection

namespace ShellQuest.Relay

open Text (lineFeed fullLines IsUtf8)

/-! ## What a frame turns out to be -/

/-- A complete frame: it is no text, it is cut at the cap, it is blank, or it is a request. -/
inductive Frame where
  | noText
  | cut
  | blank
  | request (text : String)
deriving DecidableEq, Repr

namespace Frame

def ofBytes (limit : Nat) (bytes : List UInt8) : Frame :=
  match String.fromUTF8? ⟨bytes.toArray⟩ with
  | none => noText
  | some text =>
      if bytes.getLast? ≠ some lineFeed ∧ bytes.length = frameCap limit then cut
      else if (Text.trim text).isEmpty then blank else request (Text.trim text)

def isFatal : Frame → Bool
  | noText | cut => true
  | blank | request _ => false

end Frame

variable {limit : Nat} {bytes body line rest : List UInt8} {lines : List (List UInt8)}

theorem frameCap_pos (limit : Nat) : 0 < frameCap limit :=
  Nat.lt_of_lt_of_le (by decide) (Nat.le_max_left _ _)

namespace Frame

theorem ofBytes_eq_noText : ofBytes limit bytes = noText ↔ ¬ IsUtf8 bytes := by
  have hnone : String.fromUTF8? ⟨bytes.toArray⟩ = none ↔ ¬ IsUtf8 bytes := Text.fromUTF8?_eq_none
  rw [ofBytes]
  cases htext : String.fromUTF8? ⟨bytes.toArray⟩ with
  | none => exact ⟨fun _ => hnone.1 htext, fun _ => rfl⟩
  | some text =>
      have hutf8 : IsUtf8 bytes := ⟨text, Text.fromUTF8?_eq_some.1 htext⟩
      refine ⟨fun h => ?_, fun h => absurd hutf8 h⟩
      dsimp only at h
      split at h
      · cases h
      · split at h
        · cases h
        · cases h

theorem ofBytes_eq_cut : ofBytes limit bytes = cut ↔
    IsUtf8 bytes ∧ bytes.getLast? ≠ some lineFeed ∧ bytes.length = frameCap limit := by
  rw [ofBytes]
  cases htext : String.fromUTF8? ⟨bytes.toArray⟩ with
  | none =>
      refine ⟨fun h => (by cases h), fun h => ?_⟩
      exact absurd h.1 (Text.fromUTF8?_eq_none.1 htext)
  | some text =>
      have hutf8 : IsUtf8 bytes := ⟨text, Text.fromUTF8?_eq_some.1 htext⟩
      dsimp only
      split
      · next hcut => exact ⟨fun _ => ⟨hutf8, hcut⟩, fun _ => rfl⟩
      · next hcut =>
        refine ⟨fun h => ?_, fun h => absurd h.2 hcut⟩
        split at h
        · cases h
        · cases h

theorem exists_text_of_request {text : String} (h : ofBytes limit bytes = request text) :
    ∃ t, Text.bytes t = bytes ∧ Text.trim t = text := by
  rw [ofBytes] at h
  cases htext : String.fromUTF8? ⟨bytes.toArray⟩ with
  | none =>
      rw [htext] at h
      cases h
  | some t =>
      rw [htext] at h
      dsimp only at h
      split at h
      · cases h
      · split at h
        · cases h
        · cases h
          exact ⟨t, Text.fromUTF8?_eq_some.1 htext, rfl⟩

theorem isFatal_iff : (ofBytes limit bytes).isFatal = true ↔
    ¬ IsUtf8 bytes ∨ (bytes.getLast? ≠ some lineFeed ∧ bytes.length = frameCap limit) := by
  have hnoText : ofBytes limit bytes = noText ↔ _ := ofBytes_eq_noText
  have hcut : ofBytes limit bytes = cut ↔ _ := ofBytes_eq_cut
  cases hkind : ofBytes limit bytes with
  | noText => exact ⟨fun _ => .inl (hnoText.1 hkind), fun _ => rfl⟩
  | cut => exact ⟨fun _ => .inr (hcut.1 hkind).2, fun _ => rfl⟩
  | blank | request =>
      refine ⟨fun h => (by cases h), fun h => ?_⟩
      rw [hkind] at hnoText hcut
      by_cases hutf8 : IsUtf8 bytes
      · rcases h with hbad | hlast
        · exact absurd hutf8 hbad
        · cases hcut.2 ⟨hutf8, hlast⟩
      · cases hnoText.2 hutf8

theorem isFatal_of_cut (hfree : lineFeed ∉ bytes) (hlength : bytes.length = frameCap limit) :
    (ofBytes limit bytes).isFatal = true :=
  isFatal_iff.2 (.inr ⟨fun h => hfree (List.mem_of_getLast? h), hlength⟩)

end Frame

/-! ## Lines under the cap and over it -/

theorem take_line (hlength : body.length < frameCap limit) :
    (body ++ [lineFeed]).take (frameCap limit) = body ++ [lineFeed] := by
  apply List.take_of_length_le
  rw [List.length_append, List.length_singleton]
  omega

/-- A line that reaches the cap before its line feed is cut there. -/
theorem exists_cut (limit : Nat) (hfree : lineFeed ∉ body) (hlength : frameCap limit ≤ body.length)
    (rest : List UInt8) :
    ∃ cut later, body ++ rest = cut ++ later ∧ (body ++ rest).take (frameCap limit) = cut ∧
      lineFeed ∉ cut ∧ cut.length = frameCap limit := by
  refine ⟨body.take (frameCap limit), body.drop (frameCap limit) ++ rest, ?_, ?_, ?_, ?_⟩
  · rw [← List.append_assoc, List.take_append_drop]
  · exact List.take_append_of_le_length hlength
  · exact fun h => hfree (List.mem_of_mem_take h)
  · rw [List.length_take]
    omega

theorem fits_of_calm (hline : lineFeed ∉ line.dropLast)
    (hcalm : (Frame.ofBytes limit (line.take (frameCap limit))).isFatal = false) :
    line.length ≤ frameCap limit := by
  by_contra hlong
  have hcap : (line.take (frameCap limit)).length = frameCap limit := by
    rw [List.length_take]
    omega
  have htake : line.take (frameCap limit) = line.dropLast.take (frameCap limit) := by
    rw [List.dropLast_eq_take, List.take_take, Nat.min_eq_left (by omega)]
  have hfree : lineFeed ∉ line.take (frameCap limit) := by
    rw [htake]
    exact fun h => hline (List.mem_of_mem_take h)
  rw [Frame.isFatal_of_cut hfree hcap] at hcalm
  cases hcalm

/-- A line that leaves the connection open is not cut. -/
theorem eq_of_calm (hline : lineFeed ∉ line.dropLast)
    (hcalm : (Frame.ofBytes limit (line.take (frameCap limit))).isFatal = false) :
    line.take (frameCap limit) = line :=
  List.take_of_length_le (fits_of_calm hline hcalm)

namespace Connection

variable {c : Connection}

def take (limit : Nat) (c : Connection) : Frame → Connection
  | .noText => { c with ending := some .invalidData }
  | .cut => { c.reply .requestTooLong with ending := some .finished }
  | .blank => c
  | .request text => c.answer limit text

theorem takeFrame_eq (limit : Nat) (c : Connection) (bytes : List UInt8) :
    c.takeFrame limit bytes.toArray = c.take limit (Frame.ofBytes limit bytes) := by
  rw [takeFrame, Frame.ofBytes]
  simp only [List.back?_toArray, List.size_toArray]
  cases String.fromUTF8? ⟨bytes.toArray⟩ with
  | none => rfl
  | some text =>
      dsimp only
      split
      · rfl
      · split
        · rfl
        · rfl

/-- The connection goes on, and no frame is arriving. -/
structure Ready (c : Connection) : Prop where
  open_ : c.ending = none
  between : c.pending = #[]

theorem ready_start : start.Ready := ⟨rfl, rfl⟩

theorem play_eq (c : Connection) (line : String) :
    (c.play line).session = (c.session.process line).session ∧
      (c.play line).replies = c.replies ++ [.played (c.session.process line).response] ∧
      (c.play line).ending = c.ending ∧ (c.play line).pending = c.pending := by
  simp only [play, reply, and_self]

theorem answer_keeps (limit : Nat) (c : Connection) (text : String) :
    (c.answer limit text).pending = c.pending ∧ (c.answer limit text).ending = c.ending := by
  rw [answer]
  split
  · exact ⟨rfl, rfl⟩
  · split
    · exact ⟨rfl, rfl⟩
    · next command _ =>
      obtain ⟨-, -, hending, hpending⟩ := play_eq c command
      exact ⟨hpending, hending⟩

/-- A frame ends the connection or leaves it ready for the next one. -/
theorem ready_take {frame : Frame} (hc : c.Ready) (hframe : frame.isFatal = false) :
    (c.take limit frame).Ready := by
  cases frame with
  | noText | cut => cases hframe
  | blank => exact hc
  | request text =>
      obtain ⟨hpending, hending⟩ := answer_keeps limit c text
      exact ⟨hending.trans hc.open_, hpending.trans hc.between⟩

theorem isSome_ending_take {frame : Frame} (hframe : frame.isFatal = true) :
    (c.take limit frame).ending.isSome = true := by
  cases frame with
  | noText | cut => rfl
  | blank | request => cases hframe

/-! ## Taking lines -/

/-- The connection once there is nothing left to take. -/
def close (c : Connection) : Connection :=
  if c.ending.isSome then c else { c with ending := some .finished }

/-- The connection after a line, of which it looks at no more than the cap allows. -/
def takeLine (limit : Nat) (c : Connection) (line : List UInt8) : Connection :=
  if c.ending.isSome then c else c.take limit (Frame.ofBytes limit (line.take (frameCap limit)))

theorem takeLine_of_ended (h : c.ending.isSome = true) : c.takeLine limit line = c := by
  rw [takeLine, if_pos h]

theorem Ready.takeLine (hc : c.Ready) :
    c.takeLine limit line = c.take limit (Frame.ofBytes limit (line.take (frameCap limit))) := by
  rw [Connection.takeLine, hc.open_]
  rfl

theorem Ready.takeLine_ready (hc : c.Ready)
    (hopen : ¬ (c.takeLine limit line).ending.isSome = true) : (c.takeLine limit line).Ready := by
  rw [hc.takeLine] at hopen ⊢
  apply ready_take hc
  by_contra hfatal
  exact hopen (isSome_ending_take (by simpa using hfatal))

theorem foldl_takeLine_of_ended (h : c.ending.isSome = true) (lines : List (List UInt8)) :
    lines.foldl (takeLine limit) c = c := by
  induction lines with
  | nil => rfl
  | cons line lines ih => rw [List.foldl_cons, takeLine_of_ended h, ih]

end Connection

end ShellQuest.Relay
