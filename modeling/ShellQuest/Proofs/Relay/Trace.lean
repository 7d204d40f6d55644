/-
# The frames of a stream

A connection takes its bytes one at a time and closes a frame at a line feed or at the cap.  Which
frames it takes is read off the machine (`frames`), stretch by stretch: `Takes` says which frames
some bytes complete and what the connection becomes.  Yet all that matters are the lines of the
bytes, each cut at the cap (`Ready.lines`).  For a line that fits is a frame as it stands; and one that
does not is cut, which ends the connection, so that neither the rest of the line nor any line after
it is looked at.  So all frames but the last are whole lines, and what a connection becomes is told
by its requests and by what the last frame turned out to be (`run_eq_asked`).
-/
import ShellQuest.Proofs.Relay.Frames

namespace ShellQuest.Relay

open Text (lineFeed fullLines)

variable {limit : Nat} {bytes body : List UInt8}

def Frame.request? : Frame → Option String
  | .request text => some text
  | .noText | .cut | .blank => none

namespace Connection

variable {c d e : Connection}

/-! ## Frames of the machine -/

/-- The frame that a byte completes, if it does. -/
def completedBy (limit : Nat) (c : Connection) (byte : UInt8) : List (List UInt8) :=
  if c.ending.isSome then []
  else
    let frame := c.pending.push byte
    if byte = lineFeed ∨ frame.size = frameCap limit then [frame.toList] else []

/-- The frames that some bytes complete. -/
def completed (limit : Nat) : Connection → List UInt8 → List (List UInt8)
  | _, [] => []
  | c, byte :: bytes => c.completedBy limit byte ++ (c.receive limit byte).completed limit bytes

/-- The frame that the end of the stream completes, if it does. -/
def leftover (c : Connection) : List (List UInt8) :=
  if c.ending.isSome ∨ c.pending.isEmpty then [] else [c.pending.toList]

/-- The frames that a connection takes from a client that sends these bytes and hangs up. -/
def frames (limit : Nat) (c : Connection) (bytes : List UInt8) : List (List UInt8) :=
  c.completed limit bytes ++ (c.receiveAll limit bytes).leftover

/-! ## Stretches of bytes -/

theorem receiveAll_append (limit : Nat) (c : Connection) (first second : List UInt8) :
    c.receiveAll limit (first ++ second) = (c.receiveAll limit first).receiveAll limit second := by
  rw [receiveAll, List.foldl_append, ← receiveAll, ← receiveAll]

theorem completed_append (limit : Nat) (c : Connection) (first second : List UInt8) :
    c.completed limit (first ++ second) =
      c.completed limit first ++ (c.receiveAll limit first).completed limit second := by
  induction first generalizing c with
  | nil => rfl
  | cons byte first ih =>
      rw [List.cons_append, completed, ih, completed, List.append_assoc]
      rfl

/-- From `c`, some bytes complete these frames and lead to `d`. -/
structure Takes (limit : Nat) (c : Connection) (bytes : List UInt8) (frames : List (List UInt8))
    (d : Connection) : Prop where
  frames_eq : c.completed limit bytes = frames
  state_eq : c.receiveAll limit bytes = d

theorem Takes.append {first second : List UInt8} {frames later : List (List UInt8)}
    (hfirst : Takes limit c first frames d) (hsecond : Takes limit d second later e) :
    Takes limit c (first ++ second) (frames ++ later) e := by
  constructor
  · rw [completed_append, hfirst.frames_eq, hfirst.state_eq, hsecond.frames_eq]
  · rw [receiveAll_append, hfirst.state_eq, hsecond.state_eq]

theorem takes_of_ended (limit : Nat) (h : c.ending.isSome = true) (bytes : List UInt8) :
    Takes limit c bytes [] c := by
  induction bytes with
  | nil => exact ⟨rfl, rfl⟩
  | cons byte bytes ih =>
      have hbyte : Takes limit c [byte] [] c := by
        constructor
        · rw [completed, completed, completedBy, if_pos h, List.append_nil]
        · rw [receiveAll, List.foldl_cons, List.foldl_nil, receive, if_pos h]
      exact hbyte.append ih

theorem takes_byte (limit : Nat) {byte : UInt8} (hopen : c.ending = none)
    (hgoes : ¬ (byte = lineFeed ∨ (c.pending.push byte).size = frameCap limit)) :
    Takes limit c [byte] [] { c with pending := c.pending.push byte } := by
  constructor
  · rw [completed, completed, completedBy, hopen]
    simp only [Option.isSome_none, Bool.false_eq_true, if_false, if_neg hgoes, List.append_nil]
  · rw [receiveAll, List.foldl_cons, List.foldl_nil, receive, hopen]
    simp only [Option.isSome_none, Bool.false_eq_true, if_false, if_neg hgoes]

theorem takes_last {byte : UInt8} (hopen : c.ending = none)
    (hlast : byte = lineFeed ∨ (c.pending.push byte).size = frameCap limit) :
    Takes limit c [byte] [(c.pending.push byte).toList]
      ({ c with pending := #[] }.takeFrame limit (c.pending.push byte)) := by
  constructor
  · rw [completed, completed, completedBy, hopen]
    simp only [Option.isSome_none, Bool.false_eq_true, if_false, if_pos hlast, List.append_nil]
  · rw [receiveAll, List.foldl_cons, List.foldl_nil, receive, hopen]
    simp only [Option.isSome_none, Bool.false_eq_true, if_false, if_pos hlast]

theorem takes_short (hopen : c.ending = none) (hfree : lineFeed ∉ bytes)
    (hlength : c.pending.size + bytes.length < frameCap limit) :
    Takes limit c bytes [] { c with pending := c.pending ++ bytes.toArray } := by
  induction bytes generalizing c with
  | nil =>
      rw [Array.append_empty]
      exact ⟨rfl, rfl⟩
  | cons byte bytes ih =>
      rw [List.mem_cons, not_or] at hfree
      obtain ⟨hbyte, hbytes⟩ := hfree
      rw [List.length_cons] at hlength
      have hgoes : ¬ (byte = lineFeed ∨ (c.pending.push byte).size = frameCap limit) := by
        rw [Array.size_push, not_or]
        exact ⟨Ne.symm hbyte, by omega⟩
      have hfirst := takes_byte limit hopen hgoes
      have hrest : (c.pending.push byte).size + bytes.length < frameCap limit := by
        rw [Array.size_push]
        omega
      have hsame : c.pending.push byte ++ bytes.toArray =
          c.pending ++ (byte :: bytes).toArray := by
        simp
      rw [← hsame]
      exact hfirst.append (ih (c := { c with pending := c.pending.push byte }) hopen hbytes hrest)

theorem Ready.takes_short (hc : c.Ready) (hfree : lineFeed ∉ bytes)
    (hlength : bytes.length < frameCap limit) :
    Takes limit c bytes [] { c with pending := bytes.toArray } := by
  have hpending : c.pending.size + bytes.length < frameCap limit := by
    rw [hc.between]
    simpa using hlength
  have hall := Connection.takes_short hc.open_ hfree hpending
  rwa [hc.between, Array.empty_append] at hall

theorem Ready.eq (hc : c.Ready) : { c with pending := #[] } = c := by
  rw [← hc.between]

/-- A frame arrives byte by byte: a stretch without a line feed that stays below the cap, and the
byte that completes it. -/
theorem Ready.takes_frame {byte : UInt8} (hc : c.Ready) (hfree : lineFeed ∉ body)
    (hlength : body.length < frameCap limit)
    (hlast : byte = lineFeed ∨ body.length + 1 = frameCap limit) :
    Takes limit c (body ++ [byte]) [body ++ [byte]]
      (c.take limit (Frame.ofBytes limit (body ++ [byte]))) := by
  have hbyte := takes_last (c := { c with pending := body.toArray }) hc.open_
    (by simpa using hlast)
  have hall := (hc.takes_short hfree hlength).append hbyte
  rw [List.nil_append, List.push_toArray, takeFrame_eq] at hall
  simpa only [hc.eq] using hall

theorem Ready.takes_cut (hc : c.Ready) (hfree : lineFeed ∉ bytes)
    (hlength : bytes.length = frameCap limit) :
    Takes limit c bytes [bytes] (c.take limit (Frame.ofBytes limit bytes)) := by
  have hpos := frameCap_pos limit
  rcases List.eq_nil_or_concat' bytes with rfl | ⟨body, byte, rfl⟩
  · rw [List.length_nil] at hlength
    omega
  · rw [List.length_append, List.length_singleton] at hlength
    have hbody : lineFeed ∉ body := fun h => hfree (List.mem_append_left _ h)
    exact hc.takes_frame hbody (by omega) (.inr hlength)

/-! ## Lines -/

/-- What a connection takes of a line is all that it needs of it. -/
theorem Ready.takes_of_line (limit : Nat) (hc : c.Ready) (hfree : lineFeed ∉ body) :
    Takes limit c ((body ++ [lineFeed]).take (frameCap limit))
      [(body ++ [lineFeed]).take (frameCap limit)] (c.takeLine limit (body ++ [lineFeed])) := by
  rw [hc.takeLine]
  by_cases hlength : body.length < frameCap limit
  · rw [take_line hlength]
    exact hc.takes_frame hfree hlength (.inl rfl)
  · obtain ⟨cut, later, -, htake, hcut, hcap⟩ :=
      exists_cut limit hfree (Nat.le_of_not_lt hlength) [lineFeed]
    rw [htake]
    exact hc.takes_cut hcut hcap

/-- What comes after a cut frame is not looked at. -/
theorem Ready.takes_long (hc : c.Ready) (hfree : lineFeed ∉ body)
    (hlength : frameCap limit ≤ body.length) (rest : List UInt8) :
    Takes limit c (body ++ rest) [(body ++ rest).take (frameCap limit)]
        (c.takeLine limit (body ++ rest)) ∧
      (c.takeLine limit (body ++ rest)).ending.isSome = true := by
  obtain ⟨cut, later, hsplit, htake, hcut, hcap⟩ := exists_cut limit hfree hlength rest
  have hended : (c.take limit (Frame.ofBytes limit cut)).ending.isSome = true :=
    isSome_ending_take (Frame.isFatal_of_cut hcut hcap)
  have hall := (hc.takes_cut hcut hcap).append (takes_of_ended limit hended later)
  rw [← hsplit, List.append_nil] at hall
  rw [hc.takeLine, htake]
  exact ⟨hall, hended⟩

theorem Ready.takes_line (limit : Nat) (hc : c.Ready) (hfree : lineFeed ∉ body) :
    Takes limit c (body ++ [lineFeed]) [(body ++ [lineFeed]).take (frameCap limit)]
      (c.takeLine limit (body ++ [lineFeed])) := by
  by_cases hlength : body.length < frameCap limit
  · have htake := hc.takes_of_line limit hfree
    rw [take_line hlength] at htake ⊢
    exact htake
  · exact (hc.takes_long hfree (by omega) _).1

theorem Ready.first_line (hc : c.Ready) (hfree : lineFeed ∉ body) (rest : List UInt8) :
    c.frames limit (body ++ lineFeed :: rest) =
        (body ++ [lineFeed]).take (frameCap limit) ::
          (c.takeLine limit (body ++ [lineFeed])).frames limit rest ∧
      c.receiveAll limit (body ++ lineFeed :: rest) =
        (c.takeLine limit (body ++ [lineFeed])).receiveAll limit rest := by
  have hsplit : body ++ lineFeed :: rest = (body ++ [lineFeed]) ++ rest := by
    rw [List.append_assoc, List.singleton_append]
  obtain ⟨hframes, hstate⟩ := hc.takes_line limit hfree
  constructor
  · rw [hsplit, frames, completed_append, hframes, receiveAll_append limit c (body ++ [lineFeed]),
      hstate, List.append_assoc, List.singleton_append, frames]
  · rw [hsplit, receiveAll_append limit c (body ++ [lineFeed]), hstate]

/-! ## The end of the stream -/

theorem frames_of_ended (h : c.ending.isSome = true) (bytes : List UInt8) :
    c.frames limit bytes = [] := by
  obtain ⟨hframes, hstate⟩ := takes_of_ended limit h bytes
  rw [frames, hframes, hstate, leftover, if_pos (.inl h), List.append_nil]

theorem hangUp_of_ended (h : c.ending.isSome = true) : c.hangUp limit = c := by
  rw [hangUp, if_pos h]

theorem Ready.hangUp (hc : c.Ready) : c.hangUp limit = c.close := by
  have hnone : c.pending.isEmpty = true := by
    rw [hc.between]
    rfl
  simp only [Connection.hangUp, close, hnone, hc.open_, if_true]
  rfl

theorem hangUp_of_pending (limit : Nat) (hopen : c.ending = none) (hne : c.pending ≠ #[]) :
    c.hangUp limit = ({ c with pending := #[] }.takeFrame limit c.pending).close := by
  have hsome : c.pending.isEmpty = false := by
    rw [Array.isEmpty_eq_false_iff]
    exact hne
  rw [hangUp, hopen, hsome]
  rfl

theorem isSome_ending_close (c : Connection) : c.close.ending.isSome = true := by
  rw [close]
  split
  · next hended => exact hended
  · rfl

theorem isSome_ending_hangUp (limit : Nat) (c : Connection) :
    (c.hangUp limit).ending.isSome = true := by
  by_cases hended : c.ending.isSome = true
  · rw [hangUp_of_ended hended]
    exact hended
  · rw [hangUp, if_neg hended]
    exact isSome_ending_close _

theorem Ready.hangUp_of_pending (limit : Nat) (hc : c.Ready) (hne : bytes ≠ []) :
    { c with pending := bytes.toArray }.hangUp limit =
      (c.take limit (Frame.ofBytes limit bytes)).close := by
  have hpending : bytes.toArray ≠ #[] := fun h => hne (List.toArray_inj h)
  have hlast := Connection.hangUp_of_pending (c := { c with pending := bytes.toArray }) limit
    hc.open_ hpending
  rw [takeFrame_eq] at hlast
  simpa only [hc.eq] using hlast

/-- What follows the last line feed is a frame, because the client hangs up. -/
theorem Ready.takes_open (hc : c.Ready) (hfree : lineFeed ∉ body) (hne : body ≠ []) :
    c.frames limit body = [body.take (frameCap limit)] ∧
      (c.receiveAll limit body).hangUp limit = (c.takeLine limit body).close := by
  by_cases hlength : body.length < frameCap limit
  · have htake : body.take (frameCap limit) = body := List.take_of_length_le (by omega)
    obtain ⟨hframes, hstate⟩ := hc.takes_short hfree hlength
    rw [frames, hframes, hstate, hc.hangUp_of_pending limit hne, hc.takeLine, htake, leftover]
    simp [hc.open_, hne]
  · obtain ⟨⟨hframes, hstate⟩, hended⟩ := hc.takes_long hfree (Nat.le_of_not_lt hlength) []
    rw [List.append_nil] at hframes hstate hended
    rw [frames, hframes, hstate, leftover, if_pos (.inl hended), hangUp_of_ended hended, close,
      if_pos hended]
    exact ⟨rfl, rfl⟩

/-! ## Frames and lines -/

/-- The lines that a connection reaches, each cut at the cap: none after one that is fatal. -/
def reached (limit : Nat) : List (List UInt8) → List (List UInt8)
  | [] => []
  | line :: lines =>
      line.take (frameCap limit) ::
        if (Frame.ofBytes limit (line.take (frameCap limit))).isFatal then [] else reached limit lines

/-- **The frames are the lines that are reached, and the connection depends on nothing but lines.** -/
theorem Ready.lines (hc : c.Ready) (bytes : List UInt8) :
    c.frames limit bytes = reached limit (fullLines bytes) ∧
      (c.receiveAll limit bytes).hangUp limit =
        ((fullLines bytes).foldl (Connection.takeLine limit) c).close := by
  induction bytes using Text.line_induction generalizing c with
  | hopen tail htail =>
      by_cases hne : tail = []
      · subst hne
        refine ⟨?_, hc.hangUp⟩
        rw [frames, completed, leftover, receiveAll, List.foldl_nil, hc.between]
        simp [fullLines, reached]
      · rw [Text.fullLines_open htail hne, reached, reached, ite_self]
        exact hc.takes_open htail hne
  | hline body rest hbody ih =>
      obtain ⟨hframes, hstate⟩ := hc.first_line hbody rest
      rw [Text.fullLines_line hbody, hframes, hstate, reached, List.foldl_cons, hc.takeLine]
      split
      · next hfatal =>
        have hended : (c.take limit (Frame.ofBytes limit
            ((body ++ [lineFeed]).take (frameCap limit)))).ending.isSome = true :=
          isSome_ending_take hfatal
        rw [frames_of_ended hended, (takes_of_ended limit hended rest).state_eq,
          hangUp_of_ended hended, foldl_takeLine_of_ended hended, close, if_pos hended]
        exact ⟨rfl, rfl⟩
      · next hcalm =>
        obtain ⟨hrest, hends⟩ := ih (ready_take hc (by simpa using hcalm))
        rw [hrest]
        exact ⟨rfl, hends⟩

theorem frames_eq_reached (limit : Nat) (bytes : List UInt8) :
    start.frames limit bytes = reached limit (fullLines bytes) :=
  (ready_start.lines bytes).1

theorem run_eq (limit : Nat) (bytes : List UInt8) :
    run limit bytes = ((fullLines bytes).foldl (takeLine limit) start).close :=
  (ready_start.lines bytes).2

theorem Ready.foldl_reached (hc : c.Ready) (lines : List (List UInt8)) :
    lines.foldl (Connection.takeLine limit) c =
      (reached limit lines).foldl (fun c frame => c.takeFrame limit frame.toArray) c := by
  induction lines generalizing c with
  | nil => rfl
  | cons line lines ih =>
      rw [List.foldl_cons, reached, List.foldl_cons, takeFrame_eq, hc.takeLine]
      split
      · next hfatal => exact foldl_takeLine_of_ended (isSome_ending_take hfatal) lines
      · next hcalm => exact ih (ready_take hc (by simpa using hcalm))

theorem run_eq_frames (limit : Nat) (bytes : List UInt8) :
    run limit bytes = ((start.frames limit bytes).foldl
      (fun c frame => c.takeFrame limit frame.toArray) start).close := by
  rw [run_eq, ready_start.foldl_reached, frames_eq_reached]

/-! ## Calm frames -/

theorem exists_calm (limit : Nat) (lines : List (List UInt8)) :
    ∃ calm last, reached limit lines = calm ++ last ∧
      (∀ frame ∈ calm, (Frame.ofBytes limit frame).isFatal = false) ∧
      (last = [] ∨ ∃ frame, last = [frame] ∧ (Frame.ofBytes limit frame).isFatal = true) := by
  induction lines with
  | nil => exact ⟨[], [], rfl, by simp, .inl rfl⟩
  | cons line lines ih =>
      rw [reached]
      split
      · next hfatal => exact ⟨[], _, rfl, by simp, .inr ⟨_, rfl, hfatal⟩⟩
      · next hcalm =>
        obtain ⟨calm, last, hsplit, hall, hlast⟩ := ih
        refine ⟨_ :: calm, last, by rw [hsplit, List.cons_append], ?_, hlast⟩
        intro frame hmem
        rcases List.mem_cons.1 hmem with rfl | hmem
        · simpa using hcalm
        · exact hall frame hmem

def requests (limit : Nat) (frames : List (List UInt8)) : List String :=
  frames.filterMap fun frame => (Frame.ofBytes limit frame).request?

theorem requests_append (limit : Nat) (first second : List (List UInt8)) :
    requests limit (first ++ second) = requests limit first ++ requests limit second := by
  rw [requests, List.filterMap_append, ← requests, ← requests]

theorem requests_fatal {frame : List UInt8}
    (h : (Frame.ofBytes limit frame).isFatal = true) : requests limit [frame] = [] := by
  rw [requests]
  cases hkind : Frame.ofBytes limit frame with
  | noText | cut => simp [hkind, Frame.request?]
  | blank | request =>
      rw [hkind] at h
      cases h

/-- A new connection that has answered these requests. -/
def asked (limit : Nat) (requests : List String) : Connection :=
  requests.foldl (answer limit) start

theorem foldl_calm {frames : List (List UInt8)} (c : Connection)
    (h : ∀ frame ∈ frames, (Frame.ofBytes limit frame).isFatal = false) :
    frames.foldl (fun c frame => c.takeFrame limit frame.toArray) c =
      (requests limit frames).foldl (answer limit) c := by
  induction frames generalizing c with
  | nil => rfl
  | cons frame frames ih =>
      obtain ⟨hframe, hframes⟩ := List.forall_mem_cons.1 h
      rw [List.foldl_cons, takeFrame_eq, ih _ hframes, requests, requests]
      cases hkind : Frame.ofBytes limit frame with
      | noText | cut =>
          rw [hkind] at hframe
          cases hframe
      | blank =>
          rw [List.filterMap_cons_none (by rw [hkind]; rfl)]
          rfl
      | request text =>
          rw [List.filterMap_cons_some (by rw [hkind]; rfl)]
          rfl

theorem asked_invariant {P : Connection → Prop}
    (hstep : ∀ c request, P c → P (c.answer limit request)) (hstart : P start)
    (requests : List String) : P (asked limit requests) := by
  have hfold : ∀ c, P c → P (requests.foldl (answer limit) c) := by
    induction requests with
    | nil => exact fun c hc => hc
    | cons request requests ih => exact fun c hc => ih _ (hstep c request hc)
  exact hfold start hstart

theorem ready_asked (limit : Nat) (requests : List String) : (asked limit requests).Ready :=
  asked_invariant (fun c request hc =>
    (ready_take hc rfl : (c.take limit (.request request)).Ready)) ready_start requests

/-- A request is answered with one reply, which is not that it is too long. -/
theorem answer_replies (limit : Nat) (c : Connection) (request : String) :
    ∃ reply, reply ≠ .requestTooLong ∧
      (c.answer limit request).replies = c.replies ++ [reply] := by
  rw [answer]
  split
  · exact ⟨.badRequest request, Reply.noConfusion, rfl⟩
  · split
    · next why _ => exact ⟨.refused why, Reply.noConfusion, rfl⟩
    · next command _ => exact ⟨_, Reply.noConfusion, (play_eq c command).2.1⟩

/-! ## The whole connection -/

/-- What is sent after the answers: that the last frame was cut, if it was. -/
def refusal (limit : Nat) (frames : List (List UInt8)) : List Reply :=
  if .cut ∈ frames.map (Frame.ofBytes limit) then [.requestTooLong] else []

def endingOf (limit : Nat) (frames : List (List UInt8)) : Ending :=
  if .noText ∈ frames.map (Frame.ofBytes limit) then .invalidData else .finished

theorem notMem_of_calm {frames : List (List UInt8)} {kind : Frame} (hkind : kind.isFatal = true)
    (h : ∀ frame ∈ frames, (Frame.ofBytes limit frame).isFatal = false) :
    kind ∉ frames.map (Frame.ofBytes limit) := by
  intro hmem
  obtain ⟨frame, hframe, rfl⟩ := List.mem_map.1 hmem
  rw [h frame hframe] at hkind
  cases hkind

/-- A connection has answered its requests, and then ended with its last frame. -/
theorem run_eq_asked (limit : Nat) (bytes : List UInt8) :
    run limit bytes =
      { asked limit (requests limit (start.frames limit bytes)) with
        replies := (asked limit (requests limit (start.frames limit bytes))).replies ++
          refusal limit (start.frames limit bytes)
        ending := some (endingOf limit (start.frames limit bytes)) } := by
  obtain ⟨calm, last, hsplit, hcalm, hlast⟩ := exists_calm limit (fullLines bytes)
  have hcut : .cut ∉ calm.map (Frame.ofBytes limit) := notMem_of_calm rfl hcalm
  have hnoText : .noText ∉ calm.map (Frame.ofBytes limit) := notMem_of_calm rfl hcalm
  have hopen := (ready_asked limit (requests limit calm)).open_
  have hrequests : requests limit (calm ++ last) = requests limit calm := by
    rcases hlast with rfl | ⟨frame, rfl, hfatal⟩
    · rw [List.append_nil]
    · rw [requests_append, requests_fatal hfatal, List.append_nil]
  rw [run_eq_frames, frames_eq_reached, hsplit, List.foldl_append, foldl_calm _ hcalm,
    ← asked, hrequests, refusal, endingOf, List.map_append]
  generalize asked limit (requests limit calm) = c at hopen ⊢
  rcases hlast with rfl | ⟨frame, rfl, hfatal⟩
  · simp [close, hopen, hcut, hnoText]
  · rw [List.foldl_cons, List.foldl_nil, takeFrame_eq]
    cases hkind : Frame.ofBytes limit frame with
    | noText => simp [take, close, hkind, hcut]
    | cut => simp [take, close, reply, hkind, hnoText]
    | blank | request =>
        rw [hkind] at hfatal
        cases hfatal

end Connection

end ShellQuest.Relay
