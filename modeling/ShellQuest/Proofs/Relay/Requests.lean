/-
# Requests and replies in step

No part of a line is ever taken for a request.  A frame that leaves the connection open is a whole
line (`eq_of_calm`), so each frame starts where a line starts, and a frame that is cut is the last
one.  Each request is answered with one reply (`answer_replies`), so the replies are in step with the
requests; and a reply is one line, whatever it quotes (`Reply.exists_line`).  A frame that is fatal
where it stands has ended the connection before any later byte arrives (`Ready.ended_of_fatal`), so
nothing that follows it matters.
-/
import ShellQuest.Proofs.Json.Quote
import ShellQuest.Proofs.Relay.Trace

namespace ShellQuest.Relay

open Text (lineFeed fullLines IsLine IsUtf8)

variable {limit : Nat} {bytes body line frame : List UInt8} {lines first rest : List (List UInt8)}

/-! ## Replies are lines -/

namespace Reply

theorem lineFeed_notMem_errorJson (message : String) : '\n' ∉ (errorJson message).toList := by
  apply Json.lineFeed_notMem_writeObject
  intro m hm
  rw [List.mem_singleton.1 hm]
  exact Json.lineFeed_notMem_quote message

theorem lineFeed_notMem_responseJson (r : Response) : '\n' ∉ (responseJson r).toList := by
  apply Json.lineFeed_notMem_writeObject
  intro m hm
  simp only [List.mem_cons, List.not_mem_nil, or_false] at hm
  rcases hm with rfl | rfl | rfl | rfl
  · exact Json.lineFeed_notMem_quote r.result
  · exact Json.lineFeed_notMem_quote r.location
  · exact Json.lineFeed_notMem_quote r.challenge
  · exact Json.lineFeed_notMem_quote r.challengeHint

theorem exists_line (complaint : String → String) (reply : Reply) :
    ∃ text : String, reply.line complaint = text ++ "\n" ∧ '\n' ∉ text.toList := by
  refine ⟨reply.toJson complaint, rfl, ?_⟩
  cases reply with
  | played response => exact lineFeed_notMem_responseJson response
  | badRequest | refused | requestTooLong | serverFull => exact lineFeed_notMem_errorJson _

end Reply

/-! ## Frames are whole lines -/

/-- The frame ends its connection as soon as it has arrived: it is cut at the cap, or its line feed
ends bytes that are no text. -/
def Frame.EndsAtOnce (limit : Nat) (frame : List UInt8) : Prop :=
  (frame.length = frameCap limit ∧ frame.getLast? ≠ some lineFeed) ∨
    (frame.getLast? = some lineFeed ∧ ¬ IsUtf8 frame)

namespace Connection

variable {c : Connection}

/-- Where a frame is taken, the lines before it have been taken whole. -/
theorem exists_line_of_reached (hlines : ∀ line ∈ lines, lineFeed ∉ line.dropLast)
    (h : reached limit lines = first ++ frame :: rest) :
    ∃ line later, lines = first ++ line :: later ∧ frame = line.take (frameCap limit) := by
  induction lines generalizing first with
  | nil =>
      rw [reached] at h
      exact absurd h (by simp)
  | cons line lines ih =>
      obtain ⟨hline, hlines⟩ := List.forall_mem_cons.1 hlines
      rw [reached] at h
      cases first with
      | nil =>
          rw [List.nil_append, List.cons.injEq] at h
          exact ⟨line, lines, rfl, h.1.symm⟩
      | cons head first =>
          rw [List.cons_append, List.cons.injEq] at h
          obtain ⟨rfl, hrest⟩ := h
          split at hrest
          · exact absurd hrest (by simp)
          · next hcalm =>
            obtain ⟨found, later, rfl, hframe⟩ := ih hlines hrest
            rw [eq_of_calm hline (by simpa using hcalm)]
            exact ⟨found, later, rfl, hframe⟩

theorem flatten_reached (hlines : ∀ line ∈ lines, lineFeed ∉ line.dropLast) :
    (reached limit lines).flatten <+: lines.flatten := by
  induction lines with
  | nil => exact List.prefix_refl _
  | cons line lines ih =>
      obtain ⟨hline, hlines⟩ := List.forall_mem_cons.1 hlines
      rw [reached, List.flatten_cons, List.flatten_cons]
      split
      · rw [List.flatten_nil, List.append_nil]
        exact (List.take_prefix _ _).trans (List.prefix_append _ _)
      · next hcalm =>
        rw [eq_of_calm hline (by simpa using hcalm)]
        exact (List.prefix_append_right_inj line).2 (ih hlines)

theorem flatten_frames (limit : Nat) (bytes : List UInt8) :
    (start.frames limit bytes).flatten <+: bytes := by
  have hreached : (reached limit (fullLines bytes)).flatten <+: (fullLines bytes).flatten :=
    flatten_reached fun line hline => Text.single_of_mem_fullLines hline
  rw [frames_eq_reached]
  rwa [Text.flatten_fullLines] at hreached

/-- A frame that leaves the connection open is a line of the stream where it stands. -/
theorem isLine_of_calm (h : start.frames limit bytes = first ++ frame :: rest)
    (hcalm : (Frame.ofBytes limit frame).isFatal = false) :
    ∃ after, bytes = first.flatten ++ frame ++ after ∧ IsLine first.flatten frame after ∧
      frame.length ≤ frameCap limit := by
  rw [frames_eq_reached] at h
  obtain ⟨line, later, hlines, rfl⟩ :=
    exists_line_of_reached (fun line hline => Text.single_of_mem_fullLines hline) h
  have hisLine := Text.isLine_of_fullLines hlines
  have hwhole := Text.flatten_fullLines bytes
  rw [hlines, List.flatten_append, List.flatten_cons] at hwhole
  have hfits := fits_of_calm hisLine.single hcalm
  rw [eq_of_calm hisLine.single hcalm]
  exact ⟨later.flatten, by rw [← hwhole, List.append_assoc], hisLine, hfits⟩

/-! ## One reply for a request -/

theorem length_replies_foldl (limit : Nat) (c : Connection) (requests : List String) :
    ∃ more, (requests.foldl (answer limit) c).replies = c.replies ++ more ∧
      more.length = requests.length := by
  induction requests generalizing c with
  | nil => exact ⟨[], (List.append_nil _).symm, rfl⟩
  | cons request requests ih =>
      obtain ⟨reply, -, hreply⟩ := answer_replies limit c request
      obtain ⟨more, hmore, hlength⟩ := ih (c.answer limit request)
      refine ⟨reply :: more, ?_, ?_⟩
      · rw [List.foldl_cons, hmore, hreply, List.append_assoc, List.singleton_append]
      · rw [List.length_cons, List.length_cons, hlength]

theorem length_replies_asked (limit : Nat) (requests : List String) :
    (asked limit requests).replies.length = requests.length := by
  obtain ⟨more, hmore, hlength⟩ := length_replies_foldl limit start requests
  rw [asked, hmore, start, List.nil_append, hlength]

theorem replies_asked_take (limit : Nat) (requests : List String) (k : Nat) :
    (asked limit (requests.take k)).replies = (asked limit requests).replies.take k := by
  obtain ⟨more, hmore, -⟩ :=
    length_replies_foldl limit (asked limit (requests.take k)) (requests.drop k)
  have hall : (asked limit requests).replies = (asked limit (requests.take k)).replies ++ more := by
    rw [← hmore, asked, asked, ← List.foldl_append, List.take_append_drop]
  have hlength := length_replies_asked limit (requests.take k)
  rw [List.length_take] at hlength
  by_cases hk : k ≤ requests.length
  · rw [hall, List.take_left' (by omega)]
  · have hlong : requests.length ≤ k := by omega
    have hreplies := length_replies_asked limit requests
    rw [List.take_of_length_le hlong, List.take_of_length_le (by omega)]

/-! ## After a fatal frame -/

/-- A frame that is fatal before the stream ends has ended the connection. -/
theorem Ready.ended_of_fatal (hc : c.Ready) (h : c.frames limit bytes = first ++ [frame])
    (hfatal : (Frame.ofBytes limit frame).isFatal = true)
    (hclosed : frame.getLast? = some lineFeed ∨ frame.length = frameCap limit) :
    (c.receiveAll limit (c.frames limit bytes).flatten).ending.isSome = true := by
  induction bytes using Text.line_induction generalizing c first with
  | hopen tail htail =>
      by_cases hne : tail = []
      · subst hne
        rw [(hc.lines []).1] at h
        exact absurd h (by simp [fullLines, reached])
      · rw [(hc.takes_open htail hne).1] at h ⊢
        cases first with
        | cons head first => exact absurd h (by simp)
        | nil =>
            rw [List.nil_append, List.cons.injEq] at h
            obtain ⟨rfl, -⟩ := h
            have hfree : lineFeed ∉ tail.take (frameCap limit) :=
              fun hmem => htail (List.mem_of_mem_take hmem)
            have hcap : (tail.take (frameCap limit)).length = frameCap limit := by
              rcases hclosed with hlast | hcap
              · exact absurd (List.mem_of_getLast? hlast) hfree
              · exact hcap
            rw [List.flatten_singleton, (hc.takes_cut hfree hcap).state_eq]
            exact isSome_ending_take hfatal
  | hline body rest hbody ih =>
      rw [(hc.first_line hbody rest).1] at h ⊢
      rw [List.flatten_cons, receiveAll_append, (hc.takes_of_line limit hbody).state_eq]
      by_cases hended : (c.takeLine limit (body ++ [lineFeed])).ending.isSome = true
      · rw [(takes_of_ended limit hended _).state_eq]
        exact hended
      · have hready := hc.takeLine_ready hended
        cases first with
        | nil =>
            -- the fatal frame cannot be this line
            rw [List.nil_append, List.cons.injEq] at h
            rw [hc.takeLine, h.1] at hended
            exact absurd (isSome_ending_take hfatal) hended
        | cons head first =>
            rw [List.cons_append, List.cons.injEq] at h
            exact ih hready h.2

/-- Two streams that start with bytes on which the connection ends are one to it. -/
theorem run_of_ended {other : List UInt8} (hended : (start.receiveAll limit bytes).ending.isSome = true)
    (h : bytes <+: other) : run limit other = start.receiveAll limit bytes := by
  obtain ⟨later, rfl⟩ := h
  rw [run, receiveAll_append, (takes_of_ended limit hended later).state_eq, hangUp_of_ended hended]

theorem run_of_endsAtOnce {other : List UInt8} (h : start.frames limit bytes = first ++ [frame])
    (hends : Frame.EndsAtOnce limit frame) (hother : (start.frames limit bytes).flatten <+: other) :
    run limit other = run limit bytes := by
  have hfatal : (Frame.ofBytes limit frame).isFatal = true := by
    rw [Frame.isFatal_iff]
    rcases hends with ⟨hcap, hlast⟩ | ⟨-, hbad⟩
    · exact .inr ⟨hlast, hcap⟩
    · exact .inl hbad
  have hclosed : frame.getLast? = some lineFeed ∨ frame.length = frameCap limit := by
    rcases hends with ⟨hcap, -⟩ | ⟨hlast, -⟩
    · exact .inr hcap
    · exact .inl hlast
  have hended := ready_start.ended_of_fatal h hfatal hclosed
  rw [run_of_ended hended hother, run_of_ended hended (flatten_frames limit bytes)]

/-! ## The whole connection -/

/-- **Requests are whole lines, and replies are in step with them.**  The connection takes its frames
and nothing else.  A frame that is read as a request is a line of the stream, in the order of the
lines; the replies answer the requests one by one, up to a last one about a frame that was cut; each
is a line; and what follows a frame that ends the connection at once is not looked at. -/
theorem requests_whole (limit : Nat) (bytes : List UInt8) :
    run limit bytes = ((start.frames limit bytes).foldl
        (fun c frame => c.takeFrame limit frame.toArray) start).close ∧
      (∀ first frame rest text, start.frames limit bytes = first ++ frame :: rest →
        Frame.ofBytes limit frame = .request text →
          (∃ t, Text.bytes t = frame ∧ Text.trim t = text) ∧
            ∃ after, bytes = first.flatten ++ frame ++ after ∧ IsLine first.flatten frame after ∧
              frame.length ≤ frameCap limit) ∧
      (∃ last, (last = [] ∨ last = [Reply.requestTooLong]) ∧
        (run limit bytes).replies =
          (asked limit (requests limit (start.frames limit bytes))).replies ++ last) ∧
      (∀ k ≤ (requests limit (start.frames limit bytes)).length,
        (asked limit ((requests limit (start.frames limit bytes)).take k)).replies =
            (run limit bytes).replies.take k ∧
          ((run limit bytes).replies.take k).length = k) ∧
      (run limit bytes).session =
        (asked limit (requests limit (start.frames limit bytes))).session ∧
      (∀ complaint, ∀ reply ∈ (run limit bytes).replies,
        ∃ text : String, reply.line complaint = text ++ "\n" ∧ '\n' ∉ text.toList) ∧
      (∀ message, '\n' ∉ (Reply.errorJson message).toList) ∧
      (∀ first frame, start.frames limit bytes = first ++ [frame] →
        Frame.EndsAtOnce limit frame → ∀ other, (start.frames limit bytes).flatten <+: other →
          (run limit other).replies = (run limit bytes).replies ∧
            (run limit other).ending = (run limit bytes).ending) := by
  have hrun := run_eq_asked limit bytes
  have hlength := length_replies_asked limit (requests limit (start.frames limit bytes))
  have hlast : refusal limit (start.frames limit bytes) = [] ∨
      refusal limit (start.frames limit bytes) = [Reply.requestTooLong] := by
    rw [refusal]
    split
    · exact .inr rfl
    · exact .inl rfl
  refine ⟨run_eq_frames limit bytes, ?_, ⟨_, hlast, ?_⟩, ?_, ?_, ?_, ?_, ?_⟩
  · intro first frame rest text hframes hkind
    have hcalm : (Frame.ofBytes limit frame).isFatal = false := by
      rw [hkind]
      rfl
    exact ⟨Frame.exists_text_of_request hkind, isLine_of_calm hframes hcalm⟩
  · rw [hrun]
  · intro k hk
    have htake : (run limit bytes).replies.take k =
        (asked limit (requests limit (start.frames limit bytes))).replies.take k := by
      rw [hrun]
      exact List.take_append_of_le_length (hlength ▸ hk)
    rw [htake]
    exact ⟨replies_asked_take limit _ k, by rw [List.length_take]; omega⟩
  · rw [hrun]
  · exact fun complaint reply _ => reply.exists_line complaint
  · exact Reply.lineFeed_notMem_errorJson
  · intro first frame hframes hends other hother
    rw [run_of_endsAtOnce hframes hends hother]
    exact ⟨rfl, rfl⟩

end Connection

end ShellQuest.Relay
