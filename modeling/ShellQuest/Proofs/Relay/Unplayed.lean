/-
# Lines that are not played

The game never hears of a line of white space, nor of one that is refused: because it is no request,
or because its command is too long or holds control characters.  Such a line is answered with an
error, or not at all, and leaves everything but the replies as it was (`Ready.receiveAll_unplayed`).
As a connection never looks at its replies either, a stream with such lines put in goes on where the
stream without them would have gone on.
-/
import ShellQuest.Proofs.Relay.Delivery
import ShellQuest.Proofs.Relay.Replies

namespace ShellQuest

namespace Relay

open Text (bytes lineFeed)

variable {limit : Nat} {t : String}

/-- The bytes of a text on a line of its own. -/
def textLine (t : String) : List UInt8 := bytes (t ++ "\n")

theorem textLine_eq (t : String) : textLine t = bytes t ++ [lineFeed] := by
  rw [textLine, Text.bytes_append]
  rfl

/-- The text is one line that fits into a frame, and it is not played: it is white space, or it is
no request, or its command is too long or holds control characters other than tabs. -/
structure Unplayed (limit : Nat) (t : String) : Prop where
  single : '\n' ∉ t.toList
  fits : (textLine t).length ≤ frameCap limit
  unheard : Text.IsBlank t ∨ readRequest (Text.trim t) = none ∨
    ∃ command, readRequest (Text.trim t) = some command ∧
      (limit < command.utf8ByteSize ∨ ¬ InputLine.IsPlain (InputLine.unended command))

theorem unplayed_writeRequest {command : String}
    (hfits : (requestLine command).utf8ByteSize ≤ frameCap limit)
    (h : limit < command.utf8ByteSize ∨ ¬ InputLine.IsPlain (InputLine.unended command)) :
    Unplayed limit (writeRequest command) := by
  refine ⟨lineFeed_notMem_writeRequest command, hfits, .inr (.inr ⟨command, ?_, h⟩)⟩
  rw [trim_writeRequest, readRequest_writeRequest]

/-- What the client is told about a line that is not played: nothing if it is white space. -/
def objection (limit : Nat) (t : String) : Option Reply :=
  if Text.IsBlank t then none
  else
    match readRequest (Text.trim t) with
    | none => some (.badRequest (Text.trim t))
    | some command =>
        some (.refused
          (if limit < command.utf8ByteSize then .tooLong limit else .controlCharacters))

theorem exists_message_of_objection {r : Reply} (h : objection limit t = some r) :
    ∀ complaint, ∃ message, r.toJson complaint = Reply.errorJson message := by
  intro complaint
  rw [objection] at h
  split at h
  · cases h
  · split at h
    · cases h
      exact ⟨_, rfl⟩
    · cases h
      exact ⟨_, rfl⟩

theorem objection_eq_none : objection limit t = none ↔ Text.IsBlank t := by
  rw [objection]
  split
  · next h => exact ⟨fun _ => h, fun _ => rfl⟩
  · next h =>
    refine ⟨fun hnone => ?_, fun hblank => absurd hblank h⟩
    split at hnone
    · cases hnone
    · cases hnone

theorem Unplayed.ofBytes_textLine (h : Unplayed limit t) :
    Frame.ofBytes limit ((textLine t).take (frameCap limit)) =
      if Text.IsBlank t then .blank else .request (Text.trim t) := by
  have htake : (textLine t).take (frameCap limit) = textLine t := List.take_of_length_le h.fits
  have htext : String.fromUTF8? ⟨(textLine t).toArray⟩ = some (t ++ "\n") :=
    Text.fromUTF8?_eq_some.2 rfl
  have hlast : (textLine t).getLast? = some lineFeed := by
    rw [textLine_eq]
    exact List.getLast?_concat
  rw [htake, Frame.ofBytes, htext]
  simp only [hlast, Text.trim_append_lineFeed, Text.isEmpty_trim]
  simp

namespace Connection

variable {c : Connection}

/-! ## One line -/

theorem answer_unplayed (c : Connection) (h : Unplayed limit t) (hwords : ¬ Text.IsBlank t) :
    c.answer limit (Text.trim t) =
      { c with replies := c.replies ++ (objection limit t).toList } := by
  rw [answer, objection, if_neg hwords]
  rcases h.unheard with hblank | hnone | ⟨command, hcommand, hrefused⟩
  · exact absurd hblank hwords
  · rw [hnone]
    rfl
  · rw [hcommand]
    by_cases hlong : limit < command.utf8ByteSize
    · simp only [InputLine.clean_of_lt hlong, hlong, if_true]
      rfl
    · have hcontrol := hrefused.resolve_left hlong
      simp only [InputLine.clean_of_not_isPlain hlong hcontrol, hlong, if_false]
      rfl

theorem Ready.receiveAll_textLine (hc : c.Ready) (h : Unplayed limit t) :
    c.receiveAll limit (textLine t) =
      { c with replies := c.replies ++ (objection limit t).toList } := by
  have hfree : lineFeed ∉ bytes t := by
    rw [Text.lineFeed_mem_bytes]
    exact h.single
  have htaken : c.receiveAll limit (textLine t) = c.takeLine limit (textLine t) := by
    rw [textLine_eq]
    exact (hc.takes_line limit hfree).state_eq
  rw [htaken, hc.takeLine, h.ofBytes_textLine]
  split
  · next hblank =>
    rw [objection_eq_none.2 hblank, Option.toList_none, List.append_nil]
    rfl
  · next hwords =>
    rw [take]
    exact answer_unplayed c h hwords

/-! ## Many lines -/

def objections (limit : Nat) (texts : List String) : List Reply := texts.filterMap (objection limit)

theorem objections_cons (limit : Nat) (t : String) (texts : List String) :
    objections limit (t :: texts) = (objection limit t).toList ++ objections limit texts := by
  cases hobjection : objection limit t with
  | none =>
      rw [objections, List.filterMap_cons_none hobjection, Option.toList_none, List.nil_append,
        ← objections]
  | some r =>
      rw [objections, List.filterMap_cons_some hobjection, Option.toList_some,
        List.singleton_append, ← objections]

theorem length_objections (limit : Nat) (texts : List String) :
    (objections limit texts).length = texts.countP fun t => ¬ Text.IsBlank t := by
  induction texts with
  | nil => rfl
  | cons t texts ih =>
      rw [objections_cons, List.length_append, ih]
      by_cases hblank : Text.IsBlank t
      · rw [objection_eq_none.2 hblank, List.countP_cons_of_neg (by simpa using hblank)]
        exact Nat.zero_add _
      · obtain ⟨r, hr⟩ := Option.ne_none_iff_exists'.1 (mt objection_eq_none.1 hblank)
        rw [hr, List.countP_cons_of_pos (by simpa using hblank)]
        exact Nat.add_comm _ _

/-- Lines that are not played leave everything but the replies as it was. -/
theorem Ready.receiveAll_unplayed {texts : List String} (hc : c.Ready)
    (h : ∀ t ∈ texts, Unplayed limit t) :
    c.receiveAll limit (texts.flatMap textLine) =
      { c with replies := c.replies ++ objections limit texts } := by
  induction texts generalizing c with
  | nil =>
      rw [objections, List.filterMap_nil, List.append_nil]
      rfl
  | cons t texts ih =>
      obtain ⟨ht, htexts⟩ := List.forall_mem_cons.1 h
      have hready : Ready { c with replies := c.replies ++ (objection limit t).toList } :=
        ⟨hc.open_, hc.between⟩
      rw [List.flatMap_cons, receiveAll_append, hc.receiveAll_textLine ht, ih hready htexts,
        objections_cons, List.append_assoc]

/-! ## Places in a stream -/

/-- The client has sent these bytes and its connection goes on, at the start of a line. -/
structure AtLine (limit : Nat) (c : Connection) (before : List UInt8) : Prop where
  starts : before = [] ∨ before.getLast? = some lineFeed
  goesOn : (c.receiveAll limit before).ending = none

instance (limit : Nat) (c : Connection) (before : List UInt8) : Decidable (AtLine limit c before) :=
  decidable_of_iff ((before = [] ∨ before.getLast? = some lineFeed) ∧
    (c.receiveAll limit before).ending = none)
    ⟨fun h => ⟨h.1, h.2⟩, fun h => ⟨h.starts, h.goesOn⟩⟩

theorem Ready.receiveAll_atLine {before : List UInt8} (hc : c.Ready) (h : AtLine limit c before) :
    (c.receiveAll limit before).Ready := by
  induction before using Text.line_induction generalizing c with
  | hopen tail htail =>
      rcases h.starts with rfl | hlast
      · exact hc
      · exact absurd (List.mem_of_getLast? hlast) htail
  | hline body rest hbody ih =>
      obtain ⟨hstarts, hopen⟩ := h
      rw [(hc.first_line hbody rest).2] at hopen ⊢
      by_cases hended : (c.takeLine limit (body ++ [lineFeed])).ending.isSome = true
      · rw [(takes_of_ended limit hended rest).state_eq] at hopen
        rw [hopen] at hended
        cases hended
      · refine ih (hc.takeLine_ready hended) ⟨?_, hopen⟩
        rcases hstarts with hnil | hlast
        · exact absurd hnil (by simp)
        · cases rest with
          | nil => exact .inl rfl
          | cons byte rest =>
              rw [List.getLast?_append_cons, List.getLast?_cons_cons] at hlast
              exact .inr hlast

theorem AtLine.of_append {first second : List UInt8} (h : AtLine limit c (first ++ second)) :
    AtLine limit (c.receiveAll limit first) second := by
  constructor
  · by_cases hnil : second = []
    · exact .inl hnil
    · rcases h.starts with hnone | hlast
      · exact .inl (List.append_eq_nil_iff.1 hnone).2
      · rw [List.getLast?_append_of_ne_nil _ hnil] at hlast
        exact .inr hlast
  · rw [← receiveAll_append]
    exact h.goesOn

/-- A stretch of a stream, and the lines that are put in after it. -/
structure Stretch where
  bytes : List UInt8
  inserted : List String

/-- The stream as it was. -/
def plain (stretches : List Stretch) : List UInt8 := stretches.flatMap Stretch.bytes

def disturbed (stretches : List Stretch) : List UInt8 :=
  stretches.flatMap fun s => s.bytes ++ s.inserted.flatMap textLine

/-- What a connection answers to each of these stretches. -/
def answers (limit : Nat) : Connection → List Stretch → List (List Reply)
  | _, [] => []
  | c, s :: stretches =>
      (c.unanswered.receiveAll limit s.bytes).replies ::
        answers limit (c.receiveAll limit s.bytes) stretches

/-- The answers to some stretches, each followed by the objections to the lines put in after it. -/
def disturbedReplies (limit : Nat) (given : List (List Reply)) (stretches : List Stretch) :
    List Reply :=
  (List.zipWith (fun replies s => replies ++ objections limit s.inserted) given stretches).flatten

theorem plain_cons (s : Stretch) (stretches : List Stretch) :
    plain (s :: stretches) = s.bytes ++ plain stretches := by
  rw [plain, List.flatMap_cons, ← plain]

theorem disturbed_cons (s : Stretch) (stretches : List Stretch) :
    disturbed (s :: stretches) =
      s.bytes ++ (s.inserted.flatMap textLine ++ disturbed stretches) := by
  rw [disturbed, List.flatMap_cons, ← disturbed, List.append_assoc]

theorem length_answers (limit : Nat) (c : Connection) (stretches : List Stretch) :
    (answers limit c stretches).length = stretches.length := by
  induction stretches generalizing c with
  | nil => rfl
  | cons s stretches ih => rw [answers, List.length_cons, List.length_cons, ih]

theorem answers_take (limit : Nat) (c : Connection) (stretches : List Stretch) (k : Nat) :
    answers limit c (stretches.take k) = (answers limit c stretches).take k := by
  induction stretches generalizing c k with
  | nil => rw [List.take_nil, answers, List.take_nil]
  | cons s stretches ih =>
      cases k with
      | zero => rw [List.take_zero, List.take_zero, answers]
      | succ k => rw [List.take_succ_cons, answers, answers, List.take_succ_cons, ih]

theorem replies_plain (limit : Nat) (c : Connection) (stretches : List Stretch) :
    (c.receiveAll limit (plain stretches)).replies =
      c.replies ++ (answers limit c stretches).flatten := by
  induction stretches generalizing c with
  | nil =>
      rw [answers, List.flatten_nil, List.append_nil]
      rfl
  | cons s stretches ih =>
      rw [plain_cons, receiveAll_append, ih, replies_receiveAll, answers, List.flatten_cons,
        List.append_assoc]

/-! ## Two connections that differ in their replies -/

variable {d : Connection}

theorem Ready.of_unanswered (hc : c.Ready) (h : c.unanswered = d.unanswered) : d.Ready :=
  ⟨(congrArg ending h).symm.trans hc.open_, (congrArg pending h).symm.trans hc.between⟩

/-- The lines that are put in only add what they are answered with. -/
theorem Ready.receiveAll_disturbed {stretches : List Stretch} (hc : c.Ready)
    (h : c.unanswered = d.unanswered)
    (hplaces : ∀ k ≤ stretches.length, AtLine limit c (plain (stretches.take k)))
    (hlines : ∀ s ∈ stretches, ∀ t ∈ s.inserted, Unplayed limit t) :
    (c.receiveAll limit (plain stretches)).unanswered =
        (d.receiveAll limit (disturbed stretches)).unanswered ∧
      (d.receiveAll limit (disturbed stretches)).replies =
        d.replies ++ disturbedReplies limit (answers limit c stretches) stretches := by
  induction stretches generalizing c d with
  | nil => exact ⟨h, (List.append_nil _).symm⟩
  | cons s stretches ih =>
      obtain ⟨hs, hstretches⟩ := List.forall_mem_cons.1 hlines
      have hplace : AtLine limit c s.bytes := by
        have hone := hplaces 1 (Nat.le_add_left 1 _)
        rwa [List.take_succ_cons, List.take_zero, plain_cons, plain, List.flatMap_nil,
          List.append_nil] at hone
      have hrest : ∀ k ≤ stretches.length,
          AtLine limit (c.receiveAll limit s.bytes) (plain (stretches.take k)) := by
        intro k hk
        have hnext := hplaces (k + 1) (Nat.succ_le_succ hk)
        rw [List.take_succ_cons, plain_cons] at hnext
        exact hnext.of_append
      have hready : (c.receiveAll limit s.bytes).Ready := hc.receiveAll_atLine hplace
      have hsame : (c.receiveAll limit s.bytes).unanswered =
          (d.receiveAll limit s.bytes).unanswered := by
        rw [unanswered_receiveAll, h, ← unanswered_receiveAll]
      -- after the stretch come the lines put in, which change nothing but the replies
      have hobjected := (hready.of_unanswered hsame).receiveAll_unplayed hs
      obtain ⟨hleft, hreplies⟩ := ih hready (d := { d.receiveAll limit s.bytes with
        replies := (d.receiveAll limit s.bytes).replies ++ objections limit s.inserted })
        hsame hrest hstretches
      rw [plain_cons, disturbed_cons, receiveAll_append, receiveAll_append, receiveAll_append,
        hobjected]
      refine ⟨hleft, ?_⟩
      rw [hreplies, replies_receiveAll, ← h, answers, disturbedReplies, disturbedReplies,
        List.zipWith_cons_cons, List.flatten_cons]
      simp only [List.append_assoc]

/-- **Lines that are not played only add objections.**  Lines that are blank or refused are put into
a stream where its connection starts a line.  The connection then gives the replies it gave before,
with an error among them for each line that is not white space, right where the line was put in; and
it ends in the same way, with the same game and the same counters. -/
theorem unplayed_lines (limit : Nat) (stretches : List Stretch) (rest : List UInt8)
    (hplaces : ∀ k ≤ stretches.length, AtLine limit start (plain (stretches.take k)))
    (hlines : ∀ s ∈ stretches, ∀ t ∈ s.inserted, Unplayed limit t) :
    (∃ given last, given.length = stretches.length ∧
        (∀ k ≤ stretches.length, (start.receiveAll limit (plain (stretches.take k))).replies =
          (given.take k).flatten) ∧
        (run limit (plain stretches ++ rest)).replies = given.flatten ++ last ∧
        (run limit (disturbed stretches ++ rest)).replies =
          disturbedReplies limit given stretches ++ last) ∧
      (run limit (disturbed stretches ++ rest)).ending =
        (run limit (plain stretches ++ rest)).ending ∧
      (run limit (disturbed stretches ++ rest)).session =
        (run limit (plain stretches ++ rest)).session ∧
      (∀ tally : Tally, account tally (run limit (disturbed stretches ++ rest)) =
        account tally (run limit (plain stretches ++ rest))) ∧
      ∀ s ∈ stretches,
        (objections limit s.inserted).length = (s.inserted.countP fun t => ¬ Text.IsBlank t) ∧
          ∀ r ∈ objections limit s.inserted, ∀ complaint,
            ∃ message, r.toJson complaint = Reply.errorJson message := by
  obtain ⟨hsame, hreplies⟩ := ready_start.receiveAll_disturbed rfl hplaces hlines
  have hrun (bytes : List UInt8) : run limit (bytes ++ rest) =
      ((start.receiveAll limit bytes).receiveAll limit rest).hangUp limit := by
    rw [run, receiveAll_append]
  let last := (((start.receiveAll limit (plain stretches)).unanswered.receiveAll limit
    rest).hangUp limit).replies
  have hleft : (run limit (disturbed stretches ++ rest)).unanswered =
      (run limit (plain stretches ++ rest)).unanswered := by
    rw [hrun, hrun, unanswered_finish, ← hsame, ← unanswered_finish]
  have hending := congrArg ending hleft
  have hsession := congrArg session hleft
  have hevents := congrArg events hleft
  refine ⟨⟨answers limit start stretches, last, length_answers limit start stretches, ?_, ?_, ?_⟩,
    hending, hsession, ?_, ?_⟩
  · intro k _
    rw [replies_plain, answers_take]
    rfl
  · rw [hrun, replies_finish, replies_plain]
    rfl
  · rw [hrun, replies_finish, hreplies, ← hsame]
    rfl
  · intro tally
    exact congrArg (fun events => (tally.openSession.countAll events).closeSession) hevents
  · intro s _
    refine ⟨length_objections limit s.inserted, fun r hr => ?_⟩
    obtain ⟨t, -, hobjection⟩ := List.mem_filterMap.1 hr
    exact exists_message_of_objection hobjection

/-- White space and a line that is no request before a command; a bell and a long command after. -/
def aroundLs : List Stretch :=
  [⟨[], ["  ", "not json"]⟩,
    ⟨textLine (writeRequest "ls"), [writeRequest "\x07", writeRequest "aaaaaaaaaaaaaaaaa"]⟩]

theorem unplayed_lines_around_ls :
    (∀ k ≤ aroundLs.length, AtLine 16 start (plain (aroundLs.take k))) ∧
      (∀ s ∈ aroundLs, ∀ t ∈ s.inserted, Unplayed 16 t) ∧
      (run 16 (disturbed aroundLs ++ textLine (writeRequest "pwd"))).session =
        (run 16 (plain aroundLs ++ textLine (writeRequest "pwd"))).session ∧
      aroundLs.map (fun s => objections 16 s.inserted) =
        [[.badRequest "not json"], [.refused .controlCharacters, .refused (.tooLong 16)]] := by
  have hplaces : ∀ k ≤ aroundLs.length, AtLine 16 start (plain (aroundLs.take k)) := by
    decide +kernel
  have hlines : ∀ s ∈ aroundLs, ∀ t ∈ s.inserted, Unplayed 16 t := by
    simp only [aroundLs, List.forall_mem_cons, List.not_mem_nil, false_implies, implies_true,
      and_true]
    refine ⟨⟨?_, ?_⟩, ?_, ?_⟩
    · exact ⟨by decide, by decide, .inl (by decide)⟩
    · exact ⟨by decide, by decide, .inr (.inl (by decide +kernel))⟩
    · exact unplayed_writeRequest (by decide +kernel) (.inr (by decide))
    · exact unplayed_writeRequest (by decide +kernel) (.inl (by decide))
  obtain ⟨-, -, hsession, -⟩ :=
    unplayed_lines 16 aroundLs (textLine (writeRequest "pwd")) hplaces hlines
  exact ⟨hplaces, hlines, hsession, by decide +kernel⟩

end Connection

end Relay

end ShellQuest
