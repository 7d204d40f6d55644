/-
# Clients on their own

What other clients do never reaches a client's connection: a step of the hall is a step of the one
client whose step it is, and nothing to the others (`getElem?_step`).  So all that a run is to a
client are its own bytes, and whether it has hung up (`foldl_act_admitted`); the client gets what a
connection gives that takes these bytes alone.  For a client that was refused, nothing is a step at
all.
-/
import ShellQuest.Proofs.Relay.Replies
import ShellQuest.Proofs.Relay.Requests
import ShellQuest.Relay.Hall

namespace ShellQuest.Relay

/-! ## The steps of one client -/

namespace HallStep

/-- The bytes that the client `n` sends before it hangs up. -/
def bytesOf (n : Nat) : List HallStep → List UInt8
  | [] => []
  | enter :: steps => bytesOf n steps
  | send m bytes :: steps => (if m = n then bytes else []) ++ bytesOf n steps
  | leave m :: steps => if m = n then [] else bytesOf n steps

def newcomer (steps : List HallStep) : Nat := steps.count enter

end HallStep

namespace Connection

variable {limit n : Nat} {steps : List HallStep}

/-- The connection that takes what the client `n` sends in these steps, and its end if the client
hangs up. -/
def alone (limit n : Nat) (steps : List HallStep) : Connection :=
  if .leave n ∈ steps then run limit (HallStep.bytesOf n steps)
  else start.receiveAll limit (HallStep.bytesOf n steps)

theorem alone_of_left (h : .leave n ∈ steps) :
    alone limit n steps = run limit (HallStep.bytesOf n steps) := if_pos h

theorem alone_of_staying (h : .leave n ∉ steps) :
    alone limit n steps = start.receiveAll limit (HallStep.bytesOf n steps) := if_neg h

end Connection

namespace Guest

def act (r : HallRules) (n : Nat) (g : Guest) : HallStep → Guest
  | .enter => g
  | .send m bytes => if m = n then g.update fun c => c.receiveAll r.limit bytes else g
  | .leave m => if m = n then g.update fun c => c.hangUp r.limit else g

variable {r : HallRules} {n : Nat}

theorem act_refused (r : HallRules) (n : Nat) (s : HallStep) : refused.act r n s = refused := by
  cases s with
  | enter => rfl
  | send m bytes => exact ite_self _
  | leave m => exact ite_self _

theorem foldl_act_refused (r : HallRules) (n : Nat) (steps : List HallStep) :
    steps.foldl (act r n) refused = refused := by
  induction steps with
  | nil => rfl
  | cons s steps ih => rw [List.foldl_cons, act_refused, ih]

theorem act_of_ended {c : Connection} (h : c.ending.isSome = true) (s : HallStep) :
    (admitted c).act r n s = admitted c := by
  cases s with
  | enter => rfl
  | send m bytes =>
      rw [act, update, (Connection.takes_of_ended r.limit h bytes).state_eq, ite_self]
  | leave m => rw [act, update, Connection.hangUp_of_ended h, ite_self]

theorem foldl_act_of_ended {c : Connection} (h : c.ending.isSome = true) (steps : List HallStep) :
    steps.foldl (act r n) (admitted c) = admitted c := by
  induction steps with
  | nil => rfl
  | cons s steps ih => rw [List.foldl_cons, act_of_ended h, ih]

/-- All that matters of a run to a client that plays are its own bytes, and whether it hangs up. -/
theorem foldl_act_admitted (r : HallRules) (n : Nat) (c : Connection) (steps : List HallStep) :
    steps.foldl (act r n) (admitted c) =
      admitted (if .leave n ∈ steps then
          (c.receiveAll r.limit (HallStep.bytesOf n steps)).hangUp r.limit
        else c.receiveAll r.limit (HallStep.bytesOf n steps)) := by
  induction steps generalizing c with
  | nil => rfl
  | cons s steps ih =>
      rw [List.foldl_cons]
      cases s with
      | enter =>
          rw [act, ih]
          simp [HallStep.bytesOf]
      | send m bytes =>
          by_cases hm : m = n
          · rw [act, if_pos hm, update, ih]
            simp [HallStep.bytesOf, hm, Connection.receiveAll_append]
          · rw [act, if_neg hm, ih]
            simp [HallStep.bytesOf, hm]
      | leave m =>
          by_cases hm : m = n
          · rw [act, if_pos hm, update,
              foldl_act_of_ended (Connection.isSome_ending_hangUp r.limit c)]
            simp [HallStep.bytesOf, hm]
            rfl
          · rw [act, if_neg hm, ih]
            simp [HallStep.bytesOf, hm, Ne.symm hm]

end Guest

/-! ## The hall as its clients -/

namespace Hall

open HallStep (bytesOf newcomer)

variable {r : HallRules} {h : Hall} {n : Nat}

theorem guests_update (h : Hall) (n : Nat) (f : Connection → Connection) :
    (h.update n f).guests = h.guests.modify n (Guest.update f) := by
  rw [update]
  cases hguest : h.guests[n]? with
  | none => rw [List.modify_eq_self (List.getElem?_eq_none_iff.1 hguest)]
  | some old =>
      obtain ⟨hn, hold⟩ := List.getElem?_eq_some_iff.1 hguest
      have hset : h.guests.set n (old.update f) = h.guests.modify n (Guest.update f) := by
        apply List.ext_getElem?
        intro m
        rw [List.getElem?_set, List.getElem?_modify]
        by_cases hm : n = m
        · subst hm
          simp only [if_true, if_pos hn, hguest, Option.map_eq_map, Option.map_some]
        · simp only [if_neg hm, Option.map_eq_map, Option.map_id']
      rw [← hset]
      dsimp only
      split
      · rfl
      · rfl

theorem guests_enter (r : HallRules) (h : Hall) :
    (h.enter r).guests =
      h.guests ++ [if h.taken < r.slots then .admitted Connection.start else .refused] := by
  rw [enter]
  split
  · rfl
  · rfl

/-- A step of the hall is to each client what it is to the client alone. -/
theorem getElem?_step (r : HallRules) (hn : n < h.guests.length) (s : HallStep) :
    (h.step r s).guests[n]? = h.guests[n]?.map fun g => g.act r n s := by
  cases s with
  | enter =>
      rw [step, guests_enter, List.getElem?_append_left hn]
      exact Option.map_id'.symm
  | send m bytes =>
      rw [step, send, guests_update, List.getElem?_modify]
      rfl
  | leave m =>
      rw [step, leave, guests_update, List.getElem?_modify]
      rfl

theorem length_guests_step (r : HallRules) (h : Hall) (s : HallStep) :
    (h.step r s).guests.length = h.guests.length + [s].count .enter := by
  cases s with
  | enter =>
      rw [step, guests_enter, List.length_append]
      rfl
  | send m bytes =>
      rw [step, send, guests_update, List.length_modify]
      rfl
  | leave m =>
      rw [step, leave, guests_update, List.length_modify]
      rfl

def goOn (r : HallRules) (h : Hall) (steps : List HallStep) : Hall := steps.foldl (step r) h

theorem run_append (r : HallRules) (before after : List HallStep) :
    run r (before ++ after) = (run r before).goOn r after := by
  rw [run, List.foldl_append, ← run, goOn]

theorem length_guests_goOn (r : HallRules) (h : Hall) (steps : List HallStep) :
    (h.goOn r steps).guests.length = h.guests.length + steps.count .enter := by
  induction steps generalizing h with
  | nil => rfl
  | cons s steps ih =>
      have hcount : (s :: steps).count .enter = [s].count .enter + steps.count .enter := by
        rw [← List.count_append, List.singleton_append]
      rw [goOn, List.foldl_cons, ← goOn, ih, length_guests_step, hcount, Nat.add_assoc]

theorem length_guests_run (r : HallRules) (steps : List HallStep) :
    (run r steps).guests.length = steps.count .enter := by
  rw [run, ← goOn, length_guests_goOn]
  exact Nat.zero_add _

theorem getElem?_goOn (r : HallRules) (hn : n < h.guests.length) (steps : List HallStep) :
    (h.goOn r steps).guests[n]? = h.guests[n]?.map fun g => steps.foldl (Guest.act r n) g := by
  induction steps generalizing h with
  | nil => exact Option.map_id'.symm
  | cons s steps ih =>
      have hnext : n < (h.step r s).guests.length := by
        rw [length_guests_step]
        omega
      rw [goOn, List.foldl_cons, ← goOn, ih hnext, getElem?_step r hn, Option.map_map]
      rfl

/-- A client's part of a run starts when it comes, with a slot if one is free. -/
theorem getElem?_run (r : HallRules) (before after : List HallStep) :
    (run r (before ++ .enter :: after)).guests[newcomer before]? =
      some (if (run r before).taken < r.slots then
        .admitted (Connection.alone r.limit (newcomer before) after) else .refused) := by
  have hcame : newcomer before < ((run r before).enter r).guests.length := by
    rw [guests_enter, List.length_append, length_guests_run]
    exact Nat.lt_succ_self _
  have hguest : ((run r before).enter r).guests[newcomer before]? =
      some (if (run r before).taken < r.slots then .admitted Connection.start else .refused) := by
    rw [guests_enter, newcomer, ← length_guests_run r before]
    exact List.getElem?_concat_length
  rw [run_append, goOn, List.foldl_cons, ← goOn, step, getElem?_goOn r hcame, hguest,
    Option.map_some]
  split
  · rw [Guest.foldl_act_admitted]
    rfl
  · rw [Guest.foldl_act_refused]

end Hall

/-! ## What a client reads -/

variable {complaint : String → String}

/-- What a client reads: its lines, and whether its stream has come to an end. -/
structure Transcript where
  lines : List String
  ended : Bool
deriving DecidableEq, Repr

def Connection.transcript (complaint : String → String) (c : Connection) : Transcript :=
  ⟨c.replies.map (Reply.line complaint), c.ending.isSome⟩

def Guest.transcript (complaint : String → String) (g : Guest) : Transcript :=
  ⟨g.replies.map (Reply.line complaint), !g.isPlaying⟩

theorem Guest.transcript_admitted (c : Connection) :
    (admitted c).transcript complaint = c.transcript complaint := by
  rw [transcript, isPlaying, Option.not_isNone]
  rfl

theorem Guest.transcript_refused : refused.transcript complaint =
    ⟨["\x7b\"error\":\"server is full, try again later\"\x7d\n"], true⟩ := by
  have hline : Reply.errorJson "server is full, try again later" ++ "\n" =
      "\x7b\"error\":\"server is full, try again later\"\x7d\n" := by decide
  rw [← hline]
  rfl

theorem Connection.lines_prefix_run (limit : Nat) (bytes more : List UInt8) :
    ((start.receiveAll limit bytes).transcript complaint).lines <+:
      ((run limit (bytes ++ more)).transcript complaint).lines :=
  (replies_prefix_run limit bytes more).map (Reply.line complaint)

namespace Hall

open HallStep (bytesOf newcomer)

/-- **Clients do not notice each other.**  A client that finds a slot free has the connection that
takes its own bytes alone, and reads what this connection gives; if it hangs up, this is a whole
connection, and until then it reads the first lines of every whole connection that goes on from its
bytes, and all of them once its stream has ended.  Any other client reads that the server is full,
and then the end of its stream.  So it is whatever the other clients do, before and after. -/
theorem isolation (complaint : String → String) (r : HallRules) (before after : List HallStep) :
    (run r (before ++ .enter :: after)).guests[newcomer before]? = some
        (if (run r before).taken < r.slots then
          .admitted (Connection.alone r.limit (newcomer before) after) else .refused) ∧
      (run r (before ++ .enter :: after)).guests[newcomer before]?.map (Guest.transcript complaint) =
        some
        (if (run r before).taken < r.slots then
          (Connection.alone r.limit (newcomer before) after).transcript complaint
        else ⟨["\x7b\"error\":\"server is full, try again later\"\x7d\n"], true⟩) ∧
      (.leave (newcomer before) ∈ after →
        Connection.alone r.limit (newcomer before) after =
          Connection.run r.limit (bytesOf (newcomer before) after)) ∧
      (.leave (newcomer before) ∉ after → ∀ more,
        ((Connection.alone r.limit (newcomer before) after).transcript complaint).lines <+:
            ((Connection.run r.limit (bytesOf (newcomer before) after ++ more)).transcript
              complaint).lines ∧
          (((Connection.alone r.limit (newcomer before) after).transcript complaint).ended = true →
            Connection.run r.limit (bytesOf (newcomer before) after ++ more) =
              Connection.alone r.limit (newcomer before) after)) := by
  refine ⟨getElem?_run r before after, ?_, Connection.alone_of_left, fun hstays more => ?_⟩
  · rw [getElem?_run, Option.map_some, apply_ite (Guest.transcript complaint), Guest.transcript_admitted,
      Guest.transcript_refused]
  · rw [Connection.alone_of_staying hstays]
    refine ⟨Connection.lines_prefix_run r.limit _ more, fun hended => ?_⟩
    exact Connection.run_of_ended hended (List.prefix_append _ more)

end Hall

end ShellQuest.Relay
