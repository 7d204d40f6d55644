/-
# Replies given before

A connection never looks at what it has answered.  So one with some more replies behind it takes
every byte as it would without them (`receiveAll_following`), and what it answers to some bytes is
added to what it answered before.
-/
import ShellQuest.Proofs.Relay.Trace

namespace ShellQuest.Relay.Connection

variable {limit : Nat} {c : Connection} {earlier : List Reply}

/-- The connection with some replies before its own. -/
def following (c : Connection) (earlier : List Reply) : Connection :=
  { c with replies := earlier ++ c.replies }

def unanswered (c : Connection) : Connection := { c with replies := [] }

@[simp] theorem following_replies (c : Connection) (earlier : List Reply) :
    (c.following earlier).replies = earlier ++ c.replies := rfl

@[simp] theorem following_pending (c : Connection) (earlier : List Reply) :
    (c.following earlier).pending = c.pending := rfl

@[simp] theorem following_ending (c : Connection) (earlier : List Reply) :
    (c.following earlier).ending = c.ending := rfl

theorem unanswered_following (c : Connection) : c.unanswered.following c.replies = c := by
  simp only [following, unanswered, List.append_nil]

theorem following_unanswered (c : Connection) (earlier : List Reply) :
    (c.following earlier).unanswered = c.unanswered := rfl

/-! ## What a connection does next -/

theorem reply_following (c : Connection) (earlier : List Reply) (r : Reply) :
    (c.following earlier).reply r = (c.reply r).following earlier := by
  simp only [following, reply, List.append_assoc]

theorem play_following (c : Connection) (earlier : List Reply) (command : String) :
    (c.following earlier).play command = (c.play command).following earlier := by
  simp only [play, reply, following, List.append_assoc]

theorem answer_following (limit : Nat) (c : Connection) (earlier : List Reply) (request : String) :
    (c.following earlier).answer limit request = (c.answer limit request).following earlier := by
  rw [answer, answer]
  cases readRequest request with
  | none => exact reply_following c earlier _
  | some command =>
      dsimp only
      cases InputLine.clean command limit with
      | error why => exact reply_following c earlier _
      | ok command => exact play_following c earlier command

theorem take_following (limit : Nat) (c : Connection) (earlier : List Reply) (frame : Frame) :
    (c.following earlier).take limit frame = (c.take limit frame).following earlier := by
  cases frame with
  | noText | blank => rfl
  | cut =>
      rw [take, reply_following]
      rfl
  | request text => exact answer_following limit c earlier text

theorem takeFrame_following (limit : Nat) (c : Connection) (earlier : List Reply)
    (frame : Array UInt8) :
    (c.following earlier).takeFrame limit frame = (c.takeFrame limit frame).following earlier := by
  obtain ⟨bytes⟩ := frame
  rw [takeFrame_eq, takeFrame_eq, take_following]

theorem receive_following (limit : Nat) (c : Connection) (earlier : List Reply) (byte : UInt8) :
    (c.following earlier).receive limit byte = (c.receive limit byte).following earlier := by
  have hframe := takeFrame_following limit { c with pending := #[] } earlier (c.pending.push byte)
  rw [receive, receive, following_ending, following_pending]
  split
  · rfl
  · dsimp only
    split
    · exact hframe
    · rfl

theorem receiveAll_following (limit : Nat) (c : Connection) (earlier : List Reply)
    (bytes : List UInt8) :
    (c.following earlier).receiveAll limit bytes =
      (c.receiveAll limit bytes).following earlier := by
  induction bytes generalizing c with
  | nil => rfl
  | cons byte bytes ih =>
      rw [receiveAll, List.foldl_cons, receive_following, ← receiveAll, ih, receiveAll, receiveAll,
        List.foldl_cons]

theorem close_following (c : Connection) (earlier : List Reply) :
    (c.following earlier).close = c.close.following earlier := by
  rw [close, close, following_ending]
  split
  · rfl
  · rfl

theorem hangUp_following (limit : Nat) (c : Connection) (earlier : List Reply) :
    (c.following earlier).hangUp limit = (c.hangUp limit).following earlier := by
  have hframe := takeFrame_following limit { c with pending := #[] } earlier c.pending
  by_cases hended : c.ending.isSome = true
  · have hfollowing : (c.following earlier).ending.isSome = true := hended
    rw [hangUp_of_ended hended, hangUp_of_ended hfollowing]
  · have hopen : c.ending = none := by simpa using hended
    by_cases hpending : c.pending = #[]
    · have hready : c.Ready := ⟨hopen, hpending⟩
      have hfollowing : (c.following earlier).Ready := ⟨hopen, hpending⟩
      rw [hready.hangUp, hfollowing.hangUp, close_following]
    · rw [hangUp_of_pending limit hopen hpending, ← close_following, ← hframe]
      exact hangUp_of_pending limit hopen hpending

/-! ## Replies are only added -/

/-- What some bytes are answered with comes after what was answered before. -/
theorem replies_receiveAll (limit : Nat) (c : Connection) (bytes : List UInt8) :
    (c.receiveAll limit bytes).replies =
      c.replies ++ (c.unanswered.receiveAll limit bytes).replies := by
  have hsplit := receiveAll_following limit c.unanswered c.replies bytes
  rw [unanswered_following] at hsplit
  rw [hsplit, following_replies]

theorem unanswered_receiveAll (limit : Nat) (c : Connection) (bytes : List UInt8) :
    (c.receiveAll limit bytes).unanswered = (c.unanswered.receiveAll limit bytes).unanswered := by
  have hsplit := receiveAll_following limit c.unanswered c.replies bytes
  rw [unanswered_following] at hsplit
  rw [hsplit, following_unanswered]

theorem replies_finish (limit : Nat) (c : Connection) (bytes : List UInt8) :
    ((c.receiveAll limit bytes).hangUp limit).replies =
      c.replies ++ ((c.unanswered.receiveAll limit bytes).hangUp limit).replies := by
  have hsplit := receiveAll_following limit c.unanswered c.replies bytes
  rw [unanswered_following] at hsplit
  rw [hsplit, hangUp_following, following_replies]

theorem unanswered_finish (limit : Nat) (c : Connection) (bytes : List UInt8) :
    ((c.receiveAll limit bytes).hangUp limit).unanswered =
      ((c.unanswered.receiveAll limit bytes).hangUp limit).unanswered := by
  have hsplit := receiveAll_following limit c.unanswered c.replies bytes
  rw [unanswered_following] at hsplit
  rw [hsplit, hangUp_following, following_unanswered]

/-- What was answered so far is answered, whatever the client goes on to send. -/
theorem replies_prefix_run (limit : Nat) (bytes more : List UInt8) :
    (start.receiveAll limit bytes).replies <+: (run limit (bytes ++ more)).replies := by
  rw [run, receiveAll_append, replies_finish]
  exact List.prefix_append _ _

end ShellQuest.Relay.Connection
