/-
# The accounts of a connection

What a connection leaves on the tally, told from the bytes that it was sent.  Of these come the lines
that are reached, of the lines the requests, and of the requests the commands that the game gets
(`accepted`).  The connection plays just these: its session is the game after them, and what it reports
is what they report (`run_eq_turns`), so the counters grow as those of a game at a terminal would.

How the connection ends is of no account.  The frame that ends it is no request, and the session is
counted as closed after whatever came before.
-/
import ShellQuest.Proofs.Relay.Trace
import ShellQuest.Proofs.Session.Counts

namespace ShellQuest.Relay

open Text (fullLines)

/-- The command that the game gets of a request: the one that is asked for, cleaned. -/
def accepted? (limit : Nat) (request : String) : Option String :=
  (readRequest request).bind fun command => (InputLine.clean command limit).toOption

namespace Connection

/-- The commands that the game gets from a client that sends these bytes and hangs up. -/
def accepted (limit : Nat) (bytes : List UInt8) : List String :=
  (requests limit (reached limit (fullLines bytes))).filterMap (accepted? limit)

theorem answer_eq_turns (limit : Nat) (c : Connection) (request : String) :
    (c.answer limit request).session = c.session.after (accepted? limit request).toList ∧
      (c.answer limit request).events =
        c.events ++ c.session.events (accepted? limit request).toList := by
  rw [answer, accepted?]
  cases readRequest request with
  | none => exact ⟨rfl, (List.append_nil _).symm⟩
  | some command =>
      dsimp only [Option.bind_some]
      cases InputLine.clean command limit with
      | error why => exact ⟨rfl, (List.append_nil _).symm⟩
      | ok command =>
          simp only [Except.toOption, Option.toList_some, Session.after_cons, Session.after_nil,
            Session.events_singleton, play, reply, and_self]

theorem foldl_answer_eq_turns (limit : Nat) (c : Connection) (requests : List String) :
    (requests.foldl (answer limit) c).session =
        c.session.after (requests.filterMap (accepted? limit)) ∧
      (requests.foldl (answer limit) c).events =
        c.events ++ c.session.events (requests.filterMap (accepted? limit)) := by
  induction requests generalizing c with
  | nil => exact ⟨rfl, (List.append_nil _).symm⟩
  | cons request requests ih =>
      obtain ⟨hsession, hevents⟩ := answer_eq_turns limit c request
      obtain ⟨hrest, hmore⟩ := ih (c.answer limit request)
      have hsplit : (request :: requests).filterMap (accepted? limit) =
          (accepted? limit request).toList ++ requests.filterMap (accepted? limit) := by
        rw [List.filterMap_eq_flatMap_toList, List.flatMap_cons, ← List.filterMap_eq_flatMap_toList]
      rw [List.foldl_cons, hsplit, Session.after_append, Session.events_append]
      constructor
      · rw [hrest, hsession]
      · rw [hmore, hsession, hevents, List.append_assoc]

theorem run_eq_turns (limit : Nat) (bytes : List UInt8) :
    (run limit bytes).session = Session.start.after (accepted limit bytes) ∧
      (run limit bytes).events = Session.start.events (accepted limit bytes) := by
  have hplays := foldl_answer_eq_turns limit start (requests limit (reached limit (fullLines bytes)))
  rw [run_eq_asked, frames_eq_reached]
  exact hplays

/-- **The accounts of a connection balance.**  Whatever bytes a client sends, its connection ends, and
then the tally has one session more as opened, and none more as active.  As commands it has the
accepted ones that are not white space; as errors those of them that were refused; as lessons all
that were added to the finished ones, those that a reset took away included; and as missions the
returns of the treasure.  Where no command resets the game, the commands are those of the history and
the lessons those that are finished in the end. -/
theorem accounted (t : Tally) (limit : Nat) (bytes : List UInt8) :
    let c := run limit bytes
    let commands := accepted limit bytes
    let moments := Session.start.moments commands
    c.ending.isSome = true ∧
    c.session = Session.start.after commands ∧
    account t c = { t with
      opened := t.opened + 1
      peak := max t.peak (t.active + 1)
      commands := t.commands + commands.countP fun command => ¬ Text.IsBlank command
      commandErrors := t.commandErrors + moments.countP Moment.fails
      lessons := t.lessons + (moments.flatMap Moment.learned).length
      missions := t.missions + moments.countP Moment.returns } ∧
    ((∀ command ∈ commands, Command.resets command = false) →
      (commands.countP fun command => ¬ Text.IsBlank command) = c.session.history.length ∧
        (moments.flatMap Moment.learned).length = c.session.lessons.inOrder.length) := by
  intro c commands moments
  obtain ⟨hsession, hevents⟩ := run_eq_turns limit bytes
  refine ⟨isSome_ending_hangUp limit _, hsession, ?_, ?_⟩
  · rw [account, hevents, Session.countAll_events]
    rfl
  · intro hunbroken
    obtain ⟨hhistory, hlessons⟩ := Session.counts_of_unbroken Session.start hunbroken
    have hempty : Session.start.history.length = 0 := rfl
    have hnone : Session.start.lessons.inOrder.length = 0 := rfl
    rw [hempty, Nat.zero_add, ← hsession] at hhistory
    rw [hnone, Nat.zero_add, ← hsession] at hlessons
    exact ⟨hhistory.symm, hlessons.symm⟩

end Connection

end ShellQuest.Relay
