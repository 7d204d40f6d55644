/-
# Connections

One client plays one game over a stream of bytes.  The bytes are cut into frames: a frame ends with
its line feed, when it reaches the cap, or when the client hangs up.  A frame that is not UTF-8
ends the connection; so does one that is cut at the cap, after an error.  A blank frame is passed
over, and any other is answered with one reply.

The connection takes its bytes one at a time, so that it does not matter how they arrive.
-/
import ShellQuest.Relay.Message
import ShellQuest.Session.Turn
import ShellQuest.Tally
import ShellQuest.Text.Basic

namespace ShellQuest.Relay

/-- The longest frame for commands of at most `limit` bytes: room for quotes and escapes around
the command, counted in 64 bits. -/
def frameCap (limit : Nat) : Nat := Nat.max 64 (Nat.min (4 * limit) (UInt64.size - 1))

inductive Ending where
  | finished
  | invalidData
deriving DecidableEq, Repr

/-- A connection: its game, the bytes of the frame that is arriving, what was answered and what
happened so far, and how it ended, once it has. -/
structure Connection where
  session : Session
  pending : Array UInt8
  replies : List Reply
  events : List Event
  ending : Option Ending
deriving Repr

namespace Connection

def start : Connection where
  session := Session.start
  pending := #[]
  replies := []
  events := []
  ending := none

def reply (c : Connection) (r : Reply) : Connection := { c with replies := c.replies ++ [r] }

def play (c : Connection) (command : String) : Connection :=
  let turn := c.session.process command
  { c with session := turn.session, events := c.events ++ turn.events }.reply (.played turn.response)

/-- Answers a request, which is neither blank nor too long. -/
def answer (limit : Nat) (c : Connection) (request : String) : Connection :=
  match readRequest request with
  | none => c.reply (.badRequest request)
  | some command =>
      match InputLine.clean command limit with
      | .error why => c.reply (.refused why)
      | .ok command => c.play command

def takeFrame (limit : Nat) (c : Connection) (frame : Array UInt8) : Connection :=
  match String.fromUTF8? ⟨frame⟩ with
  | none => { c with ending := some .invalidData }
  | some text =>
      if frame.back? ≠ some Text.lineFeed ∧ frame.size = frameCap limit then
        { c.reply .requestTooLong with ending := some .finished }
      else
        let request := Text.trim text
        if request.isEmpty then c else c.answer limit request

/-- Takes one byte. A connection that has ended takes no more. -/
def receive (limit : Nat) (c : Connection) (byte : UInt8) : Connection :=
  if c.ending.isSome then c
  else
    let frame := c.pending.push byte
    if byte = Text.lineFeed ∨ frame.size = frameCap limit then
      { c with pending := #[] }.takeFrame limit frame
    else { c with pending := frame }

def receiveAll (limit : Nat) (c : Connection) (bytes : List UInt8) : Connection :=
  bytes.foldl (receive limit) c

/-- The client hangs up: what has arrived is the last frame. -/
def hangUp (limit : Nat) (c : Connection) : Connection :=
  if c.ending.isSome then c
  else
    let c := if c.pending.isEmpty then c
      else { c with pending := #[] }.takeFrame limit c.pending
    if c.ending.isSome then c else { c with ending := some .finished }

/-- A whole connection: a client that sends these bytes and hangs up. -/
def run (limit : Nat) (bytes : List UInt8) : Connection :=
  (start.receiveAll limit bytes).hangUp limit

/-- The tally after a connection, which opens a session and closes it however it ends. -/
def account (t : Tally) (c : Connection) : Tally :=
  (t.openSession.countAll c.events).closeSession

end Connection

end ShellQuest.Relay
