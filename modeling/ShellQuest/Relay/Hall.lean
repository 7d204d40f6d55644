/-
# The hall

Many clients connect to one server, which has a number of slots.  A client that finds a slot free
takes it and plays a game of its own until its connection ends, which gives the slot back.  Any other
client is told that the server is full, and that is the end of its connection.

The slots are only counted: nothing ties the count to the games that go on but that each game takes
one slot as it starts and gives one back as it ends.
-/
import ShellQuest.Relay.Connection

namespace ShellQuest.Relay

/-- What a server is set up with: how many games it allows at once, and how long a command may be.
The slots are the permits of a semaphore, which holds `2 ^ 61 - 1` of them at most: a server that is
set up with more does not start, so `slots` stands for a smaller number. -/
structure HallRules where
  slots : Nat
  limit : Nat
deriving DecidableEq, Repr

/-- A client's place in the hall. -/
inductive Guest where
  | admitted (connection : Connection)
  | refused
deriving Repr

namespace Guest

def replies : Guest → List Reply
  | admitted c => c.replies
  | refused => [.serverFull]

def isPlaying : Guest → Bool
  | admitted c => c.ending.isNone
  | refused => false

def events : Guest → List Event
  | admitted c => c.events
  | refused => []

/-- The client after its connection has changed; a refused client has none. -/
def update (f : Connection → Connection) : Guest → Guest
  | admitted c => admitted (f c)
  | refused => refused

end Guest

/-- The clients in the order in which they came, how many slots are taken, and the tally. -/
structure Hall where
  guests : List Guest
  taken : Nat
  tally : Tally
deriving Repr

namespace Hall

def start : Hall := { guests := [], taken := 0, tally := Tally.zero }

/-- A game has ended: its slot is given back. -/
def giveBack (h : Hall) : Hall := { h with taken := h.taken - 1, tally := h.tally.closeSession }

/-- Changes the connection of the client `n`, and counts what happens in it. -/
def update (h : Hall) (n : Nat) (f : Connection → Connection) : Hall :=
  match h.guests[n]? with
  | none => h
  | some old =>
      let new := old.update f
      let next := { h with
        guests := h.guests.set n new
        tally := h.tally.countAll (new.events.drop old.events.length) }
      if old.isPlaying && !new.isPlaying then next.giveBack else next

def enter (r : HallRules) (h : Hall) : Hall :=
  if h.taken < r.slots then {
    guests := h.guests ++ [.admitted Connection.start]
    taken := h.taken + 1
    tally := h.tally.openSession }
  else { h with guests := h.guests ++ [.refused] }

def send (r : HallRules) (h : Hall) (n : Nat) (bytes : List UInt8) : Hall :=
  h.update n fun c => c.receiveAll r.limit bytes

def leave (r : HallRules) (h : Hall) (n : Nat) : Hall := h.update n fun c => c.hangUp r.limit

def repliesTo (h : Hall) (n : Nat) : List Reply :=
  match h.guests[n]? with
  | some g => g.replies
  | none => []

end Hall

inductive HallStep where
  | enter
  | send (n : Nat) (bytes : List UInt8)
  | leave (n : Nat)
deriving DecidableEq, Repr

namespace Hall

def step (r : HallRules) (h : Hall) : HallStep → Hall
  | .enter => h.enter r
  | .send n bytes => h.send r n bytes
  | .leave n => h.leave r n

def run (r : HallRules) (steps : List HallStep) : Hall := steps.foldl (step r) start

end Hall

end ShellQuest.Relay
