/-
# The tally

Counters of the sessions that were opened, are open, and were open at once at most, and of what
happened in them.
-/
import ShellQuest.Session.Basic

namespace ShellQuest

/-- The counters.  `peak` is the largest value that `active` has had.  The program keeps them in 64 bits;
here they have no bound, and the two differ only when `2 ^ 64` events have been counted. -/
structure Tally where
  opened : Nat
  active : Nat
  peak : Nat
  commands : Nat
  commandErrors : Nat
  lessons : Nat
  missions : Nat
deriving DecidableEq, Repr

namespace Tally

def zero : Tally := ⟨0, 0, 0, 0, 0, 0, 0⟩

def openSession (t : Tally) : Tally :=
  { t with
    opened := t.opened + 1, active := t.active + 1, peak := Nat.max t.peak (t.active + 1) }

/-- Counts a session that closes; with none open, nothing changes. -/
def closeSession (t : Tally) : Tally := { t with active := t.active - 1 }

def countCommand (t : Tally) : Tally := { t with commands := t.commands + 1 }

def countCommandError (t : Tally) : Tally := { t with commandErrors := t.commandErrors + 1 }

def countLesson (t : Tally) : Tally := { t with lessons := t.lessons + 1 }

def countMission (t : Tally) : Tally := { t with missions := t.missions + 1 }

def count (t : Tally) : Event → Tally
  | .commandTyped _ _ => t.countCommand
  | .commandRejected _ => t.countCommandError
  | .lessonCompleted _ => t.countLesson
  | .missionCompleted => t.countMission
  | .directoryCreated _ _ | .archiveAdopted _ => t

def countAll (t : Tally) (events : List Event) : Tally := events.foldl count t

inductive Step where
  | openSession
  | closeSession
  | countCommand
  | countCommandError
  | countLesson
  | countMission
deriving DecidableEq, Repr

def step (t : Tally) : Step → Tally
  | .openSession => t.openSession
  | .closeSession => t.closeSession
  | .countCommand => t.countCommand
  | .countCommandError => t.countCommandError
  | .countLesson => t.countLesson
  | .countMission => t.countMission

/-- What an operation reports, told from the counters before it: the number of sessions that are
open now, if it opened or closed one. -/
def report? (t : Tally) : Step → Option Nat
  | .openSession => some (t.active + 1)
  | .closeSession => some (t.active - 1)
  | .countCommand | .countCommandError | .countLesson | .countMission => none

def run (t : Tally) (steps : List Step) : Tally := steps.foldl step t

end Tally

end ShellQuest
