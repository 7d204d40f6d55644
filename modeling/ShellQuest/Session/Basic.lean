/-
# Sessions

One player's game: the world as the player has changed it, where the player stands, what was typed,
and how far the lessons and the mission are.
-/
import ShellQuest.Command.Basic
import ShellQuest.Command.Error
import ShellQuest.Lesson
import ShellQuest.Log
import ShellQuest.World.Edit
import ShellQuest.World.Seed

namespace ShellQuest

/-- The state of one game.  `history` holds the lines that were commands, trimmed, the oldest
first; no command puts anything into `inventory` yet. -/
structure Session where
  world : World
  current : LocationId
  history : List String
  missionComplete : Bool
  inventory : List String
  lessons : LessonProgress
deriving DecidableEq, Repr

/-- What a line is answered with: the result to show, and the state beside it. -/
structure Response where
  result : String
  location : String
  challenge : String
  challengeHint : String
deriving DecidableEq, Repr

namespace Response

def clearsScreen (r : Response) : Bool := Markup.clearsScreen r.result

end Response

/-- Something that happened in a session and that is counted or logged. -/
inductive Event where
  | commandTyped (key line : String)
  | commandRejected (error : CommandError)
  | directoryCreated (key parentKey : String)
  | archiveAdopted (key : String)
  | lessonCompleted (lesson : Lesson)
  | missionCompleted
deriving DecidableEq, Repr

namespace Event

def toRecord : Event → Log.Record
  | commandTyped key line => ⟨.debug, s!"command at {key}: {Log.escape line}"⟩
  | commandRejected error =>
      ⟨.debug, s!"command rejected ({error.category.name}): {Log.escape error.message}"⟩
  | directoryCreated key parentKey =>
      ⟨.debug, s!"created directory key={key} under {parentKey}"⟩
  | archiveAdopted key => ⟨.debug, s!"adopting existing directory key={key} as archive"⟩
  | lessonCompleted lesson => ⟨.info, s!"lesson complete: {lesson.id}"⟩
  | missionCompleted => ⟨.info, "mission complete: treasure returned to archive/relics"⟩

end Event

namespace Session

/-- A new game: the world at the start, the player at home, nothing typed and nothing learned. -/
def start : Session where
  world := World.seeded
  current := LocationId.home
  history := []
  missionComplete := false
  inventory := []
  lessons := LessonProgress.none

/-- The directory in which the player stands. -/
def here (s : Session) : Location := s.world.location s.current

/-- A file of this name lies where the player stands. -/
def hasItem (s : Session) (name : String) : Bool := s.here.hasItem name

/-- A directory of this name lies next to where the player stands. -/
def hasExit (s : Session) (name : String) : Bool := s.world.hasExit s.current name

def prompt (s : Session) : String := if s.current = LocationId.home then "~" else s.here.name

/-- The last two lines are the same command, however their words are spaced. -/
def repeatsLast (s : Session) : Bool :=
  match s.history.reverse with
  | last :: previous :: _ => Command.normalized previous == Command.normalized last
  | _ => false

/-- The answer that shows `result` beside the state of the session. -/
def response (s : Session) (result : String) : Response where
  result := result
  location := s.here.key
  challenge := s.lessons.challenge
  challengeHint := s.lessons.challengeHint

/-- The state of the session without any result. -/
def snapshot (s : Session) : Response := s.response ""

end Session

/-- What a command that was carried out leaves: the new state, its output, and what happened. -/
structure Outcome where
  session : Session
  output : String
  events : List Event := []
deriving DecidableEq, Repr

namespace Outcome

/-- The outcome of a command that only shows something. -/
def shows (session : Session) (output : String) : Outcome := { session, output }

end Outcome

end ShellQuest
