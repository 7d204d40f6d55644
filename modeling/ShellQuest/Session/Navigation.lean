/-
# Moving about and looking around

The commands `ls`, `cd` and `pwd`.  A directory is entered by its name from the one above it; the
way up is `..`, and `~` is home.  A path is walked segment by segment, by the same rules.
-/
import ShellQuest.Session.Basic

namespace ShellQuest.Session

/-- Why `ls` refuses an argument: one can only list where one stands. -/
def listRefusal (s : Session) (target : String) : CommandError :=
  if s.hasExit target then .listNeedsCd target
  else if s.world.knowsDirectory target then .listElsewhere target
  else .noSuchDirectory target

/-- The files here and the directories below, with single spaces between them. -/
def listing (s : Session) : String :=
  let files := " ".intercalate s.here.items
  let directories := " ".intercalate
    ((s.world.childExits s.current).map fun l => Markup.directory l.name)
  if files.isEmpty || directories.isEmpty then files ++ directories
  else s!"{files} {directories}"

def ls (s : Session) (args : List String) : Except CommandError Outcome :=
  match args with
  | target :: _ => .error (s.listRefusal target)
  | [] => .ok (.shows s s.listing)

/-- The directory reached from `start` by one segment.  A path that is being walked is named when a
segment of it is not found. -/
def step (w : World) (path : Option String) (start : LocationId) (segment : String) :
    Except CommandError LocationId :=
  if segment = "~" then .ok LocationId.home
  else if segment = ".." then
    match w.parentOf start with
    | some above => .ok above
    | none => .error (if start = LocationId.home then .atRoot else .parentNotFound)
  else if (w.location start).hasItem segment then .error (.notADirectory segment)
  else
    match w.exitNamed start segment with
    | none =>
        .error (match path with
          | some path => .pathSegmentNotFound segment path
          | none => .directoryNotFound segment)
    | some next =>
        if w.parentOf start = some next then
          .error (if next = LocationId.home then .homeByName
            else .parentByName segment (w.location start).name)
        else .ok next

/-- The directory reached from `start` by the segments of a path, one after the other. -/
def walk (w : World) (path : String) (start : LocationId) :
    List String → Except CommandError LocationId
  | [] => .ok start
  | segment :: rest =>
      match step w (some path) start segment with
      | .ok next => walk w path next rest
      | .error e => .error e

/-- Goes to a directory.  A path that starts with a slash starts at home. -/
def cd (s : Session) (target : String) : Except CommandError Outcome :=
  if Text.hasChar target '/' then
    let start := if Text.startsWith target "/" then LocationId.home else s.current
    match walk s.world target start (Text.segments target) with
    | .ok next => .ok (.shows { s with current := next } s!"Changed directory to {target}")
    | .error e => .error e
  else
    match step s.world none s.current target with
    | .ok next =>
        .ok (.shows { s with current := next }
          s!"Changed directory to {(s.world.location next).name}")
    | .error e => .error e

/-- Where the player stands, with `~` for home. -/
def pwd (s : Session) : String :=
  if s.here.id = LocationId.home then "~" else s!"/{s.here.name}"

end ShellQuest.Session
