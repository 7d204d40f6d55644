/-
# Grading

When a command satisfies a lesson.  A lesson is judged in the session that the command leaves,
whether it was carried out or refused: it asks where the player stands and what the world holds.
Only the way up must have been taken in fact.
-/
import ShellQuest.Session.Basic

namespace ShellQuest.Session

/-- `command`, which was carried out if `succeeded`, satisfies the lesson in the session that it
left. -/
def satisfies (s : Session) (lesson : Lesson) (command : Command) (succeeded : Bool) : Bool :=
  let first := command.args.head?
  match lesson with
  | .ls => command.verb == .ls && command.args.isEmpty
  | .cd =>
      command.verb == .cd &&
        (first == some "documents" || first == some "downloads" || first == some "projects") &&
        first == some s.here.name
  | .cat =>
      command.verb == .cat &&
        first.any fun file => s.hasItem file && (s.world.content file).isSome
  | .pwd => command.verb == .pwd
  | .cdParent => command.verb == .cd && first == some ".." && succeeded
  | .missionBrief => command.verb == .cat && first == some "mission.txt"
  | .findTreasure =>
      s.current == LocationId.hiddenVault &&
        (command.verb == .ls ||
          (command.verb == .cd &&
            (first == some "hidden_vault" || first == some "projects/hidden_vault")))
  | .unzipArchive =>
      command.verb == .unzip && first == some "archive.zip" &&
        s.current == LocationId.downloads && s.world.archive.isSome
  | .createRelics =>
      command.verb == .mkdir && first == some "relics" &&
        some s.current == s.world.archive && s.world.relics.isSome
  | .missionComplete => s.missionComplete

/-- The banner put before the output of the command that finished a lesson. -/
def banner (lesson : Lesson) : String := s!"🎉 Challenge completed: {lesson.description}\n"

/-- Finishes the earliest lesson that is pending if the command satisfied it. -/
def grade (s : Session) (command : Command) (succeeded : Bool) (output : String) : Outcome :=
  match s.lessons.current with
  | none => .shows s output
  | some lesson =>
      if s.satisfies lesson command succeeded then {
        session := { s with lessons := s.lessons.complete lesson }
        output := banner lesson ++ output
        events := [.lessonCompleted lesson] }
      else .shows s output

end ShellQuest.Session
