/-
# The program

The thin layer between the runs of the program and the machine.  It fetches the command line, the
files and what the player types, and it shows, logs and writes what the library says.
-/
import ShellQuest.Program.Run
import Std.Time.Format

namespace ShellQuest.Program

/-- The time as a log record carries it, in UTC. -/
def timeStamp : IO String := do
  let now ← Std.Time.Timestamp.now
  let time := Std.Time.DateTime.ofTimestampWithZone now Std.Time.TimeZone.UTC
  return time.format "uuuu-MM-dd'T'HH:mm:ss'Z'"

/-- What stands at a path.  What cannot be opened is not there, unless it is forbidden; what can be
opened and not read is a directory. -/
def entryAt (path : String) : IO Entry := do
  match ← (IO.FS.Handle.mk path .read).toBaseIO with
  | .error (.permissionDenied _ _ _) => return .directory
  | .error _ => return .nothing
  | .ok file =>
      match ← file.readBinToEnd.toBaseIO with
      | .ok bytes => return .file bytes
      | .error _ => return .directory

structure Logger where
  sink : IO.FS.Stream
  filter : Log.Filter

/-- The log of a task: its file, or standard error if there is none or it cannot be written. -/
def openLogger (call : Invocation) (s : LogSettings) : IO Logger := do
  let filter := call.logFilter s
  match s.file with
  | none => return { sink := ← IO.getStderr, filter }
  | some path =>
      try
        let file ← IO.FS.Handle.mk path .append
        return { sink := IO.FS.Stream.ofHandle file, filter }
      catch _ => return { sink := ← IO.getStderr, filter }

def Logger.write (logger : Logger) (records : List Log.Record) : IO Unit := do
  logger.sink.putStr (logText (← timeStamp) logger.filter records)
  logger.sink.flush

/-- Shows a text at once. -/
def display (text : String) : IO Unit := do
  let output ← IO.getStdout
  output.putStr text
  output.flush

/-- The bytes up to a line feed, or to the end of the input, after those in `line`. -/
partial def readBytes (input : IO.FS.Stream) (line : ByteArray) : IO ByteArray := do
  let next ← input.read 1
  if next.isEmpty then return line
  let line := line ++ next
  if next[0]? = some Text.lineFeed then return line
  readBytes input line

/-- Plays on until the game ends, and answers how it ends, in which state, and what happened. -/
partial def converse (g : GameSettings) (logger : Logger) (s : Session) (events : List Event) :
    IO (Terminal.Ending × Session × List Event) := do
  display (Terminal.ask s)
  match Text.lines (← readBytes (← IO.getStdin) ByteArray.empty).toList with
  | [] => return (.left, s, events)
  | typed :: _ =>
      let step := Terminal.takeLine g s typed
      display step.shown
      logger.write (step.events.map Event.toRecord)
      let events := events ++ step.events
      match step.ending with
      | some ending => return (ending, step.session, events)
      | none => converse g logger step.session events

/-- Plays a game with the player at the terminal. -/
def playHere (s : Settings) (logger : Logger) : IO ExitCode := do
  display (Terminal.opening s.game)
  let (ending, session, events) ← converse s.game logger Session.start []
  let last : Terminal.Transcript := { shown := "", events, session, ending }
  logger.write last.closingRecords
  return exitCode ending

/-- Starts the relay, which this program can do only as far as it needs no network. -/
def serveHere (r : RelaySettings) (logger : Logger) : IO ExitCode := do
  logger.write serving.records
  IO.eprintln s!"Error: Failed to bind relay on {r.bind}"
  return serving.code

def initHere (path : String) : IO ExitCode := do
  try
    IO.FS.writeFile path (Settings.toToml {})
    display (writtenLine path)
    return .success
  catch _ =>
    IO.eprintln s!"Error: Failed to write config file {path}"
    return .failure

def carryOut (call : Invocation) : IO ExitCode := do
  if call.task = .init then initHere call.config
  else
    match (← entryAt call.config).settings with
    | .error _ =>
        IO.eprintln s!"Error: Failed to read or parse config file {call.config}"
        return .failure
    | .ok settings =>
        let logger ← openLogger call settings.log
        if call.task = .play then playHere settings logger
        else serveHere (call.relay settings.relay) logger

end ShellQuest.Program

open ShellQuest.Program in
def main (words : List String) : IO UInt32 := do
  let code ← match Invocation.ofArguments words with
    | .ok call => carryOut call
    | .error .help => display Invocation.usage; pure ExitCode.success
    | .error .version => display versionLine; pure ExitCode.success
    | .error .misuse => IO.eprint Invocation.usage; pure ExitCode.misuse
  return code.toNat.toUInt32
