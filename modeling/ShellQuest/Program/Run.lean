/-
# Runs of the program

What a run prints, which exit code it ends with and what it leaves on the disk, from its command
line, the bytes typed into it and the disk it finds.  The parts of a run are definitions of their
own, so that a terminal can go through them while the player types.
-/
import ShellQuest.Program.Disk
import ShellQuest.Program.Invocation
import ShellQuest.Settings
import ShellQuest.Terminal

namespace ShellQuest.Program

def version : String := "0.3.0"

def versionLine : String := s!"cli-adventures {version}\n"

def writtenLine (path : String) : String := s!"Wrote default configuration to {path}\n"

/-- The settings that an entry of the disk holds: the default ones if there is none. -/
def Entry.settings : Entry → Except Settings.Refusal Settings
  | .nothing => Settings.ofFileOrDefault none
  | .directory => Settings.ofFile none
  | .file bytes => Settings.ofFileOrDefault (some bytes)

/-- What is logged.  A command line that asks for more is obeyed; a game without a log file is not
disturbed except by warnings. -/
def Invocation.logFilter (call : Invocation) (s : LogSettings) : Log.Filter :=
  match call.verbosity with
  | 0 => if call.task = .play ∧ s.file = none then .upTo .warn else s.filter
  | 1 => .upTo .debug
  | _ => .upTo .trace

/-- What the relay does, at the address that the command line asks for. -/
def Invocation.relay (call : Invocation) (s : RelaySettings) : RelaySettings :=
  { s with bind := call.bind.getD s.bind }

def relayStarts : Log.Record := ⟨.info, s!"Starting CLI Adventures relay v{version}"⟩

/-- Success, failure, and a command line that makes no sense. -/
inductive ExitCode where
  | success
  | failure
  | misuse
deriving DecidableEq, Repr

def ExitCode.toNat : ExitCode → Nat
  | success => 0
  | failure => 1
  | misuse => 2

def exitCode : Terminal.Ending → ExitCode
  | .left => .success
  | .brokenOff => .failure

structure Report where
  code : ExitCode
  output : String
  disk : Disk

/-- What a task shows and logs, apart from where its records go. -/
structure Doing where
  code : ExitCode
  output : String
  records : List Log.Record

/-- A game over all that is typed. -/
def playing (s : Settings) (typed : List UInt8) : Doing :=
  let game := Terminal.play s.game typed
  { code := exitCode game.ending, output := game.shown, records := game.records }

/-- The relay where there is no network: no address can be listened on. -/
def serving : Doing := { code := .failure, output := "", records := [relayStarts] }

/-- The text of the records that a filter keeps. -/
def logText (stamp : String) (filter : Log.Filter) (records : List Log.Record) : String :=
  String.join ((records.filter fun r => filter.keeps r.level).map (Log.Record.line stamp))

/-- The disk after some records are logged.  Where there is no log file, or it cannot be written,
the records do not go to the disk. -/
def Disk.logged (d : Disk) (file : Option String) (text : String) : Disk :=
  match file with
  | none => d
  | some path => (d.append? path text.toUTF8).getD d

def writeDefaults (path : String) (d : Disk) : Report :=
  match d.write? path (Settings.toToml {}).toUTF8 with
  | none => { code := .failure, output := "", disk := d }
  | some written => { code := .success, output := writtenLine path, disk := written }

def perform (stamp : String) (call : Invocation) (doing : Settings → Doing) (d : Disk) : Report :=
  match (d.entry call.config).settings with
  | .error _ => { code := .failure, output := "", disk := d }
  | .ok settings =>
      let done := doing settings
      let text := logText stamp (call.logFilter settings.log) done.records
      { code := done.code, output := done.output, disk := d.logged settings.log.file text }

/-- A run of the program.  `stamp` is the time that its log records carry. -/
def run (stamp : String) (words : List String) (typed : List UInt8) (d : Disk) : Report :=
  match Invocation.ofArguments words with
  | .error .help => { code := .success, output := Invocation.usage, disk := d }
  | .error .version => { code := .success, output := versionLine, disk := d }
  | .error .misuse => { code := .misuse, output := "", disk := d }
  | .ok call =>
      match call.task with
      | .init => writeDefaults call.config d
      | .play => perform stamp call (fun settings => playing settings typed) d
      | .serve => perform stamp call (fun _ => serving) d

end ShellQuest.Program
