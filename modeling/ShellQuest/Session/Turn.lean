/-
# Turns

A line typed by the player is one turn of the game: it is trimmed, read as a command, noted in the
history, carried out or refused, and graded.  A line of white space is refused without being noted.
-/
import ShellQuest.Command.Error
import ShellQuest.Session.Files
import ShellQuest.Session.Grading
import ShellQuest.Session.Navigation

namespace ShellQuest

/-- What one line leaves: the new state, the answer, and what happened. -/
structure Turn where
  session : Session
  response : Response
  events : List Event
deriving DecidableEq, Repr

namespace Session

def welcome : String := "Welcome to CLI Adventures! Type 'help' to see available commands."

def farewell : String := "Thanks for playing CLI Adventures!"

def helpText : String :=
  "\n".intercalate [
    "Available commands:",
    "- help: Show this help message",
    "- ls: List contents of current directory",
    "- cd [directory]: Change to specified directory (use .. to go up one level, ~ to go home)",
    "- cat [file]: View contents of a file",
    "- pwd: Print working directory",
    "- mkdir [directory]: Create a new directory",
    "- touch [file]: Create a new empty file",
    "- rm [file]: Remove a file",
    "- mv [source] [destination]: Move or rename a file",
    "- cp [source] [destination]: Copy a file",
    "- clear: Clear the terminal",
    "- reset: Reset the game to its initial state",
    "- unzip [file.zip]: Extract contents of a zip file",
    "- exit: Exit the game"]

def resetText : String :=
  Markup.clearScreen ++ "\n" ++ Markup.success "=== Game Reset ===" ++ "\n" ++ welcome

/-- A command on exactly one argument. -/
def withArg (args : List String) (missing usage : String)
    (f : String → Except CommandError Outcome) : Except CommandError Outcome :=
  match args with
  | [] => .error (.missingArgument missing)
  | [only] => f only
  | _ => .error (.tooManyArguments usage)

/-- A command on exactly two arguments. -/
def withTwoArgs (args : List String) (missing : String)
    (f : String → String → Except CommandError Outcome) : Except CommandError Outcome :=
  match args with
  | [source, destination] => f source destination
  | [] | [_] => .error (.missingArgument missing)
  | _ => .error (.tooManyArguments "Use 'help' to confirm proper command usage.")

def execute (s : Session) (command : Command) : Except CommandError Outcome :=
  let args := command.args
  match command.verb with
  | .help => .ok (.shows s helpText)
  | .ls => s.ls args
  | .cd =>
      withArg args "No directory specified. Use 'cd [directory]' to navigate."
        "Usage: 'cd [directory]'." s.cd
  | .cat =>
      withArg args "Specify a file to view its contents. Usage: 'cat [filename]'."
        "Usage: 'cat [filename]'." s.cat
  | .pwd => .ok (.shows s s.pwd)
  | .mkdir =>
      withArg args "Specify a name. Usage: 'mkdir [dirname]'." "Usage: 'mkdir [dirname]'." s.mkdir
  | .touch =>
      withArg args "Specify a name. Usage: 'touch [filename]'." "Usage: 'touch [filename]'." s.touch
  | .rm =>
      withArg args "Specify a file to remove. Usage: 'rm [filename]'." "Usage: 'rm [filename]'." s.rm
  | .mv => withTwoArgs args "Missing arguments. Proper usage is 'mv [source] [destination]'." s.mv
  | .cp => withTwoArgs args "Missing arguments. Proper usage is 'cp [source] [destination]'." s.cp
  | .clear => .ok (.shows s Markup.clearScreen)
  | .reset => .ok (.shows start resetText)
  | .unzip =>
      withArg args "Specify a file to unzip. Usage: 'unzip [filename.zip]'."
        "Usage: 'unzip [filename.zip]'." s.unzip
  | .exit => .ok (.shows s farewell)
  | .unknown word => .error (Suggestion.answer word)

/-- Carries out the command of a trimmed line.  A word that is no verb but a file here is refused
as such. -/
def perform (s : Session) (typed : String) (command : Command) : Except CommandError Outcome :=
  match command.verb with
  | .unknown _ =>
      let token := (Text.words typed).headD ""
      if s.hasItem token then .error (.notExecutable token) else s.execute command
  | _ => s.execute command

/-- The session that has `typed` as its latest line. -/
def noting (s : Session) (typed : String) : Session :=
  { s with history := s.history ++ [typed] }

/-- Carries out and grades the command of a trimmed line that was noted.  A command that draws a
fresh screen is not graded. -/
def judge (s : Session) (typed : String) (command : Command) : Outcome :=
  match s.perform typed command with
  | .ok done =>
      if command.verb.redrawsScreen then done
      else
        let graded := done.session.grade command true done.output
        { graded with events := done.events ++ graded.events }
  | .error e =>
      let graded := s.grade command false e.render
      { graded with events := .commandRejected e :: graded.events }

def process (s : Session) (line : String) : Turn :=
  let typed := Text.trim line
  match Command.ofLine? typed with
  | none =>
      { session := s, response := s.response CommandError.emptyCommand.render, events := [] }
  | some command =>
      let done := (s.noting typed).judge typed command
      { session := done.session
        response := done.session.response done.output
        events := .commandTyped s.here.key typed :: done.events }

def after (s : Session) (lines : List String) : Session :=
  lines.foldl (fun s line => (s.process line).session) s

end Session

end ShellQuest
