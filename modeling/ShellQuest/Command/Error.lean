/-
# Errors of commands

Why a command was refused, one cause per constructor, with the words that the player reads.  The
causes fall into five categories; two of them come with a hint on what to do first.

A word that is no verb is answered with a suggestion where there is one.  A verb is a candidate for
a word when at least half of the word's characters occur in the verb.  Of the candidates the one
closest in length is suggested, the earliest in the order of help where several are.  A single
character is answered without a suggestion.
-/
import ShellQuest.Command.Basic
import ShellQuest.Markup

namespace ShellQuest

inductive ErrorCategory where
  | usage
  | notFound
  | kindMismatch
  | precondition
  | unknownCommand
deriving DecidableEq, Repr

namespace ErrorCategory

def name : ErrorCategory → String
  | usage => "Usage"
  | notFound => "NotFound"
  | kindMismatch => "KindMismatch"
  | precondition => "Precondition"
  | unknownCommand => "UnknownCommand"

end ErrorCategory

/-- Why a command was refused.  `missingArgument` and `tooManyArguments` carry the advice on the
proper use. -/
inductive CommandError where
  | emptyCommand
  | missingArgument (advice : String)
  | tooManyArguments (advice : String)
  | invalidName (name : String)
  | directoryNotFound (name : String)
  | pathSegmentNotFound (segment path : String)
  | parentNotFound
  | noSuchDirectory (name : String)
  | fileNotFound (name : String)
  | noContent (name : String)
  | removeMissing (name : String)
  | moveMissing (name : String)
  | copyMissing (name : String)
  | zipNotFound (name : String)
  | notADirectory (name : String)
  | catDirectory (name : String)
  | removeDirectory (name : String)
  | unzipDirectory (name : String)
  | notAZip (name : String)
  | directoryExists (name : String)
  | fileInTheWay (name : String)
  | directoryInTheWay (name : String)
  | notExecutable (name : String)
  | atRoot
  | homeByName
  | parentByName (target current : String)
  | listNeedsCd (name : String)
  | listElsewhere (name : String)
  | moveOntoItself (name : String)
  | copyOntoItself (name : String)
  | wouldOverwrite (name : String)
  | navigateToSource (path : String)
  | treasureNotHere (path destination : String)
  | crossDirectory
  | archiveMissing (name : String)
  | relicsMissing
  | wrongArchive (name : String)
  | archiveFileInTheWay (name : String)
  | unknownWithSuggestion (word suggestion : String)
  | unknown
deriving DecidableEq, Repr

namespace CommandError

def message : CommandError → String
  | emptyCommand => "No command entered. Type 'help' for a list of available commands."
  | missingArgument advice => advice
  | tooManyArguments advice => s!"Too many arguments provided. {advice}"
  | invalidName name =>
      s!"Invalid name '{name}'. Names cannot be '.', '..', '~' or contain '/'."
  | directoryNotFound name =>
      s!"Directory '{name}' not found here. " ++
      "Check your spelling or use 'ls' to verify available directories."
  | pathSegmentNotFound segment path => s!"Directory '{segment}' not found in the path {path}."
  | parentNotFound => "Could not find parent directory for part of the path."
  | noSuchDirectory name => s!"No such directory: '{name}'."
  | fileNotFound name =>
      s!"File '{name}' does not exist here. Use 'ls' to verify available files."
  | noContent name => s!"Cannot display contents of '{name}'."
  | removeMissing name => s!"Cannot remove '{name}': File does not exist."
  | moveMissing name => s!"Cannot move '{name}': File does not exist here."
  | copyMissing name => s!"Cannot copy '{name}': File does not exist here."
  | zipNotFound name => s!"Zip archive '{name}' not found."
  | notADirectory name => s!"'{name}' is a file. You can only 'cd' into directories."
  | catDirectory name =>
      s!"'{name}' is a directory. You can only use 'cat' to view file contents."
  | removeDirectory name =>
      s!"'{name}' is a directory. Current permissions do not allow directory removal."
  | unzipDirectory name => s!"'{name}' is a directory, not a zip archive."
  | notAZip name => s!"'{name}' is not a zip file. Use 'ls' to check available files."
  | directoryExists name => s!"Directory '{name}' already exists."
  | fileInTheWay name =>
      s!"Cannot create directory '{name}'. A file with that name already exists."
  | directoryInTheWay name =>
      s!"Cannot create file '{name}'. A directory with that name already exists."
  | notExecutable name =>
      s!"Cannot execute '{name}'. To view this file, type 'cat {name}' instead."
  | atRoot => "Already at the root directory; you cannot go any higher."
  | homeByName =>
      "Cannot access home directory directly from subdirectories. Use 'cd ~' instead."
  | parentByName target current =>
      s!"Cannot directly access parent directory '{target}' from '{current}'. Use 'cd ..' instead."
  | listNeedsCd name => s!"To view contents of '{name}', first use 'cd {name}', then 'ls'."
  | listElsewhere name =>
      s!"Cannot access '{name}' from current location. Use 'cd' to navigate there first."
  | moveOntoItself name => s!"Invalid operation. Cannot move '{name}' into itself."
  | copyOntoItself name => s!"Invalid operation. Cannot copy '{name}' into itself."
  | wouldOverwrite name => s!"'{name}' already exists. Cannot overwrite existing file."
  | navigateToSource path =>
      s!"Cannot move '{path}': You must first navigate to the directory containing the file."
  | treasureNotHere path destination =>
      s!"Cannot move '{path}': File does not exist here.\n\n" ++
      "To access this file, you need to navigate to it first:\n" ++
      s!"cd projects\ncd hidden_vault\nmv treasure.json {destination}"
  | crossDirectory =>
      "Cannot move files between directories using paths. You need to:\n" ++
      "1. Navigate to the source directory with 'cd'\n" ++
      "2. Move the file to the destination directory\n\n" ++
      "Example:\ncd downloads\ncd archive\nmv file.txt relics"
  | archiveMissing name => s!"Cannot move '{name}': Destination 'archive' not found."
  | relicsMissing => "Cannot move to 'relics': Directory not found."
  | wrongArchive name => s!"'{name}' is not a valid zip archive for this mission."
  | archiveFileInTheWay name =>
      s!"Cannot extract '{name}': a file named 'archive' already exists here."
  | unknownWithSuggestion word suggestion =>
      s!"Command '{word}' not recognized. Did you mean '{suggestion}'?"
  | unknown => "Command not recognized. Type 'help' for a list of valid commands."

def category : CommandError → ErrorCategory
  | emptyCommand | missingArgument _ | tooManyArguments _ | invalidName _ => .usage
  | directoryNotFound _ | pathSegmentNotFound _ _ | parentNotFound | noSuchDirectory _
  | fileNotFound _ | noContent _ | removeMissing _ | moveMissing _ | copyMissing _
  | zipNotFound _ => .notFound
  | notADirectory _ | catDirectory _ | removeDirectory _ | unzipDirectory _ | notAZip _
  | directoryExists _ | fileInTheWay _ | directoryInTheWay _ | notExecutable _ => .kindMismatch
  | atRoot | homeByName | parentByName _ _ | listNeedsCd _ | listElsewhere _ | moveOntoItself _
  | copyOntoItself _ | wouldOverwrite _ | navigateToSource _ | treasureNotHere _ _
  | crossDirectory | archiveMissing _ | relicsMissing | wrongArchive _
  | archiveFileInTheWay _ => .precondition
  | unknownWithSuggestion _ _ | unknown => .unknownCommand

/-- What to do first, for the two causes that stand before the end of the mission. -/
def hint : CommandError → Option String
  | archiveMissing _ =>
      some ("You need to extract archive.zip first using 'unzip archive.zip' in the " ++
        "downloads directory.")
  | relicsMissing =>
      some "You need to create the relics directory inside archive using 'mkdir relics'."
  | _ => none

/-- The result of a refused command: the message as a red line, and the hint below it. -/
def render (e : CommandError) : String :=
  let line := Markup.error s!"Error: {e.message}"
  match e.hint with
  | some hint => s!"{line}\n\nHint: {hint}"
  | none => line

end CommandError

namespace Suggestion

/-! ## Suggestions for unknown words -/

def distance (m n : Nat) : Nat := (m - n) + (n - m)

/-- At least half of the characters of `word` occur in `candidate`. -/
def qualifies (word candidate : String) : Bool :=
  word.length ≤ 2 * word.toList.countP fun c => candidate.toList.contains c

/-- The better of the best candidate so far and a new one: the new one only if it is closer in
length.  The program takes the bytes of a candidate for its length and the characters of the word; verbs
are spelled in ASCII, so that characters do for both. -/
def closer (word : String) (best : Option String) (candidate : String) : Option String :=
  match best with
  | none => some candidate
  | some held =>
      if distance candidate.length word.length < distance held.length word.length
      then some candidate else some held

example : ∀ v ∈ Verb.known, v.name.utf8ByteSize = v.name.length := by decide

/-- The candidate closest in length to `word`, the earliest of several. -/
def best (word : String) : Option String :=
  ((Verb.known.map Verb.name).filter (qualifies word)).foldl (closer word) none

def answer (word : String) : CommandError :=
  match best word with
  | some suggestion =>
      if suggestion ≠ word ∧ 1 < word.length then .unknownWithSuggestion word suggestion
      else .unknown
  | none => .unknown

end Suggestion

end ShellQuest
