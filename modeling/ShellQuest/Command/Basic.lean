/-
# Commands

A line is read as a command: its first word names the verb, whatever its case, and the other words
are the arguments as they were typed.
-/
import ShellQuest.Text.Basic
import ShellQuest.Text.LowerCase

namespace ShellQuest

/-- The verbs that the shell knows, and any other word, in lower case. -/
inductive Verb where
  | help
  | ls
  | cd
  | cat
  | pwd
  | mkdir
  | touch
  | rm
  | mv
  | cp
  | clear
  | reset
  | unzip
  | exit
  | unknown (word : String)
deriving DecidableEq, Repr

namespace Verb

/-- The verbs that the shell knows, in the order in which help lists them. -/
def known : List Verb :=
  [help, ls, cd, cat, pwd, mkdir, touch, rm, mv, cp, clear, reset, unzip, exit]

def name : Verb → String
  | help => "help"
  | ls => "ls"
  | cd => "cd"
  | cat => "cat"
  | pwd => "pwd"
  | mkdir => "mkdir"
  | touch => "touch"
  | rm => "rm"
  | mv => "mv"
  | cp => "cp"
  | clear => "clear"
  | reset => "reset"
  | unzip => "unzip"
  | exit => "exit"
  | unknown word => word

/-- The verb written as `word`, which is in lower case. -/
def ofLower (word : String) : Verb :=
  (known.find? fun v => v.name == word).getD (unknown word)

/-- The verb that a word names, whatever its case. -/
def ofWord (word : String) : Verb := ofLower (Text.lower word)

/-- The verb draws a fresh screen, so that nothing may stand before its output. -/
def redrawsScreen : Verb → Bool
  | clear | reset => true
  | _ => false

end Verb

structure Command where
  verb : Verb
  args : List String
deriving DecidableEq, Repr

namespace Command

/-- The command on a line; `none` for a line without words. -/
def ofLine? (line : String) : Option Command :=
  match Text.words line with
  | [] => none
  | word :: args => some { verb := Verb.ofWord word, args }

/-- The words of a line with single spaces between them. -/
def normalized (line : String) : String := " ".intercalate (Text.words line)

end Command

end ShellQuest
