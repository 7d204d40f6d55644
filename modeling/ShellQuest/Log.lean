/-
# The log

A log record is a level and a line of text.  Text that players typed is escaped before it goes
into a line: markup is dropped, a long text is cut, and control characters are written out, so that
one record is one line.
-/
import ShellQuest.Markup
import ShellQuest.Text.Basic

namespace ShellQuest.Log

/-- How grave a record is, the gravest first. -/
inductive Level where
  | error
  | warn
  | info
  | debug
  | trace
deriving DecidableEq, Repr

namespace Level

def name : Level → String
  | error => "ERROR"
  | warn => "WARN"
  | info => "INFO"
  | debug => "DEBUG"
  | trace => "TRACE"

def all : List Level := [error, warn, info, debug, trace]

/-- The place of a level among all, the gravest being 1. -/
def rank : Level → Nat
  | error => 1
  | warn => 2
  | info => 3
  | debug => 4
  | trace => 5

end Level

/-- What is kept of the log: records up to a level, or nothing. -/
inductive Filter where
  | off
  | upTo (level : Level)
deriving DecidableEq, Repr

namespace Filter

def keeps : Filter → Level → Bool
  | off, _ => false
  | upTo most, level => level.rank ≤ most.rank

def name : Filter → String
  | off => "OFF"
  | upTo level => level.name

def all : List Filter := off :: Level.all.map upTo

/-- The filter that a word names, in upper or lower case. -/
def ofName? (word : String) : Option Filter :=
  all.find? fun f => f.name.toList == word.toList.map Char.toUpper

end Filter

structure Record where
  level : Level
  text : String
deriving DecidableEq, Repr

namespace Record

/-- The line written for a record at the time `stamp`. -/
def line (stamp : String) (r : Record) : String := s!"{stamp} [{r.level.name}] {r.text}\n"

end Record

/-- At most this many characters of a text are shown. -/
def previewLength : Nat := 300

/-- Two hexadecimal digits for a number below 256, in upper case. -/
def hexByte (n : Nat) : List Char :=
  let digit (d : Nat) : Char := "0123456789ABCDEF".toList.getD d '0'
  [digit (n / 16), digit (n % 16)]

def escapeChar (c : Char) : List Char :=
  match c with
  | '\\' => ['\\', '\\']
  | '\n' => ['\\', 'n']
  | '\r' => ['\\', 'r']
  | '\t' => ['\\', 't']
  | c => if Text.isControl c then '\\' :: 'x' :: hexByte c.toNat else [c]

/-- The visible characters of a text, escaped, with an ellipsis for all that go beyond the
preview. -/
def escapeChars (s : List Char) : List Char :=
  let plain := Markup.visible s
  (plain.take previewLength).flatMap escapeChar ++
    if plain.length ≤ previewLength then [] else ['…']

/-- A text as it is written into the log. -/
def escape (text : String) : String := String.ofList (escapeChars text.toList)

end ShellQuest.Log
