/-
# Lines from untrusted players

What a line must be before it may be played for someone at a distance: short enough, and free of
control characters.  A line end is dropped and a tab counts as a space.
-/
import ShellQuest.Text.Basic

namespace ShellQuest.InputLine

inductive Refusal where
  | tooLong (limit : Nat)
  | controlCharacters
deriving DecidableEq, Repr

namespace Refusal

def message : Refusal → String
  | tooLong limit => s!"Command line is too long (maximum {limit} bytes)"
  | controlCharacters => "Command line contains control characters"

end Refusal

/-- `s` without one line end: a line feed, or a carriage return and a line feed. -/
def withoutLineEnd (s : List Char) : List Char :=
  match s.reverse with
  | '\n' :: '\r' :: rest => rest.reverse
  | '\n' :: rest => rest.reverse
  | _ => s

def untab (c : Char) : Char := if c = '\t' then ' ' else c

/-- The line to be played, of at most `limit` bytes before anything is dropped from it. -/
def clean (line : String) (limit : Nat) : Except Refusal String :=
  if limit < line.utf8ByteSize then .error (.tooLong limit)
  else
    let body := withoutLineEnd line.toList
    if body.any fun c => c != '\t' && Text.isControl c then .error .controlCharacters
    else .ok (String.ofList (body.map untab))

end ShellQuest.InputLine
