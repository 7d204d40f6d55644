/-
# Scanning TOML

The parts of a TOML document that hold no other values: blanks, comments, line ends, quoted texts
and keys.  A scan takes what it looks for from the front of the text and gives it with the rest.
-/
import ShellQuest.Toml.Literal

namespace ShellQuest.Toml

/-- Takes something from the front of a text; `none` if it is not there. -/
abbrev Scan (α : Type) := List Char → Option (α × List Char)

namespace Scan

/-- Scans again and again, at most `n` times, for as long as each result says that another one
follows. -/
def chain {α : Type} (scan : Scan (α × Bool)) : Nat → Scan (List α)
  | 0 => fun _ => none
  | n + 1 => fun s =>
      match scan s with
      | none => none
      | some ((a, false), rest) => some ([a], rest)
      | some ((a, true), rest) =>
          match chain scan n rest with
          | some (as, rest) => some (a :: as, rest)
          | none => none

/-! ## Between the parts -/

def isSpace (c : Char) : Bool := c == ' ' || c == '\t'

/-- What follows the blanks of a line. -/
def skipSpace (s : List Char) : List Char := s.dropWhile isSpace

/-- No control character but the tab. -/
def isPrintable (c : Char) : Bool := c == '\t' || (0x20 ≤ c.toNat && c.toNat != 0x7F)

/-- What follows a line end. -/
def lineEnd? : List Char → Option (List Char)
  | '\n' :: s => some s
  | '\r' :: '\n' :: s => some s
  | _ => none

/-- What follows a comment, or nothing. -/
def skipComment (s : List Char) : List Char :=
  match s with
  | '#' :: s => s.dropWhile isPrintable
  | s => s

/-- What follows the end of a line on which nothing but a comment may come, or the end of the
text. -/
def closeLine? (s : List Char) : Option (List Char) :=
  match skipComment (skipSpace s) with
  | [] => some []
  | s => lineEnd? s

mutual

/-- What follows blanks, comments and line ends. -/
def skipGap : List Char → List Char
  | ' ' :: s | '\t' :: s | '\n' :: s | '\r' :: '\n' :: s => skipGap s
  | '#' :: s => skipGapAfterComment s
  | s => s

/-- What follows the rest of a comment, and blanks, comments and line ends after it. -/
def skipGapAfterComment : List Char → List Char
  | '\n' :: s | '\r' :: '\n' :: s => skipGap s
  | c :: s => if isPrintable c then skipGapAfterComment s else c :: s
  | [] => []

end

/-! ## Quoted texts -/

def numbered (hex : List Char) : Option Char :=
  let n := Literal.spelled 16 hex
  if hex.all (Literal.isDigitOf 16) && n.isValidChar then some (Char.ofNat n) else none

def lettered : Char → Option Char
  | 'b' => some '\x08'
  | 't' => some '\t'
  | 'n' => some '\n'
  | 'f' => some '\x0c'
  | 'r' => some '\r'
  | '"' => some '"'
  | '\\' => some '\\'
  | _ => none

/-- A character that was read, put before what follows it in its text. -/
def put (c : Option Char) (after : Option (List Char × List Char)) :
    Option (List Char × List Char) :=
  match c, after with
  | some c, some (text, rest) => some (c :: text, rest)
  | _, _ => none

/-- A character that stands for itself, put before what follows it in its text. -/
def keep (c : Char) (after : Option (List Char × List Char)) : Option (List Char × List Char) :=
  put (if isPrintable c then some c else none) after

/-- The rest of a text in double quotes, after its first quote. -/
def basic : Scan (List Char)
  | '"' :: s => some ([], s)
  | '\\' :: 'u' :: a :: b :: c :: d :: s => put (numbered [a, b, c, d]) (basic s)
  | '\\' :: 'U' :: a :: b :: c :: d :: e :: f :: g :: h :: s =>
      put (numbered [a, b, c, d, e, f, g, h]) (basic s)
  | '\\' :: c :: s => put (lettered c) (basic s)
  | c :: s => keep c (basic s)
  | [] => none

/-- The rest of a text in single quotes, after its first quote. -/
def literal : Scan (List Char)
  | '\'' :: s => some ([], s)
  | c :: s => keep c (literal s)
  | [] => none

/-- A backslash before the end of its line. -/
def endsLine (s : List Char) : Bool := (lineEnd? (skipSpace s)).isSome

/-- The rest of a text in three double quotes. A backslash at the end of a line takes the line end
and all blanks and line ends after it with it; `joining` says that this is going on.  Up to two
quotes may stand before the three that end the text. -/
def basicLines (joining : Bool) : Scan (List Char)
  | '"' :: '"' :: '"' :: '"' :: '"' :: s => some (['"', '"'], s)
  | '"' :: '"' :: '"' :: '"' :: s => some (['"'], s)
  | '"' :: '"' :: '"' :: s => some ([], s)
  | '\\' :: 'u' :: a :: b :: c :: d :: s => put (numbered [a, b, c, d]) (basicLines false s)
  | '\\' :: 'U' :: a :: b :: c :: d :: e :: f :: g :: h :: s =>
      put (numbered [a, b, c, d, e, f, g, h]) (basicLines false s)
  | '\\' :: c :: s =>
      if endsLine (c :: s) then basicLines true (c :: s)
      else put (lettered c) (basicLines false s)
  | '\r' :: '\n' :: s =>
      if joining then basicLines true s else put (some '\n') (basicLines false s)
  | '\n' :: s => if joining then basicLines true s else put (some '\n') (basicLines false s)
  | c :: s =>
      if joining && isSpace c then basicLines true s else keep c (basicLines false s)
  | [] => none

/-- The rest of a text in three single quotes.  Up to two quotes may stand before the three that end
the text. -/
def literalLines : Scan (List Char)
  | '\'' :: '\'' :: '\'' :: '\'' :: '\'' :: s => some (['\'', '\''], s)
  | '\'' :: '\'' :: '\'' :: '\'' :: s => some (['\''], s)
  | '\'' :: '\'' :: '\'' :: s => some ([], s)
  | '\r' :: '\n' :: s => put (some '\n') (literalLines s)
  | '\n' :: s => put (some '\n') (literalLines s)
  | c :: s => keep c (literalLines s)
  | [] => none

/-- A text of several lines may start with a line end, which is no part of it. -/
def afterOpening (s : List Char) : List Char := (lineEnd? s).getD s

def asText (found : Option (List Char × List Char)) : Option (String × List Char) :=
  found.map fun (text, rest) => (String.ofList text, rest)

/-- A quoted text of any of the four kinds. -/
def quoted : Scan String
  | '"' :: '"' :: '"' :: s => asText (basicLines false (afterOpening s))
  | '"' :: s => asText (basic s)
  | '\'' :: '\'' :: '\'' :: s => asText (literalLines (afterOpening s))
  | '\'' :: s => asText (literal s)
  | _ => none

/-! ## Keys -/

/-- A character of a key without quotes. -/
def isKeyPart (c : Char) : Bool := c.isAlphanum || c == '_' || c == '-'

def name : Scan String
  | '"' :: s => asText (basic s)
  | '\'' :: s => asText (literal s)
  | s =>
      let part := s.takeWhile isKeyPart
      if part.isEmpty then none else some (String.ofList part, s.dropWhile isKeyPart)

/-- One name of a key with the blanks around it, and whether a dot follows. -/
def nameOfKey : Scan (String × Bool) := fun s =>
  match name (skipSpace s) with
  | none => none
  | some (n, rest) =>
      match skipSpace rest with
      | '.' :: rest => some ((n, true), rest)
      | rest => some ((n, false), rest)

/-- A key has at most this many names, and lists and tables in braces nest at most this deep. -/
def depthLimit : Nat := 79

/-- A key: names with dots between them. -/
def key : Scan (List String) := chain nameOfKey depthLimit

end Scan

end ShellQuest.Toml
