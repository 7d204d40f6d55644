/-
# Reading JSON

A JSON text is cut into tokens by a machine that takes one character at a time, and the tokens are
put together to a value by a machine with a stack of the lists and objects that are still open.  A
token ends where the next one, white space or the end of the text begins, so a number or a word is
closed by whatever cannot continue it.  The stack is the only bound on how deep values nest.  Commas
stand between items and nowhere else, and nothing but white space may follow the value.
-/
import ShellQuest.Json.Value

namespace ShellQuest.Json

/-! ## Tokens -/

/-- A token.  Numbers are only known to be numbers. -/
inductive Token where
  | openObject
  | closeObject
  | openList
  | closeList
  | colon
  | comma
  | null
  | bool (b : Bool)
  | number
  | text (t : Text)
deriving DecidableEq, Repr

/-- What a quoted text is made of: characters, and halves of surrogate pairs. -/
inductive Piece where
  | char (c : Char)
  | half (unit : Nat)
deriving DecidableEq, Repr

namespace Piece

def ofUnit (unit : Nat) : Piece :=
  if 0xD800 ≤ unit ∧ unit ≤ 0xDFFF then half unit else char (Char.ofNat unit)

/-- The character that the two halves of a pair stand for. -/
def pair (high low : Nat) : Char := Char.ofNat (0x10000 + (high - 0xD800) * 0x400 + (low - 0xDC00))

/-- The characters of a text: a high half and a low half next to each other are one character, and
no other half may stand in it. -/
def toChars? : List Piece → Option (List Char)
  | [] => some []
  | char c :: rest => (toChars? rest).map (c :: ·)
  | half high :: half low :: rest =>
      if high < 0xDC00 ∧ 0xDC00 ≤ low then (toChars? rest).map (pair high low :: ·) else none
  | half _ :: _ => none

end Piece

inductive NumberState where
  | minus
  | zero
  | digits
  | point
  | fraction
  | exponentMark
  | exponentSign
  | exponent
deriving DecidableEq, Repr

namespace NumberState

def next? : NumberState → Char → Option NumberState
  | minus, c => if c = '0' then some zero else if c.isDigit then some digits else none
  | zero, c => afterInteger c
  | digits, c => if c.isDigit then some digits else afterInteger c
  | point, c => if c.isDigit then some fraction else none
  | fraction, c =>
      if c.isDigit then some fraction
      else if c = 'e' ∨ c = 'E' then some exponentMark else none
  | exponentMark, c =>
      if c = '+' ∨ c = '-' then some exponentSign
      else if c.isDigit then some exponent else none
  | exponentSign, c => if c.isDigit then some exponent else none
  | exponent, c => if c.isDigit then some exponent else none
where
  /-- What may follow the integer part. -/
  afterInteger (c : Char) : Option NumberState :=
    if c = '.' then some point else if c = 'e' ∨ c = 'E' then some exponentMark else none

def isWhole : NumberState → Bool
  | zero | digits | fraction | exponent => true
  | minus | point | exponentMark | exponentSign => false

end NumberState

/-- Where the machine stands.  What was read of a text or a word is kept with its last part
first. -/
inductive Mode where
  | gap
  | word (letters : List Char)
  | number (state : NumberState)
  | text (pieces : List Piece)
  | escape (pieces : List Piece)
  | hex (pieces : List Piece) (count unit : Nat)
deriving DecidableEq, Repr

/-- The machine: the tokens that are complete, the last one first, and where it stands. -/
structure Lexer where
  tokens : List Token
  mode : Mode
deriving DecidableEq, Repr

def hexDigit? (c : Char) : Option Nat :=
  if c.isDigit then some (c.toNat - '0'.toNat)
  else if 'a' ≤ c ∧ c ≤ 'f' then some (c.toNat - 'a'.toNat + 10)
  else if 'A' ≤ c ∧ c ≤ 'F' then some (c.toNat - 'A'.toNat + 10)
  else none

def escaped? : Char → Option Char
  | '"' => some '"'
  | '\\' => some '\\'
  | '/' => some '/'
  | 'b' => some '\x08'
  | 'f' => some '\x0c'
  | 'n' => some '\n'
  | 'r' => some '\r'
  | 't' => some '\t'
  | _ => none

def Token.ofWord? (letters : List Char) : Option Token :=
  if letters = ['n', 'u', 'l', 'l'] then some .null
  else if letters = ['t', 'r', 'u', 'e'] then some (.bool true)
  else if letters = ['f', 'a', 'l', 's', 'e'] then some (.bool false)
  else none

namespace Lexer

def start : Lexer := ⟨[], .gap⟩

def emit (l : Lexer) (t : Token) : Lexer := ⟨t :: l.tokens, .gap⟩

def inGap (l : Lexer) (c : Char) : Option Lexer :=
  match c with
  | ' ' | '\t' | '\n' | '\r' => some ⟨l.tokens, .gap⟩
  | '\x7b' => some (l.emit .openObject)
  | '\x7d' => some (l.emit .closeObject)
  | '[' => some (l.emit .openList)
  | ']' => some (l.emit .closeList)
  | ':' => some (l.emit .colon)
  | ',' => some (l.emit .comma)
  | '"' => some ⟨l.tokens, .text []⟩
  | '-' => some ⟨l.tokens, .number .minus⟩
  | '0' => some ⟨l.tokens, .number .zero⟩
  | c =>
      if c.isDigit then some ⟨l.tokens, .number .digits⟩
      else if c.isLower then some ⟨l.tokens, .word [c]⟩
      else none

/-- The machine with its word or number closed; `none` inside a text, or if there is no such word or
number. -/
def close? (l : Lexer) : Option Lexer :=
  match l.mode with
  | .gap => some l
  | .word letters => (Token.ofWord? letters.reverse).map l.emit
  | .number state => if state.isWhole then some (l.emit .number) else none
  | .text _ | .escape _ | .hex _ _ _ => none

/-- A character that cannot continue the word or number before it. -/
def closeThen (l : Lexer) (c : Char) : Option Lexer := l.close?.bind fun l => l.inGap c

def step (l : Lexer) (c : Char) : Option Lexer :=
  match l.mode with
  | .gap => l.inGap c
  | .word letters =>
      if c.isLower then some ⟨l.tokens, .word (c :: letters)⟩ else l.closeThen c
  | .number state =>
      match state.next? c with
      | some state => some ⟨l.tokens, .number state⟩
      | none => l.closeThen c
  | .text pieces =>
      if c = '"' then
        some (l.emit (.text ((Piece.toChars? pieces.reverse).map String.ofList)))
      else if c = '\\' then some ⟨l.tokens, .escape pieces⟩
      else if c.toNat < 0x20 then none
      else some ⟨l.tokens, .text (.char c :: pieces)⟩
  | .escape pieces =>
      if c = 'u' then some ⟨l.tokens, .hex pieces 0 0⟩
      else (escaped? c).map fun e => ⟨l.tokens, .text (.char e :: pieces)⟩
  | .hex pieces count unit =>
      (hexDigit? c).map fun d =>
        if count = 3 then ⟨l.tokens, .text (Piece.ofUnit (unit * 16 + d) :: pieces)⟩
        else ⟨l.tokens, .hex pieces (count + 1) (unit * 16 + d)⟩

end Lexer

def Token.ofChars? (s : List Char) : Option (List Token) :=
  ((s.foldlM Lexer.step Lexer.start).bind Lexer.close?).map fun l => l.tokens.reverse

/-! ## Values -/

/-- A list or object that is still open, with its last part first.  An object waits for the value
of `name`. -/
inductive Open where
  | list (items : List Value)
  | object (members : List (Text × Value)) (name : Text)

/-- What may come next, inside the lists and objects of the stack: a value, the first item or
the end of a list, the first name or the end of an object, a name, a colon, or what follows a
complete value. -/
inductive Expected where
  | value (stack : List Open)
  | itemOrEnd (stack : List Open)
  | nameOrEnd (stack : List Open)
  | name (members : List (Text × Value)) (stack : List Open)
  | colon (members : List (Text × Value)) (name : Text) (stack : List Open)
  | afterValue (v : Value) (stack : List Open)

namespace Expected

/-- A token where a value must start. -/
def begin (stack : List Open) : Token → Option Expected
  | .null => some (afterValue .null stack)
  | .bool b => some (afterValue (.bool b) stack)
  | .number => some (afterValue .number stack)
  | .text t => some (afterValue (.text t) stack)
  | .openList => some (itemOrEnd stack)
  | .openObject => some (nameOrEnd stack)
  | .closeObject | .closeList | .colon | .comma => none

def step : Expected → Token → Option Expected
  | value stack, t => begin stack t
  | itemOrEnd stack, .closeList => some (afterValue (.list []) stack)
  | itemOrEnd stack, t => begin (.list [] :: stack) t
  | nameOrEnd stack, .closeObject => some (afterValue (.object []) stack)
  | nameOrEnd stack, .text n => some (colon [] n stack)
  | name members stack, .text n => some (colon members n stack)
  | colon members n stack, .colon => some (value (.object members n :: stack))
  | afterValue v (.list items :: stack), .comma => some (value (.list (v :: items) :: stack))
  | afterValue v (.list items :: stack), .closeList =>
      some (afterValue (.list (v :: items).reverse) stack)
  | afterValue v (.object members n :: stack), .comma => some (name ((n, v) :: members) stack)
  | afterValue v (.object members n :: stack), .closeObject =>
      some (afterValue (.object ((n, v) :: members).reverse) stack)
  | _, _ => none

end Expected

def Value.ofTokens? (tokens : List Token) : Option Value :=
  match tokens.foldlM Expected.step (.value []) with
  | some (.afterValue v []) => some v
  | _ => none

def Value.ofText? (s : String) : Option Value :=
  (Token.ofChars? s.toList).bind Value.ofTokens?

end ShellQuest.Json
