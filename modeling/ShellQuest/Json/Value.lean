/-
# JSON values

What is left of a JSON text once it is read: enough to tell what a request asks for.  Numbers are
only known to be numbers.  A text may hold an escaped half of a surrogate pair without the other
half; such a text is no string of characters, and is told apart from those that are.

What is written needs no values in between: lists and objects are put together from written parts.
Texts are quoted with the shortest escapes: a quote and a backslash, the five control characters
that have a letter, and the other ones below a space by their number.  All else stands as it is.
-/
namespace ShellQuest.Json

/-- A quoted text: its characters, or `none` if it holds half a surrogate pair. -/
abbrev Text := Option String

/-- A JSON value.  The members of an object are in their written order, repeated names included. -/
inductive Value where
  | null
  | bool (b : Bool)
  | number
  | text (t : Text)
  | list (items : List Value)
  | object (members : List (Text × Value))

namespace Value

/-- The value of the only field of a record, written as an object or as a list of one item.  In an
object every name must be readable, names other than `name` are passed over, and `name` must stand
there once. -/
def soleField? (name : String) : Value → Option Value
  | list [v] => some v
  | object members =>
      if members.all fun m => m.1.isSome then
        match members.filter fun m => m.1 == some name with
        | [(_, v)] => some v
        | _ => none
      else none
  | _ => none

def string? : Value → Option String
  | text t => t
  | _ => none

end Value

/-! ## Writing -/

/-- A digit of a hexadecimal number, in lower case. -/
def hexChar (d : Nat) : Char := "0123456789abcdef".toList.getD d '0'

def quoteChar (c : Char) : List Char :=
  match c with
  | '"' => ['\\', '"']
  | '\\' => ['\\', '\\']
  | '\x08' => ['\\', 'b']
  | '\x0c' => ['\\', 'f']
  | '\n' => ['\\', 'n']
  | '\r' => ['\\', 'r']
  | '\t' => ['\\', 't']
  | c =>
      if c.toNat < 0x20 then ['\\', 'u', '0', '0', hexChar (c.toNat / 16), hexChar (c.toNat % 16)]
      else [c]

def quote (s : String) : String :=
  String.ofList ('"' :: (s.toList.flatMap quoteChar ++ ['"']))

def writeList (items : List String) : String := "[" ++ ",".intercalate items ++ "]"

/-- An object of named, written values, in this order. -/
def writeObject (members : List (String × String)) : String :=
  "\x7b" ++ ",".intercalate (members.map fun (name, value) => quote name ++ ":" ++ value) ++ "\x7d"

end ShellQuest.Json
