/-
# TOML documents

A document is read in two steps: the text is scanned into statements, which are headers and pairs
of a key and a value, and the statements are put together to one table.
-/
import ShellQuest.Toml.Scan

namespace ShellQuest.Toml

namespace Scan

/-- A value without brackets: a quoted text, or a literal.  A date may be followed by a blank and a
time. -/
def scalar : Scan Value := fun s =>
  match s with
  | '"' :: _ | '\'' :: _ => (quoted s).map fun (text, rest) => (.text text, rest)
  | s =>
      let part := s.takeWhile Literal.isPart
      let rest := s.dropWhile Literal.isPart
      match rest with
      | ' ' :: c :: more =>
          if Literal.isDate part && c.isDigit then
            let time := (c :: more).takeWhile Literal.isPart
            if Literal.isZonedTime time then some (.moment, (c :: more).dropWhile Literal.isPart)
            else none
          else (Literal.value? part).map fun v => (v, rest)
      | rest => (Literal.value? part).map fun v => (v, rest)

/-- One item of a list, and whether another one follows.  The last item may have a comma. -/
def item (value : Scan Value) : Scan (Value × Bool) := fun s =>
  match value (skipGap s) with
  | none => none
  | some (v, rest) =>
      match skipGap rest with
      | ']' :: rest => some ((v, false), rest)
      | ',' :: rest =>
          match skipGap rest with
          | ']' :: rest => some ((v, false), rest)
          | rest => some ((v, true), rest)
      | _ => none

/-- The rest of a list of at most `bound` items, after its opening bracket. -/
def list (bound : Nat) (value : Scan Value) : Scan Value := fun s =>
  match skipGap s with
  | ']' :: rest => some (.list [], rest)
  | s => (chain (item value) bound s).map fun (items, rest) => (.list items, rest)

/-- A key, an equals sign, and a value. -/
def pair (value : Scan Value) : Scan (List String × Value) := fun s =>
  match key s with
  | some (names, '=' :: rest) =>
      (value (skipSpace rest)).map fun (v, rest) => ((names, v), rest)
  | _ => none

/-- One pair of a table in braces, and whether another one follows. -/
def bracedPair (value : Scan Value) : Scan ((List String × Value) × Bool) := fun s =>
  match pair value s with
  | none => none
  | some (p, rest) =>
      match skipSpace rest with
      | '\x7d' :: rest => some ((p, false), rest)
      | ',' :: rest => some ((p, true), rest)
      | _ => none

/-- The entries with the value of a key that has at least one name. -/
def addKey (entries : Entries) (names : List String) (v : Value) : Option Entries :=
  match names.reverse with
  | [] => none
  | last :: before => entries.addPair before.reverse last v

/-- The rest of a table in braces of at most `bound` pairs, after its opening brace. -/
def braced (bound : Nat) (value : Scan Value) : Scan Value := fun s =>
  match skipSpace s with
  | '\x7d' :: rest => some (.table .inline [], rest)
  | s =>
      match chain (bracedPair value) bound s with
      | none => none
      | some (pairs, rest) =>
          (pairs.foldlM (fun entries (names, v) => addKey entries names v) []).map fun entries =>
            (.table .inline entries, rest)

/-- A value in which lists and tables in braces nest at most `depth` deep and hold at most `bound`
parts each. -/
def value (bound : Nat) : Nat → Scan Value
  | 0 => scalar
  | depth + 1 => fun s =>
      match s with
      | '[' :: s => list bound (value bound depth) s
      | '\x7b' :: s => braced bound (value bound depth) s
      | s => scalar s

end Scan

inductive Statement where
  | blank
  | pair (names : List String) (v : Value)
  | header (names : List String)
  | row (names : List String)

namespace Scan

/-- Closes the line after a statement. -/
def closing (found : Option (Statement × List Char)) : Option (Statement × List Char) :=
  match found with
  | none => none
  | some (statement, rest) => (closeLine? rest).map fun rest => (statement, rest)

/-- One line, or a pair whose value takes several.  No part of it has more than `bound` parts. -/
def statement (bound : Nat) : Scan Statement := fun s =>
  match closeLine? s with
  | some rest => some (.blank, rest)
  | none =>
      match skipSpace s with
      | '[' :: '[' :: s =>
          match key s with
          | some (names, ']' :: ']' :: rest) => closing (some (.row names, rest))
          | _ => none
      | '[' :: s =>
          match key s with
          | some (names, ']' :: rest) => closing (some (.header names, rest))
          | _ => none
      | s =>
          closing ((pair (value bound depthLimit) s).map fun ((names, v), rest) =>
            (.pair names v, rest))

/-- The statements of a text.  A mark of the byte order may stand before them.  Each part of a text
takes a character at least, so that the length of the text bounds all numbers of parts. -/
def statements (s : List Char) : Option (List Statement) :=
  let s := match s with
    | '\ufeff' :: s => s
    | s => s
  if s.isEmpty then some []
  else
    let bound := s.length
    let one : Scan (Statement × Bool) := fun s =>
      (statement bound s).map fun (found, rest) => ((found, !rest.isEmpty), rest)
    (chain one bound s).map Prod.fst

end Scan

/-- A document that is being put together: its table so far, and the header under which pairs
stand. -/
structure Draft where
  root : Entries
  current : List String

namespace Draft

def add (d : Draft) : Statement → Option Draft
  | .blank => some d
  | .pair names v =>
      (Entries.within false (fun _ entries => Scan.addKey entries names v) d.current .header
        d.root).map fun root => { d with root }
  | .header names =>
      match names.reverse with
      | [] => none
      | last :: before =>
          (d.root.addHeader before.reverse last).map fun root => { root, current := names }
  | .row names =>
      match names.reverse with
      | [] => none
      | last :: before =>
          (d.root.addRow before.reverse last).map fun root => { root, current := names }

end Draft

def ofText? (s : String) : Option Entries :=
  match Scan.statements s.toList with
  | none => none
  | some statements => (statements.foldlM Draft.add ⟨[], []⟩).map Draft.root

end ShellQuest.Toml
