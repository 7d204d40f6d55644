/-
# TOML values and tables

A document is a table of named values.  A table remembers how it came about, since that decides
what may still be added to it: a table in braces is closed, one with a header may not be given a
second one and is not reached by dotted keys, one that is only named on the way to another may get
its header later, and one made by dotted keys grows by dotted keys alone.
-/
namespace ShellQuest.Toml

inductive TableKind where
  | inline
  | header
  | implied
  | dotted
deriving DecidableEq, Repr

/-- A value.  Floats are only known to be floats, and dates and times to be moments.  `rows` are
the tables of a repeated header, the first one first. -/
inductive Value where
  | text (s : String)
  | integer (n : Int)
  | boolean (b : Bool)
  | float
  | moment
  | list (items : List Value)
  | table (kind : TableKind) (entries : List (String × Value))
  | rows (rows : List (List (String × Value)))

/-- The named values of a table, each name once. -/
abbrev Entries := List (String × Value)

namespace Entries

def replace (entries : Entries) (name : String) (v : Value) : Entries :=
  entries.map fun entry => if entry.1 == name then (name, v) else entry

/-- The entries with a new name; `none` if it is there. -/
def add? (entries : Entries) (name : String) (v : Value) : Option Entries :=
  match entries.lookup name with
  | some _ => none
  | none => some (entries ++ [(name, v)])

/-- Changes the table at the end of a path by `f`, which is told how that table came about.  Tables
that are missing on the way are made.  Dotted keys make dotted tables and do not pass through a
table that has a header; of a repeated header, the last table is meant. -/
def within (dotted : Bool) (f : TableKind → Entries → Option Entries) :
    List String → TableKind → Entries → Option Entries
  | [], kind, entries => f kind entries
  | name :: path, _, entries =>
      match entries.lookup name with
      | none =>
          let kind := if dotted then TableKind.dotted else .implied
          (within dotted f path kind []).map fun inner => entries ++ [(name, .table kind inner)]
      | some (.table kind inner) =>
          if kind = .inline ∨ (dotted ∧ kind = .header) then none
          else
            (within dotted f path kind inner).map fun inner =>
              entries.replace name (.table kind inner)
      | some (.rows rows) =>
          match rows.reverse with
          | [] => none
          | last :: before =>
              (within dotted f path .header last).map fun last =>
                entries.replace name (.rows (last :: before).reverse)
      | some _ => none

/-- Adds a value under a dotted key: `path` and then `name`.  A table that dotted keys reach must
have been made by them. -/
def addPair (entries : Entries) (path : List String) (name : String) (v : Value) :
    Option Entries :=
  within true
    (fun kind inner =>
      if !path.isEmpty && kind != .dotted then none else inner.add? name v)
    path .header entries

/-- Adds the table of a header: `path` and then `name`. -/
def addHeader (entries : Entries) (path : List String) (name : String) : Option Entries :=
  within false
    (fun _ inner =>
      match inner.lookup name with
      | none => some (inner ++ [(name, .table .header [])])
      | some (.table .implied below) => some (inner.replace name (.table .header below))
      | some _ => none)
    path .header entries

/-- Adds one more table of a repeated header: `path` and then `name`. -/
def addRow (entries : Entries) (path : List String) (name : String) : Option Entries :=
  within false
    (fun _ inner =>
      match inner.lookup name with
      | none => some (inner ++ [(name, .rows [[]])])
      | some (.rows rows) => some (inner.replace name (.rows (rows ++ [[]])))
      | some _ => none)
    path .header entries

end Entries

end ShellQuest.Toml
