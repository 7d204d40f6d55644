/-
# Settings

What a player or an operator may choose: how the game is shown, where the relay listens and what it
allows, and what is logged.  Each setting has a default.

The settings are kept in a TOML file with three sections.  A section is a table, or a list of its
values in their order; what is missing takes its default, and names that mean nothing are passed
over.
-/
import ShellQuest.Log
import ShellQuest.Toml.Document

namespace ShellQuest

structure GameSettings where
  color : Bool := true
  banner : Bool := true
deriving DecidableEq, Repr

/-- Where the relay listens, how long a command may be, and how many games may go on at once. -/
structure RelaySettings where
  bind : String := "127.0.0.1:4040"
  maxLineBytes : Nat := 512
  maxSessions : Nat := 64
deriving DecidableEq, Repr

/-- What is logged, and the file it goes to. -/
structure LogSettings where
  level : String := "info"
  file : Option String := none
deriving DecidableEq, Repr

structure Settings where
  game : GameSettings := {}
  relay : RelaySettings := {}
  log : LogSettings := {}
deriving DecidableEq, Repr

/-- The filter that the level names; records up to `info` for a word that names none. -/
def LogSettings.filter (s : LogSettings) : Log.Filter :=
  (Log.Filter.ofName? s.level).getD (.upTo .info)

namespace Settings

/-! ## Reading -/

/-- The values of a section, by name or by place. -/
inductive Section where
  | named (entries : Toml.Entries)
  | placed (items : List Toml.Value)

namespace Section

/-- What a value holds as a section.  A date holds none of the names that mean something. -/
def ofValue? : Toml.Value → Option Section
  | .table _ entries => some (named entries)
  | .list items => some (placed items)
  | .rows rows => some (placed (rows.map fun entries => .table .header entries))
  | .moment => some (named [])
  | _ => none

/-- The section of this name; an empty one if there is no value of the name. -/
def find? (entries : Toml.Entries) (name : String) : Option Section :=
  match entries.lookup name with
  | some v => ofValue? v
  | none => some (named [])

/-- The value that has this name, or stands at this place. -/
def get? (s : Section) (name : String) (place : Nat) : Option Toml.Value :=
  match s with
  | named entries => entries.lookup name
  | placed items => items[place]?

/-- A value of a section, or its default; `none` if there is one of the wrong kind. -/
def read {α : Type} (s : Section) (name : String) (place : Nat) (ofValue : Toml.Value → Option α)
    (default : α) : Option α :=
  match s.get? name place with
  | some v => ofValue v
  | none => some default

end Section

def toBool? : Toml.Value → Option Bool
  | .boolean b => some b
  | _ => none

def toText? : Toml.Value → Option String
  | .text s => some s
  | _ => none

/-- A count: an integer that is not negative. -/
def toCount? : Toml.Value → Option Nat
  | .integer n => if 0 ≤ n then some n.toNat else none
  | _ => none

def readGame (s : Section) : Option GameSettings := do
  let default : GameSettings := {}
  return {
    color := ← s.read "color" 0 toBool? default.color
    banner := ← s.read "banner" 1 toBool? default.banner }

def readRelay (s : Section) : Option RelaySettings := do
  let default : RelaySettings := {}
  return {
    bind := ← s.read "bind" 0 toText? default.bind
    maxLineBytes := ← s.read "max_line_bytes" 1 toCount? default.maxLineBytes
    maxSessions := ← s.read "max_sessions" 2 toCount? default.maxSessions }

def readLog (s : Section) : Option LogSettings := do
  let default : LogSettings := {}
  return {
    level := ← s.read "level" 0 toText? default.level
    file := ← s.read "file" 1 (fun v => (toText? v).map some) default.file }

def ofEntries? (entries : Toml.Entries) : Option Settings := do
  return {
    game := ← readGame (← Section.find? entries "game")
    relay := ← readRelay (← Section.find? entries "server")
    log := ← readLog (← Section.find? entries "logging") }

inductive Refusal where
  | unreadable
  | malformed
deriving DecidableEq, Repr

/-- The settings that a file holds, if the file is there. -/
def ofFile (file : Option ByteArray) : Except Refusal Settings :=
  match file.bind String.fromUTF8? with
  | none => .error .unreadable
  | some text =>
      match (Toml.ofText? text).bind ofEntries? with
      | some settings => .ok settings
      | none => .error .malformed

/-- The settings that a file holds, or the default ones if there is no file. -/
def ofFileOrDefault (file : Option ByteArray) : Except Refusal Settings :=
  match file with
  | none => .ok {}
  | some _ => ofFile file

/-! ## Writing -/

def quoteChar (c : Char) : List Char :=
  match c with
  | '"' => ['\\', '"']
  | '\\' => ['\\', '\\']
  | '\x08' => ['\\', 'b']
  | '\t' => ['\\', 't']
  | '\n' => ['\\', 'n']
  | '\x0c' => ['\\', 'f']
  | '\r' => ['\\', 'r']
  | c => if Text.isControl c then '\\' :: 'u' :: '0' :: '0' :: Log.hexByte c.toNat else [c]

def quote (s : String) : String :=
  String.ofList ('"' :: (s.toList.flatMap quoteChar ++ ['"']))

def toToml (s : Settings) : String :=
  s!"[game]\ncolor = {s.game.color}\nbanner = {s.game.banner}\n\n" ++
  s!"[server]\nbind = {quote s.relay.bind}\nmax_line_bytes = {s.relay.maxLineBytes}\n" ++
  s!"max_sessions = {s.relay.maxSessions}\n\n[logging]\nlevel = {quote s.log.level}\n" ++
  match s.log.file with
  | some file => s!"file = {quote file}\n"
  | none => ""

end Settings

end ShellQuest
