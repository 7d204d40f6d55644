/-
# The game in a terminal

The player types lines and reads what comes of them.  Before each line the terminal asks: it shows
what is to be learned next and where the player stands.  The game goes on until the player leaves
or no line is left; a line that is not UTF-8 breaks it off.

`play` is the whole game over all that the player types.  It is made of `ask` and `takeLine`, which
a terminal can go through while the player types.
-/
import ShellQuest.Session.Turn
import ShellQuest.Settings
import ShellQuest.Tally
import ShellQuest.Text.Basic

namespace ShellQuest

namespace GameSettings

/-- A text as the player wants it: with its markup, or without colours. -/
def render (g : GameSettings) (text : String) : String :=
  if g.color then text else Markup.strip text

/-- A text on lines of its own; nothing for no text. -/
def renderLine (g : GameSettings) (text : String) : String :=
  if text.isEmpty then "" else g.render text ++ "\n"

end GameSettings

namespace Terminal

/-! ## What is shown -/

def opening (g : GameSettings) : String :=
  if g.banner then g.renderLine (Markup.success Session.welcome) else ""

/-- What is shown before a line is typed: the challenge, its hint if it has one, and the prompt. -/
def ask (s : Session) : String :=
  let hint := s.lessons.challengeHint
  let hint := if hint.isEmpty then "" else s!" Hint: {hint}"
  s!"[{s.lessons.challenge}]{hint}\n{s.prompt}$ "

/-- A result without the wishes for a wiped screen at its start. -/
def afterWipes : List Char → List Char
  | '\x1b' :: '[' :: '2' :: 'J' :: '\x1b' :: '[' :: 'H' :: rest => afterWipes rest
  | rest => rest

/-- What is left of a result below a wiped screen. -/
def belowWipe (result : String) : String :=
  String.ofList ((afterWipes result.toList).dropWhile (· == '\n'))

/-- What is shown after a line.  A result that asks for it wipes the screen once, if there are
colours at all. -/
def tell (g : GameSettings) (r : Response) : String :=
  if r.clearsScreen then
    (if g.color then Markup.clearScreen else "") ++ g.renderLine (belowWipe r.result)
  else g.renderLine r.result

/-! ## A whole game -/

/-- The line asks to leave the game. -/
def leaves (line : String) : Bool :=
  match Command.ofLine? line with
  | some command => command.verb = .exit
  | none => false

inductive Ending where
  | left
  | brokenOff
deriving DecidableEq, Repr

/-- A game from its start to its end: all that was shown, what happened, the last state. -/
structure Transcript where
  shown : String
  events : List Event
  session : Session
  ending : Ending
deriving Repr

namespace Transcript

def preceded (t : Transcript) (shown : String) (events : List Event) : Transcript :=
  { t with shown := shown ++ t.shown, events := events ++ t.events }

def closing (s : Session) (events : List Event) : List Log.Record :=
  let commands := (Tally.zero.countAll events).commands
  let lessons := s.lessons.inOrder.length
  let ended : Log.Record := {
    level := .info
    text := s!"session ended: {commands} commands, {lessons} lessons (all done: " ++
      s!"{s.lessons.allComplete}), mission complete: {s.missionComplete}" }
  if s.history.isEmpty then [ended, { level := .warn, text := "no commands were entered" }]
  else [ended]

/-- What is logged when a game ends.  One that is broken off has no closing records. -/
def closingRecords (t : Transcript) : List Log.Record :=
  match t.ending with
  | .left => closing t.session t.events
  | .brokenOff => []

def records (t : Transcript) : List Log.Record :=
  t.events.map Event.toRecord ++ t.closingRecords

end Transcript

/-- What comes of one line.  The game goes on unless it has an ending. -/
structure Step where
  shown : String
  events : List Event
  session : Session
  ending : Option Ending
deriving Repr

def takeLine (g : GameSettings) (s : Session) (typed : List UInt8) : Step :=
  match String.fromUTF8? ⟨typed.toArray⟩ with
  | none => { shown := "", events := [], session := s, ending := some .brokenOff }
  | some line =>
      let turn := s.process line
      { shown := tell g turn.response
        events := turn.events
        session := turn.session
        ending := if leaves line then some .left else none }

/-- The game from the state `s` on, over the lines that are still to be typed. -/
def playLines (g : GameSettings) (s : Session) : List (List UInt8) → Transcript
  | [] => { shown := ask s, events := [], session := s, ending := .left }
  | typed :: rest =>
      let step := takeLine g s typed
      let shown := ask s ++ step.shown
      match step.ending with
      | some ending => { shown, events := step.events, session := step.session, ending }
      | none => (playLines g step.session rest).preceded shown step.events

/-- A new game, over all the bytes that the player types. -/
def play (g : GameSettings) (typed : List UInt8) : Transcript :=
  (playLines g Session.start (Text.lines typed)).preceded (opening g) []

end Terminal

end ShellQuest
