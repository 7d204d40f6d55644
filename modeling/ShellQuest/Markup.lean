/-
# Markup of command results

Results are plain text with colour spans in it: blue for directories, green for banners, red for
errors.  A span is opened and closed by an escape sequence, which is `ESC [` and everything up to
the next ASCII letter.  The sequence `clearScreen` asks whoever shows the result to wipe the
screen first.
-/
import ShellQuest.Text.Basic

namespace ShellQuest.Markup

/-- Wipes the screen and puts the cursor into its first cell. -/
def clearScreen : String := "\x1b[2J\x1b[H"

/-- Ends a colour span. -/
def plain : String := "\x1b[0m"

/-- A span in the colour of directories. -/
def directory (name : String) : String := "\x1b[34m" ++ name ++ plain

/-- A span in the colour of banners. -/
def success (text : String) : String := "\x1b[32m" ++ text ++ plain

/-- A span in the colour of errors. -/
def error (text : String) : String := "\x1b[31m" ++ text ++ plain

/-- The result asks for a wiped screen. -/
def clearsScreen (result : String) : Bool := Text.startsWith result clearScreen

mutual

/-- The visible characters of a text: all but the escape sequences. -/
def visible : List Char → List Char
  | [] => []
  | '\x1b' :: '[' :: s => afterSequence s
  | c :: s => c :: visible s

/-- The visible characters of a text that starts inside an escape sequence.  A sequence without a
letter reaches to the end. -/
def afterSequence : List Char → List Char
  | [] => []
  | c :: s => if c.isAlpha then visible s else afterSequence s

end

/-- `text` without its escape sequences. -/
def strip (text : String) : String := String.ofList (visible text.toList)

end ShellQuest.Markup
