/-
# Texts

What characters are to every reader of a text, and how texts are cut.  A text is cut at gap
characters into the longest stretches without a gap: at white space into words, at slashes into the
segments of a path.  So no piece is empty and none holds a gap.  Bytes are cut into lines: a line
feed ends a line, and a carriage return right before it belongs to the line's end; what follows the
last line feed is a line too, unless there is nothing.
-/
namespace ShellQuest.Text

/-! ## Characters -/

/-- The characters of the Unicode category `Cc`: the blocks C0 and C1, and DELETE between them. -/
def isControl (c : Char) : Bool :=
  c.toNat < 0x20 || (0x7F ≤ c.toNat && c.toNat ≤ 0x9F)

/-- The characters of the Unicode property `White_Space`. -/
def isBlank (c : Char) : Bool :=
  let n := c.toNat
  (0x09 ≤ n && n ≤ 0x0D) || n == 0x20 || n == 0x85 || n == 0xA0 || n == 0x1680 ||
    (0x2000 ≤ n && n ≤ 0x200A) || n == 0x2028 || n == 0x2029 || n == 0x202F || n == 0x205F ||
    n == 0x3000

/-! ## Pieces -/

/-- `splitPiece isGap s`: the stretch without a gap with which `s` starts, which may be empty, and
the pieces after it. -/
def splitPiece (isGap : Char → Bool) : List Char → List Char × List (List Char)
  | [] => ([], [])
  | c :: s =>
      let (piece, rest) := splitPiece isGap s
      if isGap c then ([], if piece.isEmpty then rest else piece :: rest) else (c :: piece, rest)

/-- The longest stretches of `s` without a gap, in order. -/
def pieces (isGap : Char → Bool) (s : List Char) : List (List Char) :=
  let (piece, rest) := splitPiece isGap s
  if piece.isEmpty then rest else piece :: rest

def words (s : String) : List String := (pieces isBlank s.toList).map String.ofList

/-- The segments of a path: the pieces between its slashes. -/
def segments (path : String) : List String :=
  (pieces (· == '/') path.toList).map String.ofList

def trimChars (s : List Char) : List Char :=
  ((s.dropWhile isBlank).reverse.dropWhile isBlank).reverse

def trim (s : String) : String := String.ofList (trimChars s.toList)

/-! ## Parts of a text -/

def occursIn (pattern : List Char) : List Char → Bool
  | [] => pattern.isEmpty
  | c :: s => pattern.isPrefixOf (c :: s) || occursIn pattern s

def startsWith (text start : String) : Bool := start.toList.isPrefixOf text.toList

def endsWith (text ending : String) : Bool := ending.toList.isSuffixOf text.toList

def contains (text pattern : String) : Bool := occursIn pattern.toList text.toList

def hasChar (text : String) (c : Char) : Bool := text.toList.contains c

/-! ## Lines of bytes -/

def lineFeed : UInt8 := 10

def carriageReturn : UInt8 := 13

/-- A line that has ended, from its bytes, the last one first. -/
def endedLine : List UInt8 → List UInt8
  | [] => []
  | b :: line => if b = carriageReturn then line.reverse else (b :: line).reverse

/-- The lines of some bytes, if the bytes of `line`, the last one first, stand before them. -/
def linesAfter (line : List UInt8) : List UInt8 → List (List UInt8)
  | [] => if line.isEmpty then [] else [line.reverse]
  | b :: rest =>
      if b = lineFeed then endedLine line :: linesAfter [] rest else linesAfter (b :: line) rest

/-- The lines of some bytes, without their ends. -/
def lines (bytes : List UInt8) : List (List UInt8) := linesAfter [] bytes

end ShellQuest.Text
