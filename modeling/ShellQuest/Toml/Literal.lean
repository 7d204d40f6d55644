/-
# Numbers, dates and words of TOML

What the values without quotes and brackets are.  Such a value is a stretch of letters, digits and
the signs of numbers and times, and it is judged as a whole.
-/
import ShellQuest.Toml.Value

namespace ShellQuest.Toml.Literal

/-- The digits of a number, without the underscores that may stand between two of them; at least
one. -/
def digits (isDigit : Char → Bool) : List Char → Option (List Char)
  | [] => none
  | [c] => if isDigit c then some [c] else none
  | c :: '_' :: s => if isDigit c then (digits isDigit s).map (c :: ·) else none
  | c :: s => if isDigit c then (digits isDigit s).map (c :: ·) else none

/-- The value of a digit, with letters for those from ten on. -/
def digitValue (c : Char) : Nat :=
  if c.isDigit then c.toNat - '0'.toNat
  else if c.isLower then c.toNat - 'a'.toNat + 10
  else c.toNat - 'A'.toNat + 10

/-- The number that digits spell in a base. -/
def spelled (base : Nat) (s : List Char) : Nat :=
  s.foldl (fun n c => n * base + digitValue c) 0

def isDigitOf (base : Nat) (c : Char) : Bool := c.isAlphanum && digitValue c < base

/-- The decimal digits of a whole number, which do not start with a zero if there are several. -/
def wholeDigits (s : List Char) : Option (List Char) :=
  match digits Char.isDigit s with
  | some ('0' :: _ :: _) => none
  | found => found

/-- A sign, if there is one, and what follows it. -/
def signed : List Char → Bool × List Char
  | '-' :: s => (true, s)
  | '+' :: s => (false, s)
  | s => (false, s)

/-- The integers are those of 64 bits. -/
def inRange (n : Int) : Bool := Int64.minValue.toInt ≤ n && n ≤ Int64.maxValue.toInt

/-- An integer: decimal with a sign, or in another base without one. -/
def integer? (s : List Char) : Option Int :=
  let found : Option Int :=
    match s with
    | '0' :: 'x' :: s => (digits (isDigitOf 16) s).map fun d => spelled 16 d
    | '0' :: 'o' :: s => (digits (isDigitOf 8) s).map fun d => spelled 8 d
    | '0' :: 'b' :: s => (digits (isDigitOf 2) s).map fun d => spelled 2 d
    | s =>
        let (negative, s) := signed s
        (wholeDigits s).map fun d => if negative then -(spelled 10 d : Int) else spelled 10 d
  found.filter inRange

/-- The least positive number that is rounded to infinity: halfway from the greatest float to the
next power of two. -/
def leastInfinite : Nat := 1 <<< 1024 - 1 <<< 970

/-- `n` times ten to the power `e` is rounded to a finite float. -/
def isFinite (n : Nat) (e : Int) : Bool :=
  let size : Int := (Nat.toDigits 10 n).length + e
  if n = 0 ∨ size ≤ 308 then true
  else if 310 ≤ size then false
  else if 0 ≤ e then n * Nat.pow 10 e.toNat < leastInfinite
  else n < leastInfinite * Nat.pow 10 (-e).toNat

/-- A float: a whole number with a fraction, an exponent or both, that is not too great; or one of
the two special ones. -/
def isFloat (s : List Char) : Bool :=
  let (negative, s) := signed s
  if s = ['i', 'n', 'f'] ∨ s = ['n', 'a', 'n'] then true
  else
    let isMark (c : Char) : Bool := c == 'e' || c == 'E'
    let mantissa := s.takeWhile fun c => !isMark c
    let whole := mantissa.takeWhile (· != '.')
    let fraction := match mantissa.dropWhile (· != '.') with
      | [] => some []
      | _ :: f => digits Char.isDigit f
    let exponent : Option Int := match s.dropWhile fun c => !isMark c with
      | [] => some 0
      | _ :: e =>
          let (negative, e) := signed e
          (digits Char.isDigit e).map fun d =>
            if negative then -(spelled 10 d : Int) else spelled 10 d
    match wholeDigits whole, fraction, exponent with
    | some w, some f, some e =>
        s.any (fun c => c == '.' || isMark c) &&
          (negative || isFinite (spelled 10 (w ++ f)) (e - f.length))
    | _, _, _ => false

/-! ## Dates and times -/

/-- Two digits that spell a number from `low` to `high`. -/
def twoDigits (low high : Nat) (a b : Char) : Bool :=
  let n := spelled 10 [a, b]
  a.isDigit && b.isDigit && low ≤ n && n ≤ high

def daysIn (year month : Nat) : Nat :=
  if month = 2 then
    if year % 4 = 0 ∧ (year % 100 ≠ 0 ∨ year % 400 = 0) then 29 else 28
  else if month = 4 ∨ month = 6 ∨ month = 9 ∨ month = 11 then 30
  else 31

/-- What follows a date at the start of `s`. -/
def afterDate : List Char → Option (List Char)
  | y₁ :: y₂ :: y₃ :: y₄ :: '-' :: m₁ :: m₂ :: '-' :: d₁ :: d₂ :: s =>
      let year := spelled 10 [y₁, y₂, y₃, y₄]
      if [y₁, y₂, y₃, y₄].all Char.isDigit && twoDigits 1 12 m₁ m₂ &&
          twoDigits 1 (daysIn year (spelled 10 [m₁, m₂])) d₁ d₂ then some s
      else none
  | _ => none

/-- What follows a time of day at the start of `s`. -/
def afterTime : List Char → Option (List Char)
  | h₁ :: h₂ :: ':' :: m₁ :: m₂ :: ':' :: s₁ :: s₂ :: s =>
      if twoDigits 0 23 h₁ h₂ && twoDigits 0 59 m₁ m₂ && twoDigits 0 60 s₁ s₂ then
        match s with
        | '.' :: c :: s => if c.isDigit then some (s.dropWhile Char.isDigit) else none
        | s => some s
      else none
  | _ => none

/-- A distance from universal time, or nothing. -/
def isOffset : List Char → Bool
  | [] => true
  | [c] => c == 'Z' || c == 'z'
  | [sign, h₁, h₂, ':', m₁, m₂] =>
      (sign == '+' || sign == '-') && twoDigits 0 23 h₁ h₂ && twoDigits 0 59 m₁ m₂
  | _ => false

def isDate (s : List Char) : Bool := afterDate s == some []

/-- A time of day with or without an offset. -/
def isZonedTime (s : List Char) : Bool :=
  match afterTime s with
  | some offset => isOffset offset
  | none => false

/-- A date, a time of day, or both with a letter between them. -/
def isMoment (s : List Char) : Bool :=
  match afterDate s with
  | some [] => true
  | some (c :: s) => (c == 'T' || c == 't') && isZonedTime s
  | none => afterTime s == some []

/-! ## Values -/

/-- The characters of such a value. -/
def isPart (c : Char) : Bool :=
  c.isAlphanum || c == '+' || c == '-' || c == '_' || c == '.' || c == ':'

/-- What a stretch of such characters is. -/
def value? (s : List Char) : Option Value :=
  if s = ['t', 'r', 'u', 'e'] then some (.boolean true)
  else if s = ['f', 'a', 'l', 's', 'e'] then some (.boolean false)
  else if isMoment s then some .moment
  else if isFloat s then some .float
  else (integer? s).map .integer

end ShellQuest.Toml.Literal
