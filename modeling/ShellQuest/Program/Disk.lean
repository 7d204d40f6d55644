/-
# The disk

The files around the program, by their paths.  A path is walked step by step, from the place where
the program runs or from the root of the system, and every step but the last must lead into a
directory.  In the program's place a directory is there if a file is in it, and the place itself is
always there.

Of the rest of the system the program counts on what is there everywhere: the directories above its
place and a few below the root, one of them for short-lived files, and the device that holds
nothing and takes everything.  What is written there is not seen again.
-/
import ShellQuest.Text.Basic

namespace ShellQuest.Program

inductive Entry where
  | nothing
  | directory
  | file (bytes : ByteArray)

/-- Where a path leads: so many steps from the program's place, from a directory some levels above
it, or from the root. -/
inductive Spot where
  | place (steps : List String)
  | above (levels : Nat) (steps : List String)
  | root (steps : List String)
deriving DecidableEq, Repr

namespace Spot

def up : Spot → Spot
  | place [] => above 0 []
  | place steps => place steps.dropLast
  | above levels [] => above (levels + 1) []
  | above levels steps => above levels steps.dropLast
  | root steps => root steps.dropLast

def down (name : String) : Spot → Spot
  | place steps => place (steps ++ [name])
  | above levels steps => above levels (steps ++ [name])
  | root steps => root (steps ++ [name])

/-- The directories below the root that every system has. -/
def systemDirectories : List (List String) :=
  [[], ["bin"], ["dev"], ["etc"], ["lib"], ["tmp"], ["usr"], ["var"]]

/-- The device that holds nothing and takes everything. -/
def nullDevice : List String := ["dev", "null"]

/-- Bytes can be written here although the spot lies outside the program's place. -/
def takesBytes : Spot → Bool
  | place _ => false
  | above _ steps => steps.length = 1
  | root steps => steps = nullDevice || (steps.length = 2 && steps.head? = some "tmp")

end Spot

/-- The files in the program's place, each under the steps that lead to it. -/
structure Disk where
  files : List (List String × ByteArray)

namespace Disk

/-! ## Paths -/

/-- The longest path, in bytes. -/
def pathLimit : Nat := 4095

/-- The longest name of a file, in bytes. -/
def nameLimit : Nat := 255

def isPath (path : String) : Bool :=
  !path.isEmpty && path.utf8ByteSize ≤ pathLimit && !Text.hasChar path '\x00' &&
    (Text.segments path).all fun name => name.utf8ByteSize ≤ nameLimit

def isDirectory (d : Disk) : Spot → Bool
  | .place steps =>
      steps.isEmpty || d.files.any fun f => steps.isPrefixOf f.1 && f.1 != steps
  | .above _ steps => steps.isEmpty
  | .root steps => Spot.systemDirectories.contains steps

/-- One step of a walk, which starts in a directory. -/
def step? (d : Disk) (spot : Spot) (name : String) : Option Spot :=
  if !d.isDirectory spot then none
  else if name = "." then some spot
  else if name = ".." then some spot.up
  else some (spot.down name)

/-- Where a path leads; `none` if a step on the way is missing or is no directory.  A slash at the
end is a step into the directory before it. -/
def spot? (d : Disk) (path : String) : Option Spot :=
  if !isPath path then none
  else
    let names := Text.segments path ++ if Text.endsWith path "/" then ["."] else []
    names.foldlM d.step? (if Text.startsWith path "/" then .root [] else .place [])

/-! ## Reading and writing -/

def entry (d : Disk) (path : String) : Entry :=
  match d.spot? path with
  | none => .nothing
  | some spot =>
      if d.isDirectory spot then .directory
      else
        match spot with
        | .place steps =>
            match d.files.lookup steps with
            | some bytes => .file bytes
            | none => .nothing
        | .above _ _ => .nothing
        | .root steps => if steps = Spot.nullDevice then .file ByteArray.empty else .nothing

/-- The disk on which a file holds `change` of what it held; a missing file held nothing.  `none` if
no file can be written there. -/
def update? (d : Disk) (path : String) (change : ByteArray → ByteArray) : Option Disk :=
  match d.spot? path with
  | none => none
  | some spot =>
      if d.isDirectory spot then none
      else
        match spot with
        | .place steps =>
            let bytes := change ((d.files.lookup steps).getD ByteArray.empty)
            some { files := (steps, bytes) :: d.files.filter fun f => f.1 != steps }
        | spot => if spot.takesBytes then some d else none

def write? (d : Disk) (path : String) (bytes : ByteArray) : Option Disk :=
  d.update? path fun _ => bytes

def append? (d : Disk) (path : String) (bytes : ByteArray) : Option Disk :=
  d.update? path fun held => held ++ bytes

end Disk

end ShellQuest.Program
