/-
# The world

A small graph of directories and the contents of the files in them.  A directory has a number, its
place in the table of directories; the table only grows, so a number stays good for the whole
game.  Every directory has a key, by which front-ends know it, and a name, which is what a player
sees and types.  A file lies in a directory by being listed there; its text is found by its name
alone, so that two directories that list a file of one name share its text.  A name without an entry
has no readable text.
-/
namespace ShellQuest

/-! ## Contents of files -/

/-- The texts of the files, at most one for each name. -/
structure Contents where
  entries : List (String × String)
deriving DecidableEq, Repr

namespace Contents

def get? (c : Contents) (name : String) : Option String := c.entries.lookup name

def erase (c : Contents) (name : String) : Contents :=
  ⟨c.entries.filter fun entry => entry.1 != name⟩

def set (c : Contents) (name text : String) : Contents :=
  ⟨(name, text) :: (c.erase name).entries⟩

def names (c : Contents) : List String := c.entries.map Prod.fst

def agrees (c d : Contents) : Bool := (c.names ++ d.names).all fun name => c.get? name == d.get? name

theorem lookup_filter_of_ne {entries : List (String × String)} {name other : String}
    (h : other ≠ name) :
    (entries.filter fun entry => entry.1 != name).lookup other = entries.lookup other := by
  induction entries with
  | nil => rfl
  | cons entry rest ih =>
      obtain ⟨key, text⟩ := entry
      by_cases hk : key = name
      · subst hk
        simp [List.lookup_cons, ih, beq_false_of_ne h]
      · simp [List.lookup_cons, ih, hk]

theorem lookup_filter_self (entries : List (String × String)) (name : String) :
    (entries.filter fun entry => entry.1 != name).lookup name = none := by
  induction entries with
  | nil => rfl
  | cons entry rest ih =>
      obtain ⟨key, text⟩ := entry
      by_cases hk : key = name
      · simp [hk, ih]
      · simp [hk, List.lookup_cons, ih, beq_false_of_ne (Ne.symm hk)]

@[simp] theorem get?_erase (c : Contents) (name other : String) :
    (c.erase name).get? other = if other = name then none else c.get? other := by
  by_cases h : other = name
  · subst h
    simp [get?, erase, lookup_filter_self]
  · simp [get?, erase, h, lookup_filter_of_ne h]

@[simp] theorem get?_set (c : Contents) (name text other : String) :
    (c.set name text).get? other = if other = name then some text else c.get? other := by
  by_cases h : other = name
  · simp [get?, set, h]
  · have herase := get?_erase c name other
    rw [if_neg h] at herase
    simpa [get?, set, List.lookup_cons, h, beq_false_of_ne h] using herase

end Contents

/-! ## Directories -/

/-- The number of a directory: its place in the world's table. -/
abbrev LocationId := Nat

namespace LocationId

def home : LocationId := 0
def documents : LocationId := 1
def downloads : LocationId := 2
def projects : LocationId := 3
def hiddenVault : LocationId := 4

end LocationId

/-- A directory.  `items` are the names of its files in the order of their arrival, `exits` the
directories that lie next to it, the way up included. -/
structure Location where
  id : LocationId
  key : String
  name : String
  description : String
  items : List String
  exits : List LocationId
  parent : Option LocationId
deriving DecidableEq, Repr, Inhabited

namespace Location

def hasItem (l : Location) (name : String) : Bool := l.items.contains name

end Location

/-- The directories, the contents of the files, and the directory that the archive was extracted
to, once it was. -/
structure World where
  locations : List Location
  contents : Contents
  archive : Option LocationId
deriving DecidableEq, Repr

namespace World

def location (w : World) (id : LocationId) : Location := w.locations.getD id default

def size (w : World) : Nat := w.locations.length

def findKey (w : World) (key : String) : Option LocationId :=
  (w.locations.find? fun l => l.key == key).map Location.id

/-- Some directory anywhere has this key or this name. -/
def knowsDirectory (w : World) (name : String) : Bool :=
  w.locations.any fun l => l.key == name || l.name == name

def exitNamed (w : World) (here : LocationId) (name : String) : Option LocationId :=
  (w.location here).exits.find? fun e => (w.location e).name == name

def hasExit (w : World) (here : LocationId) (name : String) : Bool :=
  (w.exitNamed here name).isSome

/-- The directory above `id`: the recorded one, or else the first directory that has `id` among
its exits.  Nothing lies above home. -/
def parentOf (w : World) (id : LocationId) : Option LocationId :=
  if id = LocationId.home then none
  else
    match (w.location id).parent with
    | some p => some p
    | none => (w.locations.find? fun l => l.id != id && l.exits.contains id).map Location.id

/-- The directories below `id`: its exits but for the way up. -/
def childExits (w : World) (id : LocationId) : List Location :=
  ((w.location id).exits.filter fun e => some e != w.parentOf id).map w.location

def content (w : World) (name : String) : Option String := w.contents.get? name

/-- Both worlds hold the same: the same directories, archive, and text for every name. -/
def agrees (w v : World) : Bool :=
  w.locations == v.locations && w.archive == v.archive && w.contents.agrees v.contents

end World

end ShellQuest
