/-
# Changing the world

Directories are only ever added, each below an existing one and under a key that no other
directory has.  Files are listed, dropped, renamed, copied and moved; their texts go by name, so a
dropped file's text is dropped for all files of its name.

Extracting `archive.zip` makes the directory `archive` below downloads, once in a game.  If the
player has made a directory of that name there, it becomes the archive and keeps what it holds.
The mission ends in the directory `relics` of the archive.
-/
import ShellQuest.World.Basic

namespace ShellQuest.World

def modifyLocation (w : World) (id : LocationId) (f : Location → Location) : World :=
  { w with locations := w.locations.modify id f }

def modifyItems (w : World) (id : LocationId) (f : List String → List String) : World :=
  w.modifyLocation id fun l => { l with items := f l.items }

/-- The keys tried for a directory whose plain name is taken: `base`, `base2`, `base3`, …  The count has
no bound here; in the 32 bits of the program it ends only where some `2 ^ 31` directories are. -/
def numberedKey (base : String) : Nat → String
  | 0 => base
  | n + 1 => base ++ toString (n + 2)

/-- The key for a new directory `name` below `parent`: its name if no directory has that key, else
the first free one among the numbered forms of the parent's key, an underscore and the name.  The
program tries the forms until one is free.  As they all differ and the directories are `w.size`, one of
the first `w.size + 1` is; so a search among these ends with the same key. -/
def uniqueKey (w : World) (parent : LocationId) (name : String) : String :=
  if (w.findKey name).isNone then name
  else
    let base := (w.location parent).key ++ "_" ++ name
    let forms := (List.range (w.size + 1)).map (numberedKey base)
    (forms.find? fun key => (w.findKey key).isNone).getD base

def insertLocation (w : World) (key name description : String) (parent : LocationId) : World :=
  let new : Location := {
    id := w.size, key, name, description, items := [], exits := [parent], parent := some parent }
  { w with locations := w.locations ++ [new] }.modifyLocation parent
    fun l => { l with exits := l.exits ++ [w.size] }

def createDirectory (w : World) (parent : LocationId) (name description : String) :
    World × LocationId :=
  (w.insertLocation (w.uniqueKey parent name) name description parent, w.size)

/-- `items` with `name` at the end, unless it is there. -/
def listItem (name : String) (items : List String) : List String :=
  if items.contains name then items else items ++ [name]

/-- Lists a file in `here`, and gives its name this text. -/
def addFile (w : World) (here : LocationId) (name text : String) : World :=
  let w := w.modifyItems here (listItem name)
  { w with contents := w.contents.set name text }

/-- Drops a file from `here`, and with it the text of its name. `none` if no such file is here. -/
def removeFile (w : World) (here : LocationId) (name : String) : Option World :=
  if (w.location here).hasItem name then
    let w := w.modifyItems here fun items => items.erase name
    some { w with contents := w.contents.erase name }
  else none

/-- `contents` with the text of `source`, if it has one, moved to `target`. -/
def moveText (contents : Contents) (source target : String) : Contents :=
  match contents.get? source with
  | some text => (contents.erase source).set target text
  | none => contents

/-- `contents` with the text of `source`, if it has one, also for `target`. -/
def copyText (contents : Contents) (source target : String) : Contents :=
  match contents.get? source with
  | some text => contents.set target text
  | none => contents

/-- Renames a file within `here`; it goes to the end of the list, a file of the new name gives way,
and the text follows the name.  `none` if no such file is here. -/
def renameFile (w : World) (here : LocationId) (source target : String) : Option World :=
  if (w.location here).hasItem source then
    let w := w.modifyItems here fun items =>
      (items.erase source).filter (· != target) ++ [target]
    some { w with contents := moveText w.contents source target }
  else none

/-- Lists a copy of a file within `here`, with the same text if it has one. -/
def copyFile (w : World) (here : LocationId) (source target : String) : World :=
  let w := w.modifyItems here fun items => items ++ [target]
  { w with contents := copyText w.contents source target }

/-- Moves a file from one directory to another, with its text untouched. `none` if it is not in the
first one. -/
def relocateFile (w : World) (source target : LocationId) (name : String) : Option World :=
  if (w.location source).hasItem name then
    some ((w.modifyItems source fun items => items.erase name).modifyItems target (listItem name))
  else none

/-! ## The archive -/

def archiveName : String := "archive"

def archiveDescription : String := "Contents of the extracted archive"

def relicsName : String := "relics"

def relicsDescription : String := "A secure directory for storing valuable treasures"

def archiveFiles : List (String × String) := [
  ("README.txt", "Archive contents. These files were recovered from an ancient system."),
  ("data.csv", "item,value\napple,1\nbanana,2\ntreasure,1000000")]

/-- The directory that becomes the archive: the one of its name below downloads, made if there is
none. -/
def archiveDirectory (w : World) : World × LocationId :=
  match w.exitNamed LocationId.downloads archiveName with
  | some made => (w, made)
  | none => w.createDirectory LocationId.downloads archiveName archiveDescription

/-- Extracts the archive, unless that was done, and gives its directory. -/
def extractArchive (w : World) : World × LocationId :=
  match w.archive with
  | some existing => (w, existing)
  | none =>
      let (w, id) := w.archiveDirectory
      let w := archiveFiles.foldl (fun w (name, text) => w.addFile id name text) w
      ({ w with archive := some id }, id)

/-- The directory in which the mission ends, if it and the archive exist. -/
def relics (w : World) : Option LocationId :=
  w.archive.bind fun a => w.exitNamed a relicsName

end ShellQuest.World
