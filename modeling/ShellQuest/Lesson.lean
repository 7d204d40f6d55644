/-
# Lessons

The ten lessons in the order in which players meet them, with the texts shown for them, and the
record of those that a player has finished, which is written as a JSON object with the list
`completed` and read back from it.
-/
import ShellQuest.Json.Reader

namespace ShellQuest

inductive Lesson where
  | ls
  | cd
  | cat
  | pwd
  | cdParent
  | missionBrief
  | findTreasure
  | unzipArchive
  | createRelics
  | missionComplete
deriving DecidableEq, Repr

namespace Lesson

/-- The lessons in the order in which players meet them. -/
def all : List Lesson :=
  [ls, cd, cat, pwd, cdParent, missionBrief, findTreasure, unzipArchive, createRelics,
    missionComplete]

/-- The word that stands for a lesson. -/
def id : Lesson → String
  | ls => "ls"
  | cd => "cd"
  | cat => "cat"
  | pwd => "pwd"
  | cdParent => "cd_parent"
  | missionBrief => "mission_brief"
  | findTreasure => "find_treasure"
  | unzipArchive => "unzip_archive"
  | createRelics => "create_relics"
  | missionComplete => "mission_complete"

def ofId? (word : String) : Option Lesson := all.find? fun l => l.id == word

def description : Lesson → String
  | ls => "List directory contents using 'ls'"
  | cd => "Change directories using 'cd'"
  | cat => "View file contents using 'cat'"
  | pwd => "Print working directory using 'pwd'"
  | cdParent => "Navigate to parent directory using 'cd ..'"
  | missionBrief => "Read your mission briefing"
  | findTreasure => "Locate the stolen treasure"
  | unzipArchive => "Extract the archive.zip file"
  | createRelics => "Create the missing relics directory"
  | missionComplete => "Return the treasure to its rightful place"

def objective : Lesson → String
  | ls => "List the contents of your home directory"
  | cd => "Navigate to any directory from home"
  | cat => "Read the contents of any text file"
  | pwd => "Check your current location using pwd"
  | cdParent => "Go to a directory and then return to the parent directory"
  | missionBrief => "Read the mission.txt file in your home directory"
  | findTreasure => "Navigate to the hidden_vault and verify the treasure.json file is there"
  | unzipArchive => "Use the unzip command on archive.zip in the downloads directory"
  | createRelics => "Create a relics directory inside the archive directory"
  | missionComplete => "Move the treasure.json file from hidden_vault to archive/relics"

def hint : Lesson → String
  | ls => "Just type 'ls' and press Enter"
  | cd => "Type 'cd' followed by a directory name like 'cd documents' or 'cd downloads'"
  | cat => "First 'cd' to a directory, then 'cat filename' to view its contents"
  | pwd => "Type 'pwd' to see your current location in the file system"
  | cdParent => "First 'cd' to a directory, then type 'cd ..' to go back up one level"
  | missionBrief => "Use 'cat mission.txt' in your home directory to read your mission briefing"
  | findTreasure =>
      "First go to the projects directory with 'cd projects', then to 'cd hidden_vault'"
  | unzipArchive =>
      "First navigate to your home directory with 'cd ~', " ++
      "then go to downloads with 'cd downloads', then use 'unzip archive.zip'"
  | createRelics => "Navigate to the archive directory and use 'mkdir relics'"
  | missionComplete =>
      "First get the treasure.json file, then move it to the archive/relics directory"

/-- The challenge shown once every lesson is finished. -/
def allComplete : String := "All challenges completed! Explore freely!"

end Lesson

structure LessonProgress where
  completed : List Lesson
deriving DecidableEq, Repr

namespace LessonProgress

def none : LessonProgress := ⟨[]⟩

def isComplete (p : LessonProgress) (l : Lesson) : Bool := p.completed.contains l

def complete (p : LessonProgress) (l : Lesson) : LessonProgress :=
  if p.isComplete l then p else ⟨p.completed ++ [l]⟩

/-- The earliest lesson that is not finished. -/
def current (p : LessonProgress) : Option Lesson := Lesson.all.find? fun l => !p.isComplete l

def allComplete (p : LessonProgress) : Bool := p.current.isNone

/-- The finished lessons in the order in which players meet them. -/
def inOrder (p : LessonProgress) : List Lesson := Lesson.all.filter p.isComplete

def challenge (p : LessonProgress) : String :=
  match p.current with
  | some l => l.description
  | .none => Lesson.allComplete

def challengeHint (p : LessonProgress) : String :=
  match p.current with
  | some l => l.hint
  | .none => ""

/-- One line on how far the player is. -/
def summary (p : LessonProgress) : String :=
  let done := p.inOrder.length
  let total := Lesson.all.length
  match p.current with
  | some l => s!"Lessons {done}/{total}. Next: {l.objective}"
  | .none => s!"Lessons {done}/{total}. {Lesson.allComplete}"

end LessonProgress

/-! ## Progress as JSON -/

/-- A lesson from its word, or from an object that has the word as its only name, with null. -/
def Lesson.ofJson? : Json.Value → Option Lesson
  | .text (some word) => Lesson.ofId? word
  | .object [(some word, .null)] => Lesson.ofId? word
  | _ => none

namespace LessonProgress

def toJson (p : LessonProgress) : String :=
  Json.writeObject
    [("completed", Json.writeList (p.inOrder.map fun l => Json.quote l.id))]

def ofJson? (s : String) : Option LessonProgress :=
  match (Json.Value.ofText? s).bind (Json.Value.soleField? "completed") with
  | some (.list items) =>
      (items.mapM Lesson.ofJson?).map fun lessons => lessons.foldl complete LessonProgress.none
  | _ => Option.none

end LessonProgress

end ShellQuest
