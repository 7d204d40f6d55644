/-
# Reading and changing files

The commands that read, make, remove, move and copy in the directory where the player stands.
Every check comes before every change, so a refused command changes nothing.
-/
import ShellQuest.Session.Basic

namespace ShellQuest.Session

def treasure : String := "treasure.json"

/-- The files that `rm` removes only when it is repeated. -/
def protectedFiles : List String := [treasure, "mission.txt"]

/-- A name that no file or directory may be given. -/
def isReservedName (name : String) : Bool :=
  name == "." || name == ".." || name == "~" || Text.hasChar name '/'

/-- Shows the text of a file.  From the third line on that starts with reading the treasure, the
treasure comes with a hint. -/
def cat (s : Session) (file : String) : Except CommandError Outcome :=
  if s.hasExit file then .error (.catDirectory file)
  else if !s.hasItem file then .error (.fileNotFound file)
  else
    match s.world.content file with
    | none => .error (.noContent file)
    | some text =>
        let reads := s.history.countP fun line => Text.startsWith line "cat treasure"
        .ok (.shows s
          (if file = treasure ∧ 2 < reads then
            text ++ "\n\nHint: 'treasure.json' seems like something you'd want to move, " ++
              "not just read."
          else text))

def withDirectory (s : Session) (name description : String) (output : String) : Outcome where
  session := { s with world := (s.world.createDirectory s.current name description).1 }
  output := output
  events := [.directoryCreated (s.world.uniqueKey s.current name) s.here.key]

/-- Makes a directory here.  The one that the mission ends in comes with a hint while the treasure
waits in the vault. -/
def mkdir (s : Session) (name : String) : Except CommandError Outcome :=
  if isReservedName name then .error (.invalidName name)
  else if s.hasExit name then .error (.directoryExists name)
  else if s.hasItem name then .error (.fileInTheWay name)
  else
    let created := s!"Created directory: {name}"
    if s.world.archive = some s.current ∧ name = World.relicsName then
      .ok (s.withDirectory name World.relicsDescription
        (if (s.world.location LocationId.hiddenVault).hasItem treasure then
          created ++
            "\n\nHint: Now you can move the treasure.json from hidden_vault to archive/relics!"
        else created))
    else .ok (s.withDirectory name s!"A directory you created named {name}." created)

/-- Makes an empty file here, unless there is one of this name. -/
def touch (s : Session) (name : String) : Except CommandError Outcome :=
  if isReservedName name then .error (.invalidName name)
  else if s.hasExit name then .error (.directoryInTheWay name)
  else if s.hasItem name then .ok (.shows s s!"Updated timestamp of {name}")
  else
    .ok (.shows { s with world := s.world.addFile s.current name "" } s!"Created file: {name}")

/-- What a player is told before a file of the mission is removed. -/
def removalWarning (name : String) : String :=
  Markup.error (s!"Warning: You're attempting to remove a crucial file '{name}'. " ++
    "This action may impact your mission progress. Confirm by running the command again.")

/-- Removes a file here.  A file of the mission is removed by the second of two equal commands. -/
def rm (s : Session) (name : String) : Except CommandError Outcome :=
  if s.hasExit name then .error (.removeDirectory name)
  else
    match s.world.removeFile s.current name with
    | none => .error (.removeMissing name)
    | some world =>
        if protectedFiles.contains name && !s.repeatsLast then
          .ok (.shows s (removalWarning name))
        else .ok (.shows { s with world } s!"Removed: {name}")

/-- Ends the mission: the treasure goes from the vault into the relics. -/
def returnTreasure (s : Session) : Except CommandError Outcome :=
  if s.world.archive.isNone then .error (.archiveMissing treasure)
  else
    match s.world.relics with
    | none => .error .relicsMissing
    | some relics =>
        let world := (s.world.relocateFile LocationId.hiddenVault relics treasure).getD s.world
        .ok {
          session := { s with world, missionComplete := true }
          output := Markup.success "🎉 MISSION ACCOMPLISHED! 🎉" ++
            "\nYou've successfully returned the treasure to its rightful place in archive/relics!"
          events := [.missionCompleted] }

/-- Why a path is refused as the source of a move: files are moved from where they lie. -/
def pathMoveRefusal (s : Session) (source destination : String) : CommandError :=
  if Text.contains source "projects/hidden_vault/treasure.json" then
    .treasureNotHere source destination
  else
    let first := String.ofList (source.toList.takeWhile (· != '/'))
    if first = "~" ∨ first = "home" ∨ s.hasExit first then .navigateToSource source
    else .moveMissing source

/-- The destination of a move lies in another directory. -/
def leavesDirectory (s : Session) (destination : String) : Bool :=
  Text.hasChar destination '/' || Text.startsWith destination "~" || destination == "." ||
    destination == ".." || s.hasExit destination

/-- Renames a file here.  The one move between directories is the last step of the mission. -/
def mv (s : Session) (source destination : String) : Except CommandError Outcome :=
  if Text.hasChar source '/' then .error (s.pathMoveRefusal source destination)
  else if !s.hasItem source then .error (.moveMissing source)
  else if source = destination then .error (.moveOntoItself source)
  else if source = treasure ∧ s.current = LocationId.hiddenVault ∧
      Text.contains destination "archive" then s.returnTreasure
  else if s.leavesDirectory destination then .error .crossDirectory
  else if s.hasItem destination then .error (.wouldOverwrite destination)
  else
    let world := (s.world.renameFile s.current source destination).getD s.world
    .ok (.shows { s with world } s!"Moved {source} to {destination}")

/-- Copies a file here under a new name. -/
def cp (s : Session) (source destination : String) : Except CommandError Outcome :=
  if Text.hasChar source '/' || Text.hasChar destination '/' then .error .crossDirectory
  else if source = destination then .error (.copyOntoItself source)
  else if !s.hasItem source then .error (.copyMissing source)
  else if s.hasItem destination then .error (.wouldOverwrite destination)
  else if s.hasExit destination then .error .crossDirectory
  else if isReservedName destination then .error (.invalidName destination)
  else
    .ok (.shows { s with world := s.world.copyFile s.current source destination }
      s!"Copied {source} to {destination}")

/-- Extracts the archive of the mission, the only archive there is. -/
def unzip (s : Session) (file : String) : Except CommandError Outcome :=
  if s.hasExit file then .error (.unzipDirectory file)
  else if !s.hasItem file then .error (.zipNotFound file)
  else if !Text.endsWith file ".zip" then .error (.notAZip file)
  else if s.current ≠ LocationId.downloads ∨ file ≠ "archive.zip" then .error (.wrongArchive file)
  else if s.world.archive.isSome then
    .ok (.shows s (Markup.error "Warning: Archive already extracted. Files already exist here." ++
      "\n\nHint: Archive is already extracted. Continue with your mission!"))
  else if s.hasItem World.archiveName then .error (.archiveFileInTheWay file)
  else
    let event : Event :=
      match s.world.exitNamed LocationId.downloads World.archiveName with
      | some made => .archiveAdopted (s.world.location made).key
      | none =>
          .directoryCreated (s.world.uniqueKey LocationId.downloads World.archiveName)
            (s.world.location LocationId.downloads).key
    .ok {
      session := { s with world := s.world.extractArchive.1 }
      output := "Archive extracted successfully. You can now access the 'archive' directory."
      events := [event] }

end ShellQuest.Session
