/-
# The world at the start

Five directories with the files that the lessons and the mission speak of.
-/
import ShellQuest.World.Basic

namespace ShellQuest.World

/-- The directories at the start, by their numbers. -/
def seedLocations : List Location := [
  { id := LocationId.home, key := "home", name := "home",
    description := "Your home directory. A clean, minimal space with a terminal prompt blinking.",
    items := ["notes.txt", "mission.txt"],
    exits := [LocationId.documents, LocationId.downloads, LocationId.projects],
    parent := none },
  { id := LocationId.documents, key := "documents", name := "documents",
    description := "A directory containing important files.",
    items := ["secret.txt", "manual.pdf"],
    exits := [LocationId.home],
    parent := some LocationId.home },
  { id := LocationId.downloads, key := "downloads", name := "downloads",
    description := "A cluttered space with various downloaded files.",
    items := ["image.jpg", "archive.zip"],
    exits := [LocationId.home],
    parent := some LocationId.home },
  { id := LocationId.projects, key := "projects", name := "projects",
    description := "Your coding projects directory.",
    items := ["README.md"],
    exits := [LocationId.home, LocationId.hiddenVault],
    parent := some LocationId.home },
  { id := LocationId.hiddenVault, key := "hidden_vault", name := "hidden_vault",
    description := "A secret directory containing treasures.",
    items := ["treasure.json"],
    exits := [LocationId.projects],
    parent := some LocationId.projects }]

def missionBriefing : String :=
  "\n".intercalate [
    "MISSION BRIEFING:",
    "A precious treasure.json file has been stolen from the archive.zip/relics folder!",
    "The thief has hidden it in the hidden_vault directory.",
    "",
    "Your mission:",
    "1. Find and recover the treasure.json file",
    "2. Use unzip command to extract the archive.zip",
    "3. Create a 'relics' directory inside the extracted archive if it doesn't exist",
    "4. Move the treasure.json file to its rightful place in archive/relics",
    "",
    "Good luck, agent!"]

def readme : String :=
  "\n".intercalate [
    "# Project Documentation",
    "Use 'ls' to list files",
    "Use 'cd' to change directories",
    "Use 'cat' to read files"]

def treasureText : String :=
  "\x7b\"reward\":\"You've mastered basic CLI commands!\",\"value\":\"$1,000,000\"," ++
  "\"origin\":\"archive/relics\"\x7d"

/-- The readable files at the start. -/
def seedContents : Contents := ⟨[
  ("notes.txt", "Welcome to CLI Adventures!\nType 'help' to see available commands."),
  ("mission.txt", missionBriefing),
  ("secret.txt", "The password is 'opensesame'"),
  ("README.md", readme),
  ("treasure.json", treasureText)]⟩

/-- The world at the start of every game. -/
def seeded : World := { locations := seedLocations, contents := seedContents, archive := none }

end ShellQuest.World
