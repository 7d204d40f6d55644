import ShellQuest.Lesson
import ShellQuest.Main
import ShellQuest.Relay.Hall
import ShellQuest.Proofs.World.Graph
import ShellQuest.Proofs.World.Creation
import ShellQuest.Proofs.World.Keys
import ShellQuest.Proofs.World.Archive
import ShellQuest.Proofs.Command.Written
import ShellQuest.Proofs.Session.Effect
import ShellQuest.Proofs.World.Charted
import ShellQuest.Proofs.Session.Placed
import ShellQuest.Proofs.Session.Names
import ShellQuest.Proofs.Session.Plan
import ShellQuest.Proofs.Session.Mission
import ShellQuest.Proofs.Session.Lessons
import ShellQuest.Proofs.Session.Footprint
import ShellQuest.Proofs.Session.Suggestion
import ShellQuest.Proofs.Text.FullLines
import ShellQuest.Proofs.Text.Utf8
import ShellQuest.Proofs.Relay.Frames
import ShellQuest.Proofs.Json.Quote
import ShellQuest.Proofs.Relay.Delivery
import ShellQuest.Proofs.Relay.Trace
import ShellQuest.Proofs.Relay.Requests
import ShellQuest.Proofs.Relay.Overlong
import ShellQuest.Proofs.Relay.Replies
import ShellQuest.Proofs.Relay.Unplayed
import ShellQuest.Proofs.Session.Ladder
import ShellQuest.Proofs.Text.ControlFree
import ShellQuest.Proofs.Markup.Marked
import ShellQuest.Proofs.Markup.Strip
import ShellQuest.Proofs.Command.Message
import ShellQuest.Proofs.Session.ControlFree
import ShellQuest.Proofs.Session.Output
import ShellQuest.Proofs.Session.Spelling
import ShellQuest.Proofs.Session.Tallies
import ShellQuest.Proofs.Relay.Isolation
import ShellQuest.Proofs.Relay.Slots
import ShellQuest.Proofs.World.Named
import ShellQuest.Proofs.Session.Named
import ShellQuest.Proofs.Session.Banner
import ShellQuest.Proofs.Program.Game
import ShellQuest.Proofs.Program.Colour
import ShellQuest.Proofs.Log.Escape
import ShellQuest.Proofs.Session.Records
import ShellQuest.Proofs.Program.Log
import ShellQuest.Proofs.World.Texts
import ShellQuest.Proofs.Session.Texts
import ShellQuest.Proofs.World.Extraction
import ShellQuest.Proofs.Session.Extraction
import ShellQuest.Proofs.Session.Paths
import ShellQuest.Proofs.Session.Removal
import ShellQuest.Proofs.World.Lineage
import ShellQuest.Proofs.Session.Addresses
import ShellQuest.Proofs.Session.Listing
import ShellQuest.Proofs.Tally
import ShellQuest.Proofs.InputLine
import ShellQuest.Proofs.Session.Repetition
import ShellQuest.Proofs.Session.Counts
import ShellQuest.Proofs.Relay.Accounting
