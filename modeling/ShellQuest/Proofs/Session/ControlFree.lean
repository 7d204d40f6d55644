/-
# Games without control characters

A line without control characters brings none into the game: its words are pieces of it, and they are
all that a command gives to the world.  So whatever is played of what may be played, no key, no name and
no line that was typed holds a control character.  The texts of the files are scripted, and printed.
-/
import ShellQuest.Proofs.InputLine
import ShellQuest.Proofs.Session.Named

namespace ShellQuest

/-! ## Worlds -/

open Text (Printed isControl)

def Location.ControlFree (l : Location) : Prop :=
  Text.ControlFree l.key ∧ Text.ControlFree l.name ∧ ∀ item ∈ l.items, Text.ControlFree item

instance (l : Location) : Decidable l.ControlFree := inferInstanceAs (Decidable (_ ∧ _))

def Contents.AllPrinted (c : Contents) : Prop := ∀ entry ∈ c.entries, Printed entry.2

instance (c : Contents) : Decidable c.AllPrinted := List.decidableBAll _ c.entries

structure World.ControlFree (w : World) : Prop where
  locations : ∀ l ∈ w.locations, l.ControlFree
  contents : w.contents.AllPrinted

namespace World

variable {w : World}

theorem ControlFree.of_named (hnamed : w.Named Text.ControlFree)
    (hkeyed : w.Keyed fun c => isControl c = false) (hscripted : w.Scripted) : w.ControlFree where
  locations l hl := by
    obtain ⟨i, hi, rfl⟩ := exists_location_eq hl
    exact ⟨hkeyed i hi, hnamed.directory i hi, hnamed.item i⟩
  contents entry hentry := printed_of_mem_scriptedTexts entry.2 (hscripted entry hentry)

end World

/-! ## Sessions -/

namespace Session

/-- The world and the lines that were typed are control-free. -/
structure ControlFree (s : Session) : Prop where
  world : s.world.ControlFree
  history : ∀ typed ∈ s.history, Text.ControlFree typed

namespace ControlFree

variable {lines : List String}

theorem world_after (hlines : ∀ line ∈ lines, Text.ControlFree line) :
    (start.after lines).world.ControlFree := by
  have hwords : ∀ line ∈ lines, ∀ word ∈ Text.words line, Text.ControlFree word :=
    fun line hline word hword => Text.All.of_mem_words (hlines line hline) hword
  refine .of_named (named_after controlFree_of_mem_scriptedNames fun line hline word hword _ => ?_)
    (keyed_after Text.graphic_notControl hwords) (scripted_after lines)
  exact hwords line hline word hword

theorem history_after (hlines : ∀ line ∈ lines, Text.ControlFree line) :
    ∀ typed ∈ (start.after lines).history, Text.ControlFree typed := by
  apply after_invariant (P := fun s => ∀ typed ∈ s.history, Text.ControlFree typed)
  · intro s line hline hs
    rw [history_process]
    split
    · exact hs
    · split
      · exact nofun
      · exact List.forall_mem_append.2
          ⟨hs, List.forall_mem_singleton.2 (hlines line hline).trim⟩
  · exact nofun

theorem after (hlines : ∀ line ∈ lines, InputLine.Playable line) :
    ControlFree (Session.start.after lines) :=
  ⟨world_after fun line hline => (hlines line hline).controlFree,
    history_after fun line hline => (hlines line hline).controlFree⟩

end ControlFree

end Session

end ShellQuest
