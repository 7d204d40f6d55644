/-
# Runs of a session

How a property of sessions is carried through lines.  Most properties only ask about the game
itself: the world, where the player stands, and whether the mission is over.  For these a line does
nothing, or it is a command that takes effect (`process_game`).
-/
import ShellQuest.Proofs.Session.Effect

namespace ShellQuest.Session

variable {s t u : Session} {command : Command} {line : String} {lines : List String}

/-! ## Many lines -/

@[simp] theorem after_nil (s : Session) : s.after [] = s := rfl

@[simp] theorem after_cons (s : Session) (line : String) (lines : List String) :
    s.after (line :: lines) = (s.process line).session.after lines := by
  rw [after, List.foldl_cons, ← after]

@[simp] theorem after_append (s : Session) (first second : List String) :
    s.after (first ++ second) = (s.after first).after second := by
  rw [after, List.foldl_append, ← after, ← after]

/-- What each of some lines keeps, all of them together keep. -/
theorem after_invariant {P : Session → Prop}
    (hstep : ∀ s, ∀ line ∈ lines, P s → P (s.process line).session) (hs : P s) :
    P (s.after lines) := by
  induction lines generalizing s with
  | nil => exact hs
  | cons line lines ih =>
      rw [after_cons]
      apply ih
      · intro s later hlater
        exact hstep s later (List.mem_cons_of_mem line hlater)
      · exact hstep s line List.mem_cons_self hs

/-! ## Responses -/

def responses (s : Session) : List String → List Response
  | [] => []
  | line :: lines => (s.process line).response :: (s.process line).session.responses lines

/-- The same world, the same place in it, and the same answer to whether the mission is over. -/
structure SameGame (t s : Session) : Prop where
  world : t.world = s.world
  current : t.current = s.current
  missionComplete : t.missionComplete = s.missionComplete

namespace SameGame

theorem refl (s : Session) : SameGame s s := ⟨rfl, rfl, rfl⟩

theorem trans (hu : SameGame u t) (ht : SameGame t s) : SameGame u s :=
  ⟨hu.world.trans ht.world, hu.current.trans ht.current,
    hu.missionComplete.trans ht.missionComplete⟩

end SameGame

theorem sameGame_noting (s : Session) (typed : String) : SameGame (s.noting typed) s :=
  ⟨rfl, rfl, rfl⟩

theorem sameGame_graded (s : Session) (command : Command) (succeeded : Bool) :
    SameGame (s.graded command succeeded) s := by
  obtain ⟨lessons, h⟩ := graded_eq s command succeeded
  rw [h]
  exact ⟨rfl, rfl, rfl⟩

/-- A line keeps the game, or it is a command that takes effect on it. -/
theorem process_game (s : Session) (line : String) :
    SameGame (s.process line).session s ∨
      ∃ command t, Command.ofLine? line = some command ∧
        Effect (s.noting (Text.trim line)) command t ∧ SameGame (s.process line).session t := by
  have hleaves := leaves_process s line
  generalize (s.process line).session = next at hleaves ⊢
  cases hleaves with
  | blank => exact .inl (SameGame.refl s)
  | refused => exact .inl ((sameGame_graded _ _ _).trans (sameGame_noting s _))
  | redraws hcommand _ heffect => exact .inr ⟨_, _, hcommand, heffect, SameGame.refl _⟩
  | takes hcommand _ heffect => exact .inr ⟨_, _, hcommand, heffect, sameGame_graded _ _ _⟩

theorem sameGame_of_effect (hcommand : Command.ofLine? line = some command)
    (hverb : command.verb.redrawsScreen = false)
    (h : Effect (s.noting (Text.trim line)) command t) : SameGame (s.process line).session t := by
  rw [process_of_effect hcommand hverb h]
  exact sameGame_graded t command true

/-- A property of the game is kept by a line if the effect of its command keeps it. -/
theorem process_invariant {P : Session → Prop} (hgame : ∀ {s t}, SameGame t s → P s → P t)
    (heffect : ∀ {s command t}, Command.ofLine? line = some command → Effect s command t →
      P s → P t)
    (hs : P s) : P (s.process line).session := by
  rcases process_game s line with h | ⟨command, t, hcommand, h, ht⟩
  · exact hgame h hs
  · exact hgame ht (heffect hcommand h (hgame (sameGame_noting s _) hs))

theorem verb_ne_reset (hline : Command.resets line = false)
    (hcommand : Command.ofLine? line = some command) : command.verb ≠ .reset := by
  rw [Command.resets, hcommand] at hline
  simpa using hline

end ShellQuest.Session
