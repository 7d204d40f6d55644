/-
# Runs that play a game

Which runs of the program are games, and what is left of one: its output and its exit code are those of
the game over the typed bytes, and its records go to the log.  A game goes from line to line: a line may
break it off, end it, or be one of the lines of the session that is played on.
-/
import ShellQuest.Program.Run
import ShellQuest.Proofs.Session.Tallies

namespace ShellQuest

namespace Program

/-- The words ask for a game by `call`, and the settings found on the disk are `settings`. -/
structure Plays (words : List String) (d : Disk) (call : Invocation) (settings : Settings) : Prop where
  arguments : Invocation.ofArguments words = .ok call
  task : call.task = .play
  found : (d.entry call.config).settings = .ok settings

variable {words : List String} {d : Disk} {call : Invocation} {settings : Settings}

theorem Plays.run_eq (h : Plays words d call settings) (stamp : String) (typed : List UInt8) :
    run stamp words typed d =
      { code := (playing settings typed).code
        output := (playing settings typed).output
        disk := d.logged settings.log.file
          (logText stamp (call.logFilter settings.log) (playing settings typed).records) } := by
  simp only [run, h.arguments, h.task, perform, h.found]

end Program

namespace Terminal

variable {g : GameSettings} {s : Session} {line : String} {typed : List UInt8}
  {rest : List (List UInt8)}

/-! ## The first line of a game -/

theorem playLines_brokenOff (hread : String.fromUTF8? ⟨typed.toArray⟩ = none) :
    playLines g s (typed :: rest) =
      { shown := ask s ++ "", events := [], session := s, ending := .brokenOff } := by
  simp only [playLines, takeLine, hread]

theorem playLines_left (hread : String.fromUTF8? ⟨typed.toArray⟩ = some line)
    (hleaves : leaves line = true) :
    playLines g s (typed :: rest) =
      { shown := ask s ++ tell g (s.process line).response
        events := (s.process line).events
        session := (s.process line).session
        ending := .left } := by
  simp only [playLines, takeLine, hread, hleaves, if_true]

theorem playLines_next (hread : String.fromUTF8? ⟨typed.toArray⟩ = some line)
    (hleaves : leaves line = false) :
    playLines g s (typed :: rest) =
      (playLines g (s.process line).session rest).preceded
        (ask s ++ tell g (s.process line).response) (s.process line).events := by
  simp only [playLines, takeLine, hread, hleaves, Bool.false_eq_true, if_false]

/-! ## The lines of a game -/

/-- The lines that are played: up to the first that leaves the game, and none from one on that cannot be
read. -/
def played : List (List UInt8) → List String
  | [] => []
  | typed :: rest =>
      match String.fromUTF8? ⟨typed.toArray⟩ with
      | none => []
      | some line => if leaves line then [line] else line :: played rest

theorem events_playLines (g : GameSettings) (s : Session) (lines : List (List UInt8)) :
    (playLines g s lines).events = s.events (played lines) := by
  induction lines generalizing s with
  | nil => rfl
  | cons typed rest ih =>
      cases hread : String.fromUTF8? ⟨typed.toArray⟩ with
      | none =>
          rw [playLines_brokenOff hread]
          simp only [played, hread]
          rfl
      | some line =>
          cases hleaves : leaves line with
          | true =>
              have hnothing : (s.process line).session.events [] = [] := rfl
              rw [playLines_left hread hleaves]
              simp only [played, hread, hleaves, if_true, Session.events_cons, hnothing,
                List.append_nil]
          | false =>
              rw [playLines_next hread hleaves]
              simp only [played, hread, hleaves, Bool.false_eq_true, if_false, Session.events_cons,
                ← ih]
              rfl

end Terminal

end ShellQuest
