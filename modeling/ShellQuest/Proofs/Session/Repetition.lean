/-
# The same words again

Two lines are the same command to a session if they agree once their words are spaced evenly, and
that is no more and no less than having the same words in the same order: the evenly spaced line can
be cut into its words again, since no word holds white space (`Command.words_normalized`).  So it is
the one form of all lines with these words, the command is read off it as off the line itself, and
a removal that has to be repeated is confirmed by its own words only (`repeatsLast_iff`).

The words are those of the characters with the property `White_Space`: what lies between these
characters, where something does.
-/
import ShellQuest.Proofs.Command.Written
import ShellQuest.Session.Turn

namespace ShellQuest

namespace Command

theorem normalized_normalized (line : String) : normalized (normalized line) = normalized line :=
  normalized_eq_iff.2 (words_normalized line)

theorem ofLine?_normalized (line : String) : ofLine? (normalized line) = ofLine? line :=
  ofLine?_of_words (words_normalized line)

theorem normalized_eq_empty {line : String} : normalized line = "" ↔ Text.IsBlank line := by
  have hempty : normalized "" = "" := rfl
  rw [← hempty, normalized_eq_iff, ← Text.words_eq_nil]
  rfl

end Command

namespace Session

theorem repeatsLast_noting {s : Session} {typed : String} : (s.noting typed).repeatsLast = true ↔
    ∃ latest, s.history.getLast? = some latest ∧
      Command.normalized latest = Command.normalized typed := by
  rw [repeatsLast]
  rcases List.eq_nil_or_concat s.history with h | ⟨older, latest, h⟩
  · simp [noting, h]
  · simp [noting, h]

/-- A session takes two lines for the same command if they have the same words. -/
theorem repeatsLast_iff (s : Session) (previous line : String) :
    ((s.noting previous).noting line).repeatsLast = true ↔
      Text.words previous = Text.words line := by
  have hlatest : (s.noting previous).history.getLast? = some previous := List.getLast?_concat
  rw [repeatsLast_noting, hlatest, ← Command.normalized_eq_iff]
  simp

/-- **The evenly spaced line stands for the words.**  Spacing a line evenly twice is the same as doing
it once, and it leaves the command that the line is; it leaves nothing exactly if the line is no
command.  Two lines come out the same exactly if they have the same words in the same order, the
words being what lies between the characters of white space; and exactly then a session takes the one
for a repetition of the other. -/
theorem same_words_iff (s : Session) (previous line : String) :
    Command.normalized (Command.normalized line) = Command.normalized line ∧
    Command.ofLine? (Command.normalized line) = Command.ofLine? line ∧
    (Command.ofLine? line = none ↔ Command.normalized line = "") ∧
    (Command.normalized previous = Command.normalized line ↔
      Text.words previous = Text.words line) ∧
    Text.words line =
      ((line.toList.splitOnP Text.isBlank).filter fun word => !word.isEmpty).map String.ofList ∧
    (((s.noting previous).noting line).repeatsLast = true ↔
      Text.words previous = Text.words line) := by
  refine ⟨Command.normalized_normalized line, Command.ofLine?_normalized line, ?_,
    Command.normalized_eq_iff, Text.words_eq_filter line, repeatsLast_iff s previous line⟩
  rw [Command.ofLine?_eq_none, Command.normalized_eq_empty]

/-- No word is lost between the space of the tabulator, the no-break space and the ideographic one. -/
example : Command.normalized "\trm\u00a0\u3000mission.txt " = "rm mission.txt" := by decide +kernel

end Session

end ShellQuest
