/-
# Commands as lines

A command has a written form: the name of its verb and its arguments, with single spaces between
them.  A line that is the written form of a command is read as that command, as long as its verb is
one that the shell knows and its arguments can stand as words.
-/
import ShellQuest.Command.Basic
import ShellQuest.Proofs.Text.Words

namespace ShellQuest

theorem Verb.ofWord_name : ∀ v ∈ Verb.known, Verb.ofWord v.name = v := by
  decide +kernel

theorem Verb.isWord_name : ∀ v ∈ Verb.known, Text.IsWord v.name := by
  decide +kernel

namespace Command

def written (command : Command) : String := " ".intercalate (command.verb.name :: command.args)

def resets (line : String) : Bool := (ofLine? line).any fun command => command.verb == .reset

@[simp] theorem ofLine?_trim (line : String) : ofLine? (Text.trim line) = ofLine? line := by
  rw [ofLine?, Text.words_trim, ofLine?]

@[simp] theorem normalized_trim (line : String) : normalized (Text.trim line) = normalized line := by
  rw [normalized, Text.words_trim, normalized]

@[simp] theorem words_normalized (line : String) :
    Text.words (normalized line) = Text.words line :=
  Text.words_intercalate fun _ => Text.isWord_of_mem_words

theorem ofLine?_of_words {line other : String} (h : Text.words line = Text.words other) :
    ofLine? line = ofLine? other := by
  rw [ofLine?, h, ofLine?]

/-- A line of the same words is the same line once it is spaced evenly, and no other line is. -/
theorem normalized_eq_iff {line other : String} :
    normalized line = normalized other ↔ Text.words line = Text.words other := by
  constructor
  · intro h
    rw [← words_normalized line, h, words_normalized]
  · intro h
    rw [normalized, h, normalized]

theorem ofLine?_congr {line other : String} (h : normalized line = normalized other) :
    ofLine? line = ofLine? other :=
  ofLine?_of_words (normalized_eq_iff.1 h)

theorem mem_words_of_mem_args {line arg : String} {command : Command}
    (h : ofLine? line = some command) (harg : arg ∈ command.args) : arg ∈ Text.words line := by
  rw [ofLine?] at h
  split at h
  · cases h
  · next word args hwords =>
    cases h
    rw [hwords]
    exact List.mem_cons_of_mem word harg

theorem ofLine?_eq_none {line : String} : ofLine? line = none ↔ Text.IsBlank line := by
  rw [← Text.words_eq_nil, ofLine?]
  cases Text.words line with
  | nil => simp
  | cons word args => simp

theorem ofLine?_written {command : Command} (hverb : command.verb ∈ Verb.known)
    (hargs : ∀ arg ∈ command.args, Text.IsWord arg) : ofLine? command.written = some command := by
  have hwords : ∀ t ∈ command.verb.name :: command.args, Text.IsWord t := by
    intro t ht
    rcases List.mem_cons.1 ht with rfl | ht
    · exact Verb.isWord_name _ hverb
    · exact hargs t ht
  rw [ofLine?, written, Text.words_intercalate hwords]
  simp only [Verb.ofWord_name _ hverb]

/-- A command that can be written on a line and does not wipe the screen. -/
def Plain (command : Command) : Prop :=
  command.verb ∈ Verb.known ∧ (∀ arg ∈ command.args, Text.IsWord arg) ∧
    command.verb.redrawsScreen = false

instance (command : Command) : Decidable command.Plain := inferInstanceAs (Decidable (_ ∧ _))

theorem resets_eq_false {line : String} {command : Command} (h : ofLine? line = some command)
    (hverb : command.verb ≠ .reset) : resets line = false := by
  rw [resets, h]
  simpa using hverb

theorem Plain.of_word {verb : Verb} {word : String} (hverb : verb ∈ Verb.known)
    (hplain : verb.redrawsScreen = false) (hword : Text.IsWord word) : Plain ⟨verb, [word]⟩ := by
  refine ⟨hverb, ?_, hplain⟩
  intro arg harg
  rw [List.mem_singleton.1 harg]
  exact hword

theorem Plain.ofLine?_written {command : Command} (h : command.Plain) :
    ofLine? command.written = some command :=
  Command.ofLine?_written h.1 h.2.1

theorem Plain.resets_eq_false {command : Command} (h : command.Plain) :
    resets command.written = false := by
  refine Command.resets_eq_false h.ofLine?_written ?_
  intro hreset
  have hplain := h.2.2
  rw [hreset] at hplain
  cases hplain

end Command

end ShellQuest
