/-
# Messages of errors

A message is a fixed text with the texts of its cause put into it: the names, paths and words that the
command spoke of, or advice on its use.  So its characters are of one kind with those of these texts,
if the printed ones are of this kind; and as the fixed texts hold no escape sequences, what the player
reads of an error is a red line and perhaps a hint below it.
-/
import ShellQuest.Proofs.Command.Suggestion
import ShellQuest.Proofs.Command.Written
import ShellQuest.Proofs.Markup.Marked

namespace ShellQuest

open Markup (Coloured Ink)
open Text (All)

variable {p : Char → Prop}

namespace CommandError

def texts : CommandError → List String
  | emptyCommand | parentNotFound | atRoot | homeByName | crossDirectory | relicsMissing
  | unknown => []
  | missingArgument text | tooManyArguments text | invalidName text | directoryNotFound text
  | noSuchDirectory text | fileNotFound text | noContent text | removeMissing text
  | moveMissing text | copyMissing text | zipNotFound text | notADirectory text
  | catDirectory text | removeDirectory text | unzipDirectory text | notAZip text
  | directoryExists text | fileInTheWay text | directoryInTheWay text | notExecutable text
  | listNeedsCd text | listElsewhere text | moveOntoItself text | copyOntoItself text
  | wouldOverwrite text | navigateToSource text | archiveMissing text | wrongArchive text
  | archiveFileInTheWay text => [text]
  | pathSegmentNotFound first second | parentByName first second | treasureNotHere first second
  | unknownWithSuggestion first second => [first, second]

/-- The texts of the cause are made of characters that satisfy `p`. -/
def Spelled (p : Char → Prop) (e : CommandError) : Prop := ∀ text ∈ e.texts, All p text

variable {e : CommandError}

theorem all_message (hp : Ink p) (h : e.Spelled p) : All p e.message := by
  cases e
  all_goals
    unfold Spelled texts at h
    unfold message
    repeat' first
      | exact h _ List.mem_cons_self
      | exact h _ (List.mem_cons_of_mem _ List.mem_cons_self)
      | with_reducible refine All.append ?_ ?_
      | exact hp.fixed rfl rfl

theorem all_hint (hp : Ink p) {hint : String} (h : e.hint = some hint) : All p hint := by
  unfold CommandError.hint at h
  split at h
  · cases h
    exact .append (hp.fixed rfl rfl) (hp.fixed rfl rfl)
  · cases h
    exact hp.fixed rfl rfl
  · cases h

theorem coloured_render (hp : Ink p) (h : e.Spelled p) : Coloured p e.render := by
  have hline : Coloured p (Markup.error s!"Error: {e.message}") :=
    hp.coloured_error (.append (hp.fixed rfl rfl) (all_message hp h))
  unfold render
  dsimp only
  split
  · next hint hhint =>
    exact (hline.append (hp.coloured (hp.fixed rfl rfl))).append (hp.coloured (all_hint hp hhint))
  · exact hline

end CommandError

/-! ## Unknown words -/

namespace Suggestion

variable {word : String}

theorem spelled_answer (hp : Ink p) (h : All p word) : (answer word).Spelled p := by
  have hnames : ∀ name ∈ names, Text.Printed name := by decide +kernel
  have hunknown : CommandError.unknown.Spelled p := List.forall_mem_nil _
  cases hbest : best word with
  | none =>
      rw [answer, hbest]
      exact hunknown
  | some suggestion =>
      have hname := hnames suggestion (mem_of_best hbest)
      rw [answer, hbest]
      dsimp only
      split
      · exact List.forall_mem_cons.2 ⟨h, List.forall_mem_singleton.2 (hname.all hp.plain)⟩
      · exact hunknown

end Suggestion

/-- A word that is no verb is known in lower case. -/
theorem Verb.ofWord_eq_unknown {typed word : String} (h : ofWord typed = unknown word) :
    word = Text.lower typed := by
  rw [ofWord, ofLower] at h
  cases hfound : known.find? fun v => v.name == Text.lower typed with
  | none =>
      rw [hfound] at h
      exact (Verb.unknown.inj h).symm
  | some v =>
      rw [hfound] at h
      have hmem := List.mem_of_find?_eq_some hfound
      have h : v = unknown word := h
      rw [h] at hmem
      simp [known] at hmem

theorem Verb.ofWord_of_notMem {typed : String} (h : Text.lower typed ∉ Suggestion.names) :
    ofWord typed = unknown (Text.lower typed) := by
  rw [ofWord, ofLower]
  cases hfound : known.find? fun v => v.name == Text.lower typed with
  | none => rfl
  | some v =>
      have hname := List.find?_some hfound
      have hmem : v.name ∈ Suggestion.names := List.mem_map_of_mem (List.mem_of_find?_eq_some hfound)
      rw [beq_iff_eq.1 hname] at hmem
      exact absurd hmem h

/-! ## Commands -/

/-- The arguments of the command, and its verb if that is no verb, are made of characters that satisfy
`p`. -/
structure Command.Spelled (p : Char → Prop) (command : Command) : Prop where
  args : ∀ arg ∈ command.args, All p arg
  word : ∀ word, command.verb = .unknown word → All p word

/-- A command is made of the words of its line, the first one in small letters. -/
theorem Command.spelled_of_words {line : String} {command : Command} (hp : Text.Graphic p)
    (hwords : ∀ word ∈ Text.words line, All p word) (h : ofLine? line = some command) :
    command.Spelled p := by
  refine ⟨fun arg harg => hwords arg (mem_words_of_mem_args h harg), ?_⟩
  rw [ofLine?] at h
  split at h
  · cases h
  · next typed args hline =>
    cases h
    intro word hword
    rw [Verb.ofWord_eq_unknown hword]
    refine All.lower (hwords typed ?_) hp
    rw [hline]
    exact List.mem_cons_self

end ShellQuest
