/-
# Lines without a verb

A line whose first word is no verb is refused.  If a file here has the name that was typed, the player is
told how to view it; and if not, the answer depends on the word alone, which is taken in lower case as
verbs are (`suggestion_closest`).
-/
import ShellQuest.Proofs.Command.Message
import ShellQuest.Proofs.Session.Footprint

namespace ShellQuest.Session

variable {s : Session} {line typed : String} {args : List String}

theorem refuses_answer (hwords : Text.words line = typed :: args)
    (hverb : Text.lower typed ∉ Suggestion.names) (hitem : s.hasItem typed = false) :
    s.Refuses line (Suggestion.answer (Text.lower typed)) := by
  have hcommand : Command.ofLine? line = some ⟨.unknown (Text.lower typed), args⟩ := by
    rw [Command.ofLine?, hwords]
    show some (Command.mk (Verb.ofWord typed) args) = _
    rw [Verb.ofWord_of_notMem hverb]
  refine ⟨_, hcommand, ?_⟩
  have htoken : (Text.words (Text.trim line)).headD "" = typed := by
    rw [Text.words_trim, hwords]
    rfl
  have hnone : (s.noting (Text.trim line)).hasItem typed = false := hitem
  simp only [perform, htoken, hnone, Bool.false_eq_true, if_false]
  rfl

/-- **Suggestions follow their rule.**  Let the first word of a line be no verb in lower case, and no file
here as it was typed.  If it has one character, or no verb holds at least half of its characters, the line
is refused as unknown.  Else it is refused with a suggestion, which is the one verb that is closest to the
word in length among those that hold half of it, and the earliest of several. -/
theorem suggestion_closest (s : Session) (hwords : Text.words line = typed :: args)
    (hverb : Text.lower typed ∉ Suggestion.names) (hitem : s.hasItem typed = false) :
    let word := Text.lower typed
    (Suggestion.Hopeless word → s.Refuses line .unknown) ∧
    (¬ Suggestion.Hopeless word → ∃ name, s.Refuses line (.unknownWithSuggestion word name) ∧
      ∀ other, Suggestion.Closest word other ↔ other = name) := by
  intro word
  have hrefuses := refuses_answer hwords hverb hitem
  have htyped : Text.IsWord typed := by
    apply Text.isWord_of_mem_words
    rw [hwords]
    exact List.mem_cons_self
  rcases Suggestion.answer_cases hverb (Text.lower_ne_empty htyped.1) with
    ⟨hhopeless, hanswer⟩ | ⟨hhope, name, hclosest, hanswer⟩
  · rw [hanswer] at hrefuses
    exact ⟨fun _ => hrefuses, fun h => absurd hhopeless h⟩
  · rw [hanswer] at hrefuses
    refine ⟨fun h => absurd h hhope, fun _ => ⟨name, hrefuses, fun other => ?_⟩⟩
    constructor
    · intro hother
      exact hclosest.eq hother
    · rintro rfl
      exact hclosest

/-- Two verbs are as close to the word as each other, and the earlier one is suggested. -/
theorem suggestion_closest_of_tie :
    Text.words "LLZ now" = ["LLZ", "now"] ∧ Text.lower "LLZ" ∉ Suggestion.names ∧
      start.hasItem "LLZ" = false ∧ Suggestion.gap "llz" "help" = Suggestion.gap "llz" "ls" ∧
      start.Refuses "LLZ now" (.unknownWithSuggestion "llz" "help") := by
  have hwords : Text.words "LLZ now" = ["LLZ", "now"] := by decide +kernel
  have hlower : Text.lower "LLZ" = "llz" := by decide +kernel
  have hverb : Text.lower "LLZ" ∉ Suggestion.names := by decide +kernel
  have hitem : start.hasItem "LLZ" = false := by decide +kernel
  have hclosest : Suggestion.Closest "llz" "help" :=
    ⟨by decide +kernel, [], Suggestion.names.tail, rfl, List.forall_mem_nil _, by decide +kernel⟩
  have hhope : ¬ Suggestion.Hopeless (Text.lower "LLZ") := by
    rw [hlower]
    rintro (hshort | hnone)
    · exact absurd hshort (by decide)
    · exact hnone "help" hclosest.mem_names hclosest.1
  obtain ⟨name, hrefuses, hname⟩ := (suggestion_closest start hwords hverb hitem).2 hhope
  rw [hlower] at hrefuses hname
  rw [← (hname "help").1 hclosest] at hrefuses
  exact ⟨hwords, hverb, hitem, by decide, hrefuses⟩

end ShellQuest.Session
