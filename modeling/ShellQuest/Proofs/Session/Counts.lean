/-
# Lines on the tally

No report of what a command did is counted as a command, a refusal or a lesson (`Answers.quiet`).
So each counter of the tally counts something that can be told from the game without its reports: the
lines that are not white space, the commands that are refused, the lessons that are added to the
finished ones, and the returns of the treasure (`countAll_events`).

A reset takes the history and the lessons away but not what was counted of them.  Where there is none,
the counters are those of the game (`counts_of_unbroken`).
-/
import ShellQuest.Proofs.Session.Tallies

namespace ShellQuest

/-! ## Reports that are counted -/

theorem Command.not_isBlank {line : String} {command : Command} (h : ofLine? line = some command) :
    ¬ Text.IsBlank line := by
  rw [← ofLine?_eq_none, h]
  exact nofun

namespace Event

/-- The report is of what a command did, and not of the line or its lesson. -/
def IsQuiet (event : Event) : Prop :=
  event.isCommand = false ∧ event.isRejection = false ∧ event.isLesson = false

variable {events : List Event}

theorem counts_quiet (h : ∀ event ∈ events, event.IsQuiet) :
    events.countP isCommand = 0 ∧ events.countP isRejection = 0 ∧ events.countP isLesson = 0 := by
  simp only [List.countP_eq_zero, Bool.not_eq_true]
  exact ⟨fun event hevent => (h event hevent).1, fun event hevent => (h event hevent).2.1,
    fun event hevent => (h event hevent).2.2⟩

theorem counts_lessons (lessons : List Lesson) :
    (lessons.map lessonCompleted).countP isCommand = 0 ∧
      (lessons.map lessonCompleted).countP isRejection = 0 ∧
      (lessons.map lessonCompleted).countP isLesson = lessons.length := by
  refine ⟨?_, ?_, ?_⟩
  · exact List.countP_eq_zero.2 (by simp [isCommand])
  · exact List.countP_eq_zero.2 (by simp [isRejection])
  · rw [List.countP_eq_length.2 (by simp [isLesson]), List.length_map]

end Event

namespace Session

theorem Answers.quiet {s : Session} {command : Command} {done : Outcome} (h : Answers s command done) :
    ∀ event ∈ done.events, event.IsQuiet := by
  intro event hevent
  cases h with
  | returns | makes | prompts =>
      obtain rfl := List.mem_singleton.1 hevent
      exact ⟨rfl, rfl, rfl⟩
  | extracts =>
      rw [List.mem_singleton.1 hevent, extractionEvent]
      split
      · exact ⟨rfl, rfl, rfl⟩
      · exact ⟨rfl, rfl, rfl⟩
  | _ => exact absurd hevent List.not_mem_nil

end Session

open Session

/-! ## One line -/

namespace Moment

variable {m : Moment}

def fails (m : Moment) : Bool :=
  match Command.ofLine? m.line with
  | none => false
  | some command =>
      !((m.session.noting (Text.trim m.line)).perform (Text.trim m.line) command).isOk

/-- The lessons that the line adds to the finished ones. -/
def learned (m : Moment) : List Lesson := m.session.lessons.added m.turn.session.lessons

theorem learned_mk (s : Session) (line : String) :
    learned ⟨s, line⟩ = s.lessons.added (s.process line).session.lessons := by
  rw [learned, turn]

theorem fails_iff : m.fails = true ↔ ∃ e, m.session.Refuses m.line e := by
  rw [fails]
  constructor
  · intro h
    split at h
    · cases h
    · next command hcommand =>
      cases hperform : (m.session.noting (Text.trim m.line)).perform (Text.trim m.line) command with
      | error e => exact ⟨e, command, hcommand, hperform⟩
      | ok done =>
          rw [hperform] at h
          cases h
  · rintro ⟨e, command, hcommand, hperform⟩
    simp only [hcommand, hperform]
    rfl

theorem counts_turn (m : Moment) :
    m.turn.events.countP Event.isCommand = (if Text.IsBlank m.line then 0 else 1) ∧
      m.turn.events.countP Event.isRejection = (if m.fails then 1 else 0) ∧
      m.turn.events.countP Event.isLesson = m.learned.length := by
  obtain ⟨hcommands, hrejections, hlessons⟩ := Event.counts_lessons m.learned
  rcases line_cases m.session m.line with hblank | ⟨e, h⟩ | ⟨command, done, h⟩
  · have hcommand := Command.ofLine?_eq_none.2 hblank
    have hfails : m.fails = false := by rw [fails, hcommand]
    rw [if_pos hblank, hfails, learned, turn, process_of_none m.session hcommand]
    exact ⟨rfl, rfl, by rw [LessonProgress.added_self]; rfl⟩
  · obtain ⟨command, hcommand, -⟩ := id h
    have hevents : m.turn.events = _ := h.events_eq
    rw [if_neg (Command.not_isBlank hcommand), fails_iff.2 ⟨e, h⟩, hevents, ← turn, ← learned]
    simp [List.countP_cons, hcommands, hrejections, hlessons, Event.isCommand, Event.isRejection,
      Event.isLesson]
  · have hfails : ¬ m.fails = true := by
      rw [fails_iff]
      rintro ⟨e, hrefuses⟩
      exact h.not_refuses hrefuses
    have hevents : m.turn.events = _ := h.events_eq
    have hquiet := Event.counts_quiet (answers_of_execute (perform_ok.1 h.2)).quiet
    rw [if_neg (Command.not_isBlank h.1), if_neg hfails, hevents, ← turn, ← learned]
    simp [List.countP_cons, hcommands, hrejections, hlessons, hquiet.1, hquiet.2.1, hquiet.2.2,
      Event.isCommand, Event.isRejection, Event.isLesson]

theorem countAll_turn (t : Tally) (m : Moment) :
    t.countAll m.turn.events = { t with
      commands := t.commands + if Text.IsBlank m.line then 0 else 1
      commandErrors := t.commandErrors + if m.fails then 1 else 0
      lessons := t.lessons + m.learned.length
      missions := t.missions + if m.returns then 1 else 0 } := by
  obtain ⟨hcommands, hrejections, hlessons⟩ := counts_turn m
  rw [Tally.countAll_eq, count_events_turn, hcommands, hrejections, hlessons]

end Moment

/-! ## Many lines -/

theorem Tally.countAll_append (t : Tally) (first second : List Event) :
    t.countAll (first ++ second) = (t.countAll first).countAll second := by
  rw [countAll, List.foldl_append, ← countAll, ← countAll]

namespace Session

variable {s : Session} {line : String} {lines : List String}

theorem events_singleton (s : Session) (line : String) : s.events [line] = (s.process line).events := by
  rw [events_cons]
  exact List.append_nil _

theorem events_append (s : Session) (first second : List String) :
    s.events (first ++ second) = s.events first ++ (s.after first).events second := by
  induction first generalizing s with
  | nil => rfl
  | cons line first ih =>
      rw [List.cons_append, events_cons, ih, events_cons, List.append_assoc, after_cons]

/-- What lines add to each counter, told from their moments. -/
theorem countAll_events (t : Tally) (s : Session) (lines : List String) :
    t.countAll (s.events lines) = { t with
      commands := t.commands + lines.countP fun line => ¬ Text.IsBlank line
      commandErrors := t.commandErrors + (s.moments lines).countP Moment.fails
      lessons := t.lessons + ((s.moments lines).flatMap Moment.learned).length
      missions := t.missions + (s.moments lines).countP Moment.returns } := by
  induction lines generalizing t s with
  | nil => rfl
  | cons line lines ih =>
      have hturn := Moment.countAll_turn t ⟨s, line⟩
      rw [Moment.turn] at hturn
      rw [events_cons, Tally.countAll_append, hturn, ih]
      simp only [moments, List.countP_cons, List.flatMap_cons, List.length_append,
        decide_eq_true_eq, ite_not, Tally.mk.injEq, true_and]
      omega

/-! ## Without a reset -/

theorem length_history_process (hline : Command.resets line = false) :
    (s.process line).session.history.length =
      s.history.length + if Text.IsBlank line then 0 else 1 := by
  rw [history_process]
  cases hcommand : Command.ofLine? line with
  | none => rw [if_pos (Command.ofLine?_eq_none.1 hcommand), Nat.add_zero]
  | some command =>
      dsimp only
      rw [if_neg (verb_ne_reset hline hcommand), if_neg (Command.not_isBlank hcommand),
        List.length_append, List.length_singleton]

/-- Where no line resets the game, the history and the finished lessons grow by what is counted. -/
theorem counts_of_unbroken (s : Session)
    (hlines : ∀ line ∈ lines, Command.resets line = false) :
    (s.after lines).history.length =
        s.history.length + (lines.countP fun line => ¬ Text.IsBlank line) ∧
      (s.after lines).lessons.inOrder.length =
        s.lessons.inOrder.length + ((s.moments lines).flatMap Moment.learned).length := by
  induction lines generalizing s with
  | nil => exact ⟨rfl, rfl⟩
  | cons line lines ih =>
      obtain ⟨hline, hrest⟩ := List.forall_mem_cons.1 hlines
      obtain ⟨hhistory, hlessons⟩ := ih (s.process line).session hrest
      have hnoted := length_history_process (s := s) hline
      have hkept : ∀ l, s.lessons.isComplete l = true →
          (s.process line).session.lessons.isComplete l = true :=
        fun _ hl => isComplete_process hline hl
      have hlearned := LessonProgress.length_inOrder hkept
      rw [after_cons, hhistory, hlessons, hnoted, hlearned]
      constructor
      · rw [List.countP_cons]
        simp only [decide_eq_true_eq, ite_not]
        omega
      · rw [moments, List.flatMap_cons, List.length_append, Moment.learned_mk, Nat.add_assoc]

-- the lesson that is learned again after the reset is counted again
example :
    (Tally.zero.countAll (start.events ["ls", "reset", "ls"])).lessons = 2 ∧
      (start.after ["ls", "reset", "ls"]).lessons.inOrder.length = 1 := by
  decide +kernel

end Session

end ShellQuest
