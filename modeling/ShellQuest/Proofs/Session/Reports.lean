/-
# What a line reports

A line that is a command reports first that it was typed.  Then it reports that it was refused, or what
its command did, and last the lesson that it has finished.  This lesson can be told without its report:
it is what the line has added to the finished lessons (`added`), also where the line is not graded, as
a command that draws a fresh screen adds none (`added_of_redraws`).
-/
import ShellQuest.Proofs.Session.Answers
import ShellQuest.Proofs.Session.Ladder

namespace ShellQuest

/-! ## Lessons that were added -/

namespace LessonProgress

variable {p q : LessonProgress} {l : Lesson}

def added (p q : LessonProgress) : List Lesson :=
  Lesson.all.filter fun l => q.isComplete l && !p.isComplete l

theorem added_eq_nil (h : ∀ l, q.isComplete l = true → p.isComplete l = true) : p.added q = [] := by
  rw [added, List.filter_eq_nil_iff]
  intro l _
  simpa using h l

theorem added_self (p : LessonProgress) : p.added p = [] := added_eq_nil fun _ h => h

theorem added_none (p : LessonProgress) : p.added none = [] :=
  added_eq_nil fun _ h => by cases h

theorem added_complete (hcurrent : p.current = some l) : p.added (p.complete l) = [l] := by
  have hpending : p.isComplete l = false := by simpa using List.find?_some hcurrent
  have hnew : ∀ e ∈ Lesson.all,
      ((p.complete l).isComplete e && !p.isComplete e) = (e == l) := by
    intro e _
    rw [Bool.eq_iff_iff, Bool.and_eq_true, isComplete_complete, beq_iff_eq, Bool.not_eq_true']
    constructor
    · rintro ⟨hdone | hsame, hopen⟩
      · cases hdone.symm.trans hopen
      · exact hsame
    · rintro rfl
      exact ⟨.inr rfl, hpending⟩
  rw [added, List.filter_congr hnew, List.filter_beq,
    List.count_eq_one_of_mem Lesson.nodup_all l.mem_all]
  rfl

/-- If none is lost, the finished lessons become more by those that are added. -/
theorem length_inOrder (h : ∀ l, p.isComplete l = true → q.isComplete l = true) :
    q.inOrder.length = p.inOrder.length + (p.added q).length := by
  have hkept : Lesson.all.countP (fun l => q.isComplete l && p.isComplete l) =
      Lesson.all.countP p.isComplete := by
    apply List.countP_congr
    intro l _
    rw [Bool.and_eq_true, and_iff_right_of_imp (h l)]
  rw [inOrder, inOrder, added, ← List.countP_eq_length_filter, ← List.countP_eq_length_filter,
    ← List.countP_eq_length_filter,
    List.countP_eq_countP_filter_add Lesson.all q.isComplete p.isComplete, List.countP_filter,
    List.countP_filter, hkept]

end LessonProgress

namespace Session

variable {s : Session} {command : Command} {done : Outcome} {line : String} {e : CommandError}

/-! ## The reports -/

theorem CarriesOut.not_refuses (h : s.CarriesOut line command done) : ¬ s.Refuses line e := by
  rintro ⟨other, hother, hperform⟩
  cases h.1.symm.trans hother
  cases h.2.symm.trans hperform

theorem grade_events (s : Session) (command : Command) (succeeded : Bool) (output : String) :
    (s.grade command succeeded output).events =
      (s.lessons.added (s.graded command succeeded).lessons).map .lessonCompleted := by
  rw [← grade_session s command succeeded output, grade]
  split
  · exact congrArg (List.map Event.lessonCompleted) s.lessons.added_self.symm
  · next lesson hcurrent =>
    split
    · exact congrArg (List.map Event.lessonCompleted) (LessonProgress.added_complete hcurrent).symm
    · exact congrArg (List.map Event.lessonCompleted) s.lessons.added_self.symm

theorem Refuses.events_eq (h : s.Refuses line e) :
    (s.process line).events = .commandTyped s.here.key (Text.trim line) :: .commandRejected e ::
      (s.lessons.added (s.process line).session.lessons).map .lessonCompleted := by
  obtain ⟨command, hcommand, hperform⟩ := h
  rw [process_of_command s hcommand]
  simp only [judge, hperform, grade_session, grade_events]
  rfl

/-- A command that draws a fresh screen leaves no lesson that was not finished before. -/
theorem added_of_redraws (hcommand : Command.ofLine? line = some command)
    (hredraws : command.verb.redrawsScreen = true) :
    s.lessons.added (s.process line).session.lessons = [] := by
  by_cases hreset : command.verb = .reset
  · rw [eq_start_of_effect (effect_of_redraws s hcommand hredraws) hreset]
    exact LessonProgress.added_none _
  · have hkept := lessons_of_effect (effect_of_redraws s hcommand hredraws) hreset
    rw [hkept]
    exact LessonProgress.added_self _

theorem CarriesOut.events_eq (h : s.CarriesOut line command done) :
    (s.process line).events = .commandTyped s.here.key (Text.trim line) :: (done.events ++
      (s.lessons.added (s.process line).session.lessons).map .lessonCompleted) := by
  obtain ⟨hcommand, hperform⟩ := id h
  by_cases hredraws : command.verb.redrawsScreen = true
  · rw [added_of_redraws hcommand hredraws, process_of_command s hcommand]
    simp only [judge, hperform, hredraws, if_true, List.map_nil, List.append_nil]
  · have hreset : command.verb ≠ .reset := fun hreset => hredraws (by rw [hreset]; rfl)
    have hkept : done.session.lessons = (s.noting (Text.trim line)).lessons :=
      lessons_of_effect h.effect hreset
    rw [process_of_command s hcommand]
    simp only [judge, hperform, hredraws, grade_session, grade_events, hkept]
    rfl

end Session

end ShellQuest
