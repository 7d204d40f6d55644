/-
# Missions on the tally

The tally counts a mission whenever the treasure is returned, and asks nothing about whether the
mission was over already.  A treasure that is made again in the vault can be returned again, so the
tally counts the missions that were finished and, besides, the returns that came after the end
(`missions_counted`).  Without a reset there is at most one of the first kind, and as many as one
likes of the second.
-/
import ShellQuest.Proofs.Session.Milestones
import ShellQuest.Proofs.Session.Reports
import ShellQuest.Proofs.Tally

namespace ShellQuest

theorem Tally.missions_countAll (t : Tally) (events : List Event) :
    (t.countAll events).missions = t.missions + events.count .missionCompleted := by
  rw [countAll_eq]

/-! ## Moments of a game -/

/-- A line, and the session in which it is played. -/
structure Moment where
  session : Session
  line : String

namespace Moment

def turn (m : Moment) : Turn := m.session.process m.line

/-- The mission is over after the line, and was not before. -/
def finishes (m : Moment) : Bool := !m.session.missionComplete && m.turn.session.missionComplete

/-- The line moves the treasure from the vault to the relics. -/
def returns (m : Moment) : Bool :=
  match Command.ofLine? m.line with
  | some ⟨.mv, [source, target]⟩ =>
      source == Session.treasure && Text.contains target "archive" &&
        m.session.current == LocationId.hiddenVault &&
        (m.session.world.location LocationId.hiddenVault).hasItem Session.treasure &&
        m.session.world.relics.isSome
  | _ => false

/-- The line returns the treasure when the mission is already over. -/
def repeats (m : Moment) : Bool := m.session.missionComplete && m.returns

end Moment

namespace Session

open World

/-- The moments of playing some lines. -/
def moments (s : Session) : List String → List Moment
  | [] => []
  | line :: lines => ⟨s, line⟩ :: (s.process line).session.moments lines

def events (s : Session) (lines : List String) : List Event :=
  (s.moments lines).flatMap fun m => m.turn.events

theorem events_cons (s : Session) (line : String) (lines : List String) :
    s.events (line :: lines) =
      (s.process line).events ++ (s.process line).session.events lines := rfl

variable {s : Session} {command : Command} {done : Outcome} {line : String}

/-- A mission is reported of the return of the treasure and of nothing else. -/
theorem Answers.missionCompleted (h : Answers s command done) :
    (done.events = [.missionCompleted] ∧
      ∃ target, command = ⟨.mv, [treasure, target]⟩ ∧ s.IsReturn treasure target) ∨
    (.missionCompleted ∉ done.events ∧
      ∀ target, command = ⟨.mv, [treasure, target]⟩ → ¬ s.IsReturn treasure target) := by
  cases h with
  | returns hreturn => exact .inl ⟨rfl, _, rfl, hreturn⟩
  | renames hreturn =>
      refine .inr ⟨List.not_mem_nil, ?_⟩
      intro target heq
      cases heq
      exact hreturn
  | makes | prompts =>
      refine .inr ⟨by simp [withDirectory], ?_⟩
      intro target heq
      cases heq
  | extracts =>
      refine .inr ⟨?_, ?_⟩
      · rw [List.mem_singleton, extractionEvent]
        split
        · simp
        · simp
      · intro target heq
        cases heq
  | _ =>
      refine .inr ⟨List.not_mem_nil, ?_⟩
      intro target heq
      cases heq

theorem count_lessonCompleted (lessons : List Lesson) :
    (lessons.map Event.lessonCompleted).count .missionCompleted = 0 :=
  List.count_eq_zero.2 (by simp)

theorem CarriesOut.count_events (h : s.CarriesOut line command done) :
    (s.process line).events.count .missionCompleted = done.events.count .missionCompleted := by
  have hlessons := count_lessonCompleted (s.lessons.added (s.process line).session.lessons)
  rw [h.events_eq, List.count_cons_of_ne (by simp), List.count_append, hlessons, Nat.add_zero]

theorem Refuses.count_events {e : CommandError} (h : s.Refuses line e) :
    (s.process line).events.count .missionCompleted = 0 := by
  rw [h.events_eq, List.count_cons_of_ne (by simp), List.count_cons_of_ne (by simp)]
  exact count_lessonCompleted _

end Session

open Session World

namespace Moment

variable {m : Moment}

theorem returns_iff : m.returns = true ↔ ∃ target, m.session.Returns m.line target := by
  rw [returns]
  constructor
  · intro h
    split at h
    · next source target hcommand =>
      simp only [Bool.and_eq_true, beq_iff_eq, Location.hasItem_iff] at h
      obtain ⟨⟨⟨⟨rfl, hnames⟩, hplace⟩, hitem⟩, hrelics⟩ := h
      exact ⟨target, hcommand, hnames, hplace, hitem, hrelics⟩
    · cases h
  · rintro ⟨target, hcommand, hnames, hplace, hitem, hrelics⟩
    simp [hcommand, hnames, hplace, hitem, hrelics]

theorem count_events_turn (m : Moment) :
    m.turn.events.count .missionCompleted = if m.returns then 1 else 0 := by
  split
  · next hreturns =>
    obtain ⟨target, h⟩ := returns_iff.1 hreturns
    obtain ⟨done, hdone, -⟩ := h.carriesOut
    rw [turn, hdone.count_events]
    rcases (answers_of_execute (perform_ok.1 hdone.2)).missionCompleted with
      ⟨hevents, -⟩ | ⟨-, hno⟩
    · rw [hevents]
      rfl
    · exact absurd ⟨rfl, h.place, h.names⟩ (hno target rfl)
  · next hreturns =>
    rcases line_cases m.session m.line with hblank | ⟨e, h⟩ | ⟨command, done, h⟩
    · rw [turn, process_of_none m.session (Command.ofLine?_eq_none.2 hblank)]
      rfl
    · exact h.count_events
    · rw [turn, h.count_events]
      have hanswers := answers_of_execute (perform_ok.1 h.2)
      rcases hanswers.missionCompleted with ⟨-, target, rfl, hreturn⟩ | ⟨hno, -⟩
      · refine absurd (returns_iff.2 ?_) hreturns
        cases hanswers with
        | renames hno => exact absurd hreturn hno
        | returns _ hrelics hworld =>
            exact ⟨target, h.1, hreturn.2.2, hreturn.2.1, mem_of_relocateFile hworld,
              Option.isSome_of_eq_some hrelics⟩
      · exact List.count_eq_zero.2 hno

theorem finishes_eq (m : Moment) : m.finishes = (!m.session.missionComplete && m.returns) := by
  rw [finishes, Bool.eq_iff_iff, Bool.and_eq_true, Bool.and_eq_true]
  refine and_congr_right ?_
  intro hpending
  rw [Bool.not_eq_true'] at hpending
  rw [returns_iff]
  constructor
  · intro hcomplete
    rw [turn] at hcomplete
    obtain ⟨target, r, h, -⟩ := returns_of_missionComplete hpending hcomplete
    exact ⟨target, h⟩
  · rintro ⟨target, h⟩
    rw [turn]
    exact h.missionComplete

/-- Every return of the treasure finishes the mission or comes after its end. -/
theorem returns_cases (m : Moment) :
    (if m.returns then 1 else 0) =
      (if m.finishes then 1 else 0) + (if m.repeats then 1 else 0) := by
  rw [finishes_eq, repeats]
  cases m.session.missionComplete with
  | false => simp
  | true => simp

theorem count_events (moments : List Moment) :
    (moments.flatMap fun m => m.turn.events).count .missionCompleted =
      moments.countP finishes + moments.countP repeats := by
  induction moments with
  | nil => rfl
  | cons m moments ih =>
      rw [List.flatMap_cons, List.count_append, ih, count_events_turn, returns_cases,
        List.countP_cons, List.countP_cons]
      omega

end Moment

namespace Session

variable {s : Session} {lines : List String}

/-! ## Once in a game -/

theorem countP_finishes_of_complete (hs : s.missionComplete = true)
    (hlines : ∀ line ∈ lines, Command.resets line = false) :
    (s.moments lines).countP Moment.finishes = 0 := by
  induction lines generalizing s with
  | nil => rfl
  | cons line lines ih =>
      obtain ⟨hline, hrest⟩ := List.forall_mem_cons.1 hlines
      have hnext : (s.process line).session.missionComplete = true :=
        Leads.missionComplete ⟨[line], by simpa using hline, rfl⟩ hs
      rw [moments, List.countP_cons, ih hnext hrest]
      simp [Moment.finishes, hs]

/-- Lines without a reset finish the mission at most once. -/
theorem countP_finishes_le_one (hlines : ∀ line ∈ lines, Command.resets line = false) :
    (s.moments lines).countP Moment.finishes ≤ 1 := by
  induction lines generalizing s with
  | nil => exact Nat.zero_le 1
  | cons line lines ih =>
      obtain ⟨hline, hrest⟩ := List.forall_mem_cons.1 hlines
      rw [moments, List.countP_cons]
      split
      · next hfinishes =>
        have hnext : (s.process line).session.missionComplete = true := by
          simp only [Moment.finishes, Moment.turn, Bool.and_eq_true] at hfinishes
          exact hfinishes.2
        rw [countP_finishes_of_complete hnext hrest]
      · exact ih hrest

/-- **What the tally counts as missions.**  Through any lines of a new game, the counter of missions
grows by the lines at which the mission ends and by those that return the treasure when it is over
already.  So it counts missions exactly if there are none of the second kind.  Between two resets
there is at most one line of the first kind. -/
theorem missions_counted (t : Tally) (lines : List String) :
    let moments := start.moments lines
    let counted := (t.countAll (start.events lines)).missions
    counted = t.missions + moments.countP Moment.finishes + moments.countP Moment.repeats ∧
    (counted = t.missions + moments.countP Moment.finishes ↔
      ∀ m ∈ moments, m.repeats = false) ∧
    (∀ first between last, lines = first ++ between ++ last →
      (∀ line ∈ between, Command.resets line = false) →
      ((start.after first).moments between).countP Moment.finishes ≤ 1) := by
  intro moments counted
  have hcounted : counted =
      t.missions + moments.countP Moment.finishes + moments.countP Moment.repeats :=
    calc counted
      _ = t.missions + (start.events lines).count .missionCompleted :=
        t.missions_countAll (start.events lines)
      _ = t.missions + (moments.countP Moment.finishes + moments.countP Moment.repeats) :=
        congrArg (t.missions + ·) (Moment.count_events moments)
      _ = _ := (Nat.add_assoc _ _ _).symm
  refine ⟨hcounted, ?_, ?_⟩
  · rw [hcounted, Nat.add_eq_left, List.countP_eq_zero]
    simp only [Bool.not_eq_true]
  · intro first between last _ hbetween
    exact countP_finishes_le_one hbetween

/-- A treasure that is made again after the end of the mission is counted again. -/
theorem counted_again_after_touch :
    let lines := ["cd downloads", "unzip archive.zip", "cd archive", "mkdir relics",
      "cd /projects/hidden_vault", "mv treasure.json archive", "touch treasure.json",
      "mv treasure.json archive"]
    (Tally.zero.countAll (start.events lines)).missions = 2 ∧
      (start.moments lines).countP Moment.finishes = 1 := by
  decide +kernel

end Session

end ShellQuest
