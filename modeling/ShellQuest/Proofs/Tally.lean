/-
# What the tally counts

Two readings of the counters.  A session reports events, and each counter of events grows by the
number of its own (`countAll_eq`), so that the order in which they are reported is of no account.
For the numbers of sessions the order is everything.  A session that closes when none is open leaves
no trace, so the number of open sessions is not the openings less the closings: it is the largest
surplus of openings that some last stretch of the history has (`isSurplus_active`), and where no
beginning of the history closes more than it opens, that stretch is the whole.  The peak is the
largest number that was ever open (`isPeak_peak`).

The counters have no bound here.  None of those three is larger than the number of openings.
-/
import Mathlib.Data.List.Induction
import ShellQuest.Tally

namespace ShellQuest

/-! ## Events -/

namespace Event

def isCommand : Event → Bool
  | commandTyped _ _ => true
  | _ => false

def isRejection : Event → Bool
  | commandRejected _ => true
  | _ => false

def isLesson : Event → Bool
  | lessonCompleted _ => true
  | _ => false

end Event

namespace Tally

theorem countAll_eq (t : Tally) (events : List Event) :
    t.countAll events = { t with
      commands := t.commands + events.countP Event.isCommand
      commandErrors := t.commandErrors + events.countP Event.isRejection
      lessons := t.lessons + events.countP Event.isLesson
      missions := t.missions + events.count .missionCompleted } := by
  induction events generalizing t with
  | nil => rfl
  | cons event events ih =>
      have hrest := ih (t.count event)
      rw [countAll, List.foldl_cons, ← countAll, hrest]
      cases event with
      | commandTyped | commandRejected | lessonCompleted | missionCompleted | directoryCreated
      | archiveAdopted =>
          simp [count, countCommand, countCommandError, countLesson, countMission, List.countP_cons,
            Event.isCommand, Event.isRejection, Event.isLesson, Nat.add_comm, Nat.add_left_comm]

/-! ## Sessions -/

variable {steps : List Step} {n : Nat}

theorem run_concat (t : Tally) (steps : List Step) (step : Step) :
    t.run (steps ++ [step]) = (t.run steps).step step := by
  rw [run, List.foldl_append]
  rfl

theorem opened_run (steps : List Step) : (zero.run steps).opened = steps.count .openSession := by
  induction steps using List.reverseRecOn with
  | nil => rfl
  | append_singleton steps step ih =>
      rw [run_concat, List.count_append, ← ih]
      cases step with
      | openSession | closeSession | countCommand | countCommandError | countLesson
      | countMission => rfl

/-- The largest number of sessions that were open after one of the steps, or before the first. -/
def IsPeak (steps : List Step) (n : Nat) : Prop :=
  (∀ first, first <+: steps → (zero.run first).active ≤ n) ∧
    ∃ first, first <+: steps ∧ (zero.run first).active = n

/-- The largest surplus of openings over closings in a last stretch of the steps. -/
def IsSurplus (steps : List Step) (n : Nat) : Prop :=
  (∀ last, last <:+ steps → last.count .openSession ≤ n + last.count .closeSession) ∧
    ∃ last, last <:+ steps ∧ last.count .openSession = n + last.count .closeSession

/-- One more step leaves the peak, unless there are more sessions open after it than ever. -/
theorem IsPeak.concat (h : IsPeak steps n) (step : Step) :
    IsPeak (steps ++ [step]) (max n (zero.run (steps ++ [step])).active) := by
  obtain ⟨hle, first, hfirst, hactive⟩ := h
  constructor
  · intro first hfirst
    rcases List.prefix_concat_iff.1 hfirst with rfl | hfirst
    · exact Nat.le_max_right _ _
    · exact Nat.le_trans (hle first hfirst) (Nat.le_max_left _ _)
  · rcases Nat.le_total (zero.run (steps ++ [step])).active n with hn | hn
    · exact ⟨first, hfirst.trans (List.prefix_append _ _), by rw [hactive, Nat.max_eq_left hn]⟩
    · exact ⟨steps ++ [step], List.prefix_rfl, (Nat.max_eq_right hn).symm⟩

theorem peak_step {t : Tally} (h : t.active ≤ t.peak) (step : Step) :
    (t.step step).peak = max t.peak (t.step step).active := by
  cases step with
  | openSession => rfl
  | closeSession =>
      have hless : t.active - 1 ≤ t.peak := Nat.le_trans (Nat.sub_le _ _) h
      exact (Nat.max_eq_left hless).symm
  | countCommand | countCommandError | countLesson | countMission => exact (Nat.max_eq_left h).symm

theorem active_le_peak (steps : List Step) : (zero.run steps).active ≤ (zero.run steps).peak := by
  induction steps using List.reverseRecOn with
  | nil => exact Nat.le_refl 0
  | append_singleton steps step ih =>
      rw [run_concat, peak_step ih]
      exact Nat.le_max_right _ _

theorem isPeak_peak (steps : List Step) : IsPeak steps (zero.run steps).peak := by
  induction steps using List.reverseRecOn with
  | nil =>
      refine ⟨?_, [], List.prefix_rfl, rfl⟩
      intro first hfirst
      rw [List.prefix_nil.1 hfirst]
      exact Nat.le_refl 0
  | append_singleton steps step ih =>
      have hstep := ih.concat step
      rw [run_concat, ← peak_step (active_le_peak steps), ← run_concat] at hstep
      exact hstep

theorem active_step (t : Tally) (step : Step) :
    (t.step step).active =
      t.active + [step].count .openSession - [step].count .closeSession := by
  cases step with
  | openSession | closeSession | countCommand | countCommandError | countLesson | countMission => rfl

/-- With one more step every last stretch is one step longer, and there is the empty one. -/
theorem IsSurplus.concat (h : IsSurplus steps n) (step : Step) :
    IsSurplus (steps ++ [step])
      (n + [step].count .openSession - [step].count .closeSession) := by
  obtain ⟨hle, last, hlast, heq⟩ := h
  constructor
  · intro last hlast
    rcases List.suffix_concat_iff.1 hlast with rfl | ⟨before, rfl, hbefore⟩
    · exact Nat.zero_le _
    · have hrest := hle before hbefore
      rw [List.count_append, List.count_append]
      omega
  · by_cases hlost : n + [step].count .openSession < [step].count .closeSession
    · -- the session that closes was not open, so nothing is left to count
      refine ⟨[], List.nil_suffix, ?_⟩
      rw [List.count_nil, List.count_nil]
      omega
    · refine ⟨last ++ [step], List.suffix_concat_iff.2 (.inr ⟨last, rfl, hlast⟩), ?_⟩
      rw [List.count_append, List.count_append, heq]
      omega

theorem isSurplus_active (steps : List Step) : IsSurplus steps (zero.run steps).active := by
  induction steps using List.reverseRecOn with
  | nil =>
      refine ⟨?_, [], List.suffix_rfl, rfl⟩
      intro last hlast
      rw [List.suffix_nil.1 hlast]
      exact Nat.le_refl 0
  | append_singleton steps step ih =>
      rw [run_concat, active_step]
      exact ih.concat step

/-- No beginning of the steps closes more sessions than it opens. -/
def IsBalanced (steps : List Step) : Prop :=
  ∀ first, first <+: steps → first.count .closeSession ≤ first.count .openSession

/-- The stretch with the largest surplus can be taken to be the whole, if what comes before it has a
surplus as well. -/
theorem IsSurplus.eq_of_isBalanced (h : IsSurplus steps n) (hbalanced : IsBalanced steps) :
    n + steps.count .closeSession = steps.count .openSession := by
  obtain ⟨hle, last, ⟨first, rfl⟩, heq⟩ := h
  have hwhole := hle (first ++ last) List.suffix_rfl
  have hfirst := hbalanced first (List.prefix_append first last)
  rw [List.count_append, List.count_append] at hwhole ⊢
  omega

theorem peak_le_opened (steps : List Step) : (zero.run steps).peak ≤ (zero.run steps).opened := by
  obtain ⟨-, first, hfirst, hpeak⟩ := isPeak_peak steps
  obtain ⟨-, last, hlast, heq⟩ := isSurplus_active first
  calc (zero.run steps).peak
    _ = (zero.run first).active := hpeak.symm
    _ ≤ last.count .openSession := heq ▸ Nat.le_add_right _ _
    _ ≤ first.count .openSession := hlast.sublist.count_le _
    _ ≤ steps.count .openSession := hfirst.sublist.count_le _
    _ = (zero.run steps).opened := (opened_run steps).symm

/-- **The counters of sessions tell their history.**  After any operations on counters that were
zero, whether or not a session was open whenever one was closed, the peak is the largest number of
sessions that were ever open; it is no smaller than the number of those open now, and no larger than
the number of openings, which the third counter is.  The number of open sessions is the largest
surplus of openings over closings in a last stretch of the operations, and the openings less the
closings if no beginning of them closes more than it opens.  An operation that opens or closes a
session reports the number of those open after it, though it tells it from the counters before. -/
theorem peak_after (steps : List Step) :
    let t := zero.run steps
    IsPeak steps t.peak ∧
    t.active ≤ t.peak ∧ t.peak ≤ t.opened ∧
    t.opened = steps.count .openSession ∧
    IsSurplus steps t.active ∧
    (IsBalanced steps → t.active = steps.count .openSession - steps.count .closeSession) ∧
    t.report? .openSession = some (t.step .openSession).active ∧
    t.report? .closeSession = some (t.step .closeSession).active := by
  intro t
  refine ⟨isPeak_peak steps, active_le_peak steps, peak_le_opened steps, opened_run steps,
    isSurplus_active steps, ?_, rfl, rfl⟩
  intro hbalanced
  have hall := (isSurplus_active steps).eq_of_isBalanced hbalanced
  exact Nat.eq_sub_of_add_eq hall

/-- Two sessions are closed that were never opened: the third that is opened is open nonetheless. -/
example : (zero.run [.closeSession, .closeSession, .openSession]).active = 1 := rfl

end Tally

end ShellQuest
