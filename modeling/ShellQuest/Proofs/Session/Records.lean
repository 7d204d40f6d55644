/-
# What is logged of a session

The record of an event is a fixed text with the player's line or an error put into it, both escaped, and
with keys of directories, which are put in as they are.  So no control character comes into the log by a
line or by an error, but a key is made of a name, and a name may hold one.  The records of a session are
free of control characters exactly if all names of directories are that were made (`events_keyed_iff`):
what is kept from line to line is that no key of the world holds one.
-/
import ShellQuest.Proofs.Log.Escape
import ShellQuest.Proofs.Session.Named
import ShellQuest.Proofs.Session.Tallies

namespace ShellQuest

open Text (All ControlFree Graphic isControl)

/-! ## Records -/

namespace Event

variable {p : Char → Prop}

/-- The keys of directories that an event names. -/
def keys : Event → List String
  | commandTyped key _ => [key]
  | commandRejected _ => []
  | directoryCreated key parentKey => [key, parentKey]
  | archiveAdopted key => [key]
  | lessonCompleted _ => []
  | missionCompleted => []

/-- The keys that the event names are made of characters that satisfy `p`. -/
def Keyed (p : Char → Prop) (e : Event) : Prop := ∀ key ∈ e.keys, All p key

theorem keyed_nil {e : Event} (h : e.keys = []) : e.Keyed p := by
  rw [Keyed, h]
  exact List.forall_mem_nil _

theorem keyed_singleton {e : Event} {key : String} (h : e.keys = [key]) : e.Keyed p ↔ All p key := by
  rw [Keyed, h, List.forall_mem_singleton]

theorem keyed_pair {e : Event} {key parentKey : String} (h : e.keys = [key, parentKey]) :
    e.Keyed p ↔ All p key ∧ All p parentKey := by
  rw [Keyed, h, List.forall_mem_cons, List.forall_mem_singleton]

/-- The keys are all that a record says as it was typed. -/
theorem all_toRecord (hp : Graphic p) (e : Event) : All p e.toRecord.text ↔ e.Keyed p := by
  have hescape : ∀ text, All p (Log.escape text) := fun text => (Log.controlFree_escape text).all hp
  have hfixed : ∀ text, ControlFree text → All p text := fun _ h => h.all hp
  cases e with
  | commandTyped key line =>
      rw [keyed_singleton rfl]
      change All p ("command at " ++ key ++ ": " ++ Log.escape line) ↔ All p key
      simp only [Text.all_append, hescape, hfixed "command at " (by decide),
        hfixed ": " (by decide), true_and, and_true]
  | commandRejected error =>
      refine iff_of_true ?_ (keyed_nil rfl)
      have hcategory : ControlFree error.category.name := by
        cases error.category
        all_goals decide
      exact .append (.append (.append (hfixed _ (by decide)) (hfixed _ hcategory)) (hfixed _ (by decide)))
        (hescape _)
  | directoryCreated key parentKey =>
      rw [keyed_pair rfl]
      change All p ("created directory key=" ++ key ++ " under " ++ parentKey) ↔ _
      simp only [Text.all_append, hfixed "created directory key=" (by decide),
        hfixed " under " (by decide), true_and, and_true]
  | archiveAdopted key =>
      rw [keyed_singleton rfl]
      change All p ("adopting existing directory key=" ++ key ++ " as archive") ↔ _
      simp only [Text.all_append, hfixed "adopting existing directory key=" (by decide),
        hfixed " as archive" (by decide), true_and, and_true]
  | lessonCompleted lesson =>
      refine iff_of_true ?_ (keyed_nil rfl)
      have hid : ControlFree lesson.id := by
        cases lesson
        all_goals decide
      exact .append (hfixed _ (by decide)) (hfixed _ hid)
  | missionCompleted => exact iff_of_true (hfixed _ (by decide)) (keyed_nil rfl)

end Event

namespace Session

open World

variable {p : Char → Prop} {s t : Session} {command : Command} {done : Outcome} {line : String}
  {lines : List String}

/-! ## Events of a line -/

/-- The line makes no directory but with a name that is made of characters that satisfy `p`. -/
def MakesOnly (p : Char → Prop) (s : Session) (line : String) : Prop :=
  ∀ name done, s.CarriesOut line ⟨.mkdir, [name]⟩ done → All p name

/-- All that the events of an outcome say beyond what is escaped or fixed comes of the name of a
directory that was made. -/
theorem Answers.keyed_iff (hp : Graphic p) (hs : s.Placed) (hw : s.world.Keyed p)
    (h : Answers s command done) :
    (∀ e ∈ done.events, e.Keyed p) ↔ ∀ name, command = ⟨.mkdir, [name]⟩ → All p name := by
  have hmakes : ∀ name description output,
      (∀ e ∈ (s.withDirectory name description output).events, e.Keyed p) ↔ All p name := by
    intro name description output
    rw [withDirectory, List.forall_mem_singleton, Event.keyed_pair rfl]
    refine ⟨fun h => all_of_uniqueKey h.1, fun h => ⟨?_, hw s.current hs.current_lt⟩⟩
    exact hw.uniqueKey hp hs.current_lt h
  have hmade : ∀ made, (∀ name, (⟨.mkdir, [made]⟩ : Command) = ⟨.mkdir, [name]⟩ → All p name) ↔
      All p made := by
    intro made
    refine ⟨fun h => h made rfl, fun h name heq => ?_⟩
    cases heq
    exact h
  have hother : ∀ {command : Command}, command.verb ≠ .mkdir →
      ∀ name, command = ⟨.mkdir, [name]⟩ → All p name := by
    rintro _ hverb name rfl
    exact absurd rfl hverb
  cases h with
  | makes | prompts => rw [hmakes, hmade]
  | extracts =>
      refine iff_of_true ?_ (hother (by simp))
      have hdownloads := hs.charted.downloads_lt
      have harchive : Text.ControlFree archiveName := by decide
      rw [List.forall_mem_singleton, extractionEvent]
      split
      · next made hmade =>
        have hlt := hs.charted.graph.lt_size_of_mem_exits hdownloads (exitNamed_eq_some hmade).1
        exact (Event.keyed_singleton rfl).2 (hw made hlt)
      · refine (Event.keyed_pair rfl).2 ⟨?_, hw LocationId.downloads hdownloads⟩
        exact hw.uniqueKey hp hdownloads (harchive.all hp)
  | returns =>
      exact iff_of_true (List.forall_mem_singleton.2 (Event.keyed_nil rfl)) (hother (by simp))
  | _ => exact iff_of_true (List.forall_mem_nil _) (hother (by simp))

theorem events_process_keyed_iff (hp : Graphic p) (hs : s.Placed) (hw : s.world.Keyed p)
    (line : String) : (∀ e ∈ (s.process line).events, e.Keyed p) ↔ s.MakesOnly p line := by
  have htyped : ∀ typed, Event.Keyed p (.commandTyped s.here.key typed) :=
    fun typed => (Event.keyed_singleton rfl).2 (hw s.current hs.current_lt)
  have hlessons : ∀ lessons : List Lesson, ∀ e ∈ lessons.map Event.lessonCompleted, e.Keyed p :=
    fun _ => List.forall_mem_map.2 fun _ _ => Event.keyed_nil rfl
  rcases line_cases s line with hblank | ⟨e, h⟩ | ⟨command, done, h⟩
  · have hnone := Command.ofLine?_eq_none.2 hblank
    rw [process_of_none s hnone]
    refine iff_of_true (List.forall_mem_nil _) ?_
    rintro name done ⟨hcommand, -⟩
    cases hnone.symm.trans hcommand
  · rw [h.events_eq]
    refine iff_of_true ?_ ?_
    · exact List.forall_mem_cons.2 ⟨htyped _, List.forall_mem_cons.2
        ⟨Event.keyed_nil rfl, hlessons _⟩⟩
    · exact fun name done hdone => absurd h hdone.not_refuses
  · have hanswers := (answers_of_execute (perform_ok.1 h.2)).keyed_iff hp
      (hs.of_sameGame (sameGame_noting s _)) hw
    have hmakes : (∀ name, command = ⟨.mkdir, [name]⟩ → All p name) ↔ s.MakesOnly p line := by
      constructor
      · rintro hall name _ ⟨hother, -⟩
        exact hall name (Option.some.inj (h.1.symm.trans hother))
      · rintro hall name rfl
        exact hall name done h
    rw [← hmakes, ← hanswers, h.events_eq, List.forall_mem_cons, and_iff_right (htyped _),
      List.forall_mem_append, and_iff_left (hlessons _)]

theorem keyed_process (hp : Graphic p) (hs : s.Placed) (hw : s.world.Keyed p)
    (h : s.MakesOnly p line) : (s.process line).session.world.Keyed p := by
  rcases process_game s line with hsame | ⟨command, t, hcommand, heffect, hsame⟩
  · rw [hsame.world]
    exact hw
  · rw [hsame.world]
    refine keyed_of_effect hp (hs.of_sameGame (sameGame_noting s _)) hw heffect ?_
    rintro name rfl
    obtain ⟨done, hexecute, -⟩ := execute_ok_iff.2 heffect
    exact h name done ⟨hcommand, perform_ok.2 hexecute⟩

/-! ## Events of a session -/

/-- By induction over the lines: as long as all directories have good names, so have the keys. -/
theorem events_keyed_iff (hp : Graphic p) (hs : s.Placed) (hw : s.world.Keyed p)
    (lines : List String) :
    (∀ e ∈ s.events lines, e.Keyed p) ↔ ∀ m ∈ s.moments lines, m.session.MakesOnly p m.line := by
  induction lines generalizing s with
  | nil => exact iff_of_true (List.forall_mem_nil _) (List.forall_mem_nil _)
  | cons line lines ih =>
      have hline := events_process_keyed_iff hp hs hw line
      rw [events_cons, moments, List.forall_mem_append, List.forall_mem_cons, hline]
      refine and_congr_right fun hmakes => ?_
      exact ih (hs.process line) (keyed_process hp hs hw hmakes)

end Session

end ShellQuest
