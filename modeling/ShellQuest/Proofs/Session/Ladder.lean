/-
# The ladder of lessons

Lessons are finished in their order, at most one a line, so that the finished ones are always the
first ones on the list.  What a finished lesson asked of the world stays true of it: a line that
does not reset the game neither loses the archive nor the relics nor calls the mission off, and a
reset takes the lessons with it.
-/
import ShellQuest.Proofs.Session.Footprint
import ShellQuest.Proofs.Session.Lessons

namespace ShellQuest

/-! ## First lessons -/

theorem Lesson.nodup_all : Lesson.all.Nodup := by decide

namespace LessonProgress

variable {p q : LessonProgress} {rest : List Lesson}

theorem isComplete_iff {l : Lesson} : p.isComplete l = true ↔ l ∈ p.completed := by
  simp [isComplete]

theorem current_eq_head? (h : p.completed ++ rest = Lesson.all) : p.current = rest.head? := by
  have hnodup : (p.completed ++ rest).Nodup := h ▸ Lesson.nodup_all
  have hfinished : p.completed.find? (fun l => !p.isComplete l) = Option.none := by
    rw [List.find?_eq_none]
    intro l hl
    simpa using isComplete_iff.2 hl
  rw [current, ← h, List.find?_append, hfinished, Option.none_or]
  cases rest with
  | nil => rfl
  | cons l rest =>
      have hpending : l ∉ p.completed := fun hl =>
        List.disjoint_of_nodup_append hnodup hl List.mem_cons_self
      exact List.find?_cons_of_pos (by simpa [isComplete] using hpending)

theorem GrowsTo.isPrefix (h : p.GrowsTo q) (hp : p.completed <+: Lesson.all) :
    q.completed <+: Lesson.all := by
  rcases h with rfl | ⟨pending, hcurrent, rfl⟩
  · exact hp
  · obtain ⟨rest, hrest⟩ := hp
    rw [current_eq_head? hrest] at hcurrent
    obtain ⟨later, rfl⟩ := List.head?_eq_some_iff.1 hcurrent
    exact ⟨later, by rw [← hrest, List.append_assoc, List.singleton_append]⟩

theorem GrowsTo.isComplete {l : Lesson} (h : p.GrowsTo q) (hl : p.isComplete l = true) :
    q.isComplete l = true := by
  rcases h with rfl | ⟨pending, -, rfl⟩
  · exact hl
  · exact isComplete_iff.2 (List.mem_append_left _ (isComplete_iff.1 hl))

end LessonProgress

namespace Session

open World

variable {s t u : Session} {command : Command} {line : String} {l : Lesson} {succeeded : Bool}

/-! ## What a line does to the lessons -/

theorem growsTo_process (s : Session) (hline : Command.resets line = false) :
    s.lessons.GrowsTo (s.process line).session.lessons := by
  have hleaves := leaves_process s line
  generalize (s.process line).session = next at hleaves ⊢
  cases hleaves with
  | blank => exact .inl rfl
  | @refused command => exact lessons_graded (s.noting (Text.trim line)) command false
  | redraws hcommand _ heffect =>
      have hkept := lessons_of_effect heffect (verb_ne_reset hline hcommand)
      exact .inl hkept
  | @takes command t hcommand _ heffect =>
      have hkept := lessons_of_effect heffect (verb_ne_reset hline hcommand)
      have hgrows := lessons_graded t command true
      rw [hkept] at hgrows
      exact hgrows

/-- A command that draws a fresh screen is carried out and is not graded. -/
theorem effect_of_redraws (s : Session) (hcommand : Command.ofLine? line = some command)
    (hredraws : command.verb.redrawsScreen = true) :
    Effect (s.noting (Text.trim line)) command (s.process line).session := by
  have hleaves := leaves_process s line
  generalize (s.process line).session = next at hleaves ⊢
  cases hleaves with
  | blank h => cases h.symm.trans hcommand
  | refused h hperform =>
      cases h.symm.trans hcommand
      obtain ⟨verb, args⟩ := command
      cases verb with
      | clear | reset => cases hperform
      | _ => cases hredraws
  | redraws h _ heffect =>
      cases h.symm.trans hcommand
      exact heffect
  | takes h hplain =>
      cases h.symm.trans hcommand
      rw [hplain] at hredraws
      cases hredraws

theorem lessons_of_clear (s : Session) (hcommand : Command.ofLine? line = some command)
    (hclear : command.verb = .clear) : (s.process line).session.lessons = s.lessons := by
  have heffect := effect_of_redraws s hcommand (by rw [hclear]; rfl)
  have hkept := lessons_of_effect heffect (by rw [hclear]; decide)
  exact hkept

theorem eq_start_of_effect (h : Effect s command t) (hreset : command.verb = .reset) :
    t = start := by
  cases h with
  | shows h => exact absurd h (by simp [Shown, hreset])
  | restarts => rfl
  | _ => cases hreset

theorem process_of_resets (s : Session) (hline : Command.resets line = true) :
    (s.process line).session = start := by
  obtain ⟨command, hcommand, hverb⟩ := (Option.any_eq_true _ _).1 hline
  have hreset : command.verb = .reset := by simpa using hverb
  exact eq_start_of_effect (effect_of_redraws s hcommand (by rw [hreset]; rfl)) hreset

/-! ## When a lesson is finished -/

/-- What a lesson asks is asked of the game alone. -/
theorem SameGame.satisfies_eq (h : SameGame t s) (l : Lesson) (command : Command)
    (succeeded : Bool) : t.satisfies l command succeeded = s.satisfies l command succeeded := by
  cases l with
  | _ => simp only [satisfies, hasItem, here, h.world, h.current, h.missionComplete]

/-- The pending lesson is finished by the commands that satisfy it, and by no others. -/
theorem isComplete_graded_iff (hcurrent : s.lessons.current = some l) :
    (s.graded command succeeded).lessons.isComplete l = true ↔
      s.satisfies l command succeeded = true := by
  refine ⟨fun h => ?_, isComplete_graded_of_satisfies (.inr hcurrent)⟩
  have hpending : s.lessons.isComplete l = false := by simpa using List.find?_some hcurrent
  by_contra hno
  rw [graded, grade, hcurrent] at h
  simp only [hno] at h
  cases hpending.symm.trans h

theorem isComplete_process_iff (hcommand : Command.ofLine? line = some command)
    (hplain : command.verb.redrawsScreen = false) (hcurrent : s.lessons.current = some l)
    (hsucceeded : succeeded = true ↔ ∃ done, s.CarriesOut line command done) :
    (s.process line).session.lessons.isComplete l = true ↔
      (s.process line).session.satisfies l command succeeded = true := by
  have hleaves := leaves_process s line
  generalize (s.process line).session = next at hleaves ⊢
  cases hleaves with
  | blank h => cases h.symm.trans hcommand
  | refused h hperform =>
      cases h.symm.trans hcommand
      obtain rfl : succeeded = false := by
        rw [← Bool.not_eq_true, hsucceeded]
        rintro ⟨done, -, hdone⟩
        cases hperform.symm.trans hdone
      rw [(sameGame_graded _ _ _).satisfies_eq]
      exact isComplete_graded_iff hcurrent
  | redraws h hredraws =>
      cases h.symm.trans hcommand
      cases hplain.symm.trans hredraws
  | @takes _ t h _ heffect =>
      cases h.symm.trans hcommand
      have hreset : command.verb ≠ .reset := fun hreset => by
        rw [hreset] at hplain
        cases hplain
      obtain ⟨done, hexecute, rfl⟩ := execute_ok_iff.2 heffect
      obtain rfl : succeeded = true := hsucceeded.2 ⟨done, hcommand, perform_ok.2 hexecute⟩
      rw [(sameGame_graded _ _ _).satisfies_eq]
      apply isComplete_graded_iff
      rw [lessons_of_effect heffect hreset]
      exact hcurrent

/-! ## What finished lessons say -/

/-- What the lesson asked of the world and of the mission is there. -/
def Earned (s : Session) : Lesson → Prop
  | .unzipArchive => s.world.archive.isSome = true
  | .createRelics => s.world.relics.isSome = true
  | .missionComplete => s.missionComplete = true
  | .ls | .cd | .cat | .pwd | .cdParent | .missionBrief | .findTreasure => True

/-- In `t` the mission is at least as far as in `s`. -/
structure Advances (s t : Session) : Prop where
  archive : ∀ a, s.world.archive = some a → t.world.archive = some a
  relics : ∀ r, s.world.relics = some r → t.world.relics = some r
  missionComplete : s.missionComplete = true → t.missionComplete = true

theorem Advances.trans (hst : s.Advances t) (htu : t.Advances u) : s.Advances u where
  archive a ha := htu.archive a (hst.archive a ha)
  relics r hr := htu.relics r (hst.relics r hr)
  missionComplete h := htu.missionComplete (hst.missionComplete h)

theorem archive_of_effect (h : Effect s command t) (hverb : command.verb ≠ .reset) {a : LocationId}
    (ha : s.world.archive = some a) : t.world.archive = some a := by
  cases h with
  | drops _ _ hworld => exact (removeFile_relists hworld).archive.trans ha
  | renames _ _ _ _ _ hworld => exact (renameFile_relists hworld).archive.trans ha
  | returns _ _ _ hworld =>
      obtain ⟨between, hbetween, hlast⟩ := relocateFile_relists hworld
      exact (hlast.archive.trans hbetween.archive).trans ha
  | extracts _ hnone => cases hnone.symm.trans ha
  | restarts => exact absurd rfl hverb
  | _ => exact ha

theorem advances_of_effect (hs : s.Placed) (h : Effect s command t)
    (hverb : command.verb ≠ .reset) : s.Advances t where
  archive _ ha := archive_of_effect h hverb ha
  relics r hr := by
    obtain ⟨a, ha, -⟩ := relics_eq_some.1 hr
    have harchive : t.world.archive = s.world.archive :=
      (archive_of_effect h hverb ha).trans ha.symm
    exact relics_of_extends (effect_extends h hverb).1 hs.charted harchive hr
  missionComplete := missionComplete_of_effect h hverb

theorem SameGame.advances (h : SameGame t s) : s.Advances t where
  archive a ha := by rw [h.world, ha]
  relics r hr := by rw [h.world, hr]
  missionComplete hcomplete := by rw [h.missionComplete, hcomplete]

theorem Earned.mono (hst : s.Advances t) (h : s.Earned l) : t.Earned l := by
  cases l with
  | unzipArchive =>
      obtain ⟨a, ha⟩ := Option.isSome_iff_exists.1 h
      exact Option.isSome_of_eq_some (hst.archive a ha)
  | createRelics =>
      obtain ⟨r, hr⟩ := Option.isSome_iff_exists.1 h
      exact Option.isSome_of_eq_some (hst.relics r hr)
  | missionComplete => exact hst.missionComplete h
  | ls | cd | cat | pwd | cdParent | missionBrief | findTreasure => trivial

theorem earned_of_satisfies (h : s.satisfies l command succeeded = true) : s.Earned l := by
  cases l with
  | unzipArchive =>
      simp only [satisfies, Bool.and_eq_true] at h
      exact h.2
  | createRelics =>
      simp only [satisfies, Bool.and_eq_true] at h
      exact h.2
  | missionComplete => exact h
  | ls | cd | cat | pwd | cdParent | missionBrief | findTreasure => trivial

/-! ## Every line keeps the ladder -/

/-- The finished lessons are the first ones, and each of them was earned. -/
structure Laddered (s : Session) : Prop where
  placed : s.Placed
  isPrefix : s.lessons.completed <+: Lesson.all
  earned : ∀ l, s.lessons.isComplete l = true → s.Earned l

namespace Laddered

theorem start : Laddered start where
  placed := Placed.start
  isPrefix := List.nil_prefix
  earned _ h := by cases h

/-- Whatever the mission has come to, the lessons that were finished stay earned. -/
theorem of_advances (hs : s.Laddered) (ht : t.Placed) (hst : s.Advances t)
    (hlessons : t.lessons = s.lessons) : t.Laddered where
  placed := ht
  isPrefix := by
    rw [hlessons]
    exact hs.isPrefix
  earned l h := by
    rw [hlessons] at h
    exact (hs.earned l h).mono hst

theorem graded (hs : s.Laddered) (command : Command) (succeeded : Bool) :
    (s.graded command succeeded).Laddered where
  placed := hs.placed.of_sameGame (sameGame_graded s command succeeded)
  isPrefix := (lessons_graded s command succeeded).isPrefix hs.isPrefix
  earned l h := by
    have hearned : s.Earned l := by
      rcases lessons_graded s command succeeded with hsame | ⟨pending, hcurrent, hnew⟩
      · rw [hsame] at h
        exact hs.earned l h
      · by_cases hl : l = pending
        · subst hl
          exact earned_of_satisfies ((isComplete_graded_iff hcurrent).1 h)
        · rw [hnew, LessonProgress.isComplete_iff, List.mem_append, List.mem_singleton] at h
          exact hs.earned l (LessonProgress.isComplete_iff.2 (h.resolve_right hl))
    exact hearned.mono (sameGame_graded s command succeeded).advances

theorem noting (hs : s.Laddered) (typed : String) : (s.noting typed).Laddered :=
  hs.of_advances (hs.placed.of_sameGame (sameGame_noting s typed))
    (sameGame_noting s typed).advances rfl

theorem effect (hs : s.Laddered) (h : Effect s command t) : t.Laddered := by
  by_cases hreset : command.verb = .reset
  · rw [eq_start_of_effect h hreset]
    exact start
  · exact hs.of_advances (hs.placed.effect h) (advances_of_effect hs.placed h hreset)
      (lessons_of_effect h hreset)

theorem process (hs : s.Laddered) (line : String) : (s.process line).session.Laddered := by
  have hleaves := leaves_process s line
  generalize (s.process line).session = next at hleaves ⊢
  cases hleaves with
  | blank => exact hs
  | refused => exact (hs.noting _).graded _ _
  | redraws _ _ heffect => exact (hs.noting _).effect heffect
  | takes _ _ heffect => exact ((hs.noting _).effect heffect).graded _ _

theorem after (lines : List String) : (Session.start.after lines).Laddered :=
  after_invariant (fun _ line _ hs => hs.process line) start

end Laddered

/-- **Lessons are a ladder, and every rung that was taken still holds.**  In every game the finished
lessons are the first ones on the list.  A line that does not reset the game keeps them and adds at
most the one that was pending, which it does exactly if its command satisfies it; clearing the
screen and white space add none, and a reset leaves none.  While the lessons of the archive, of the
relics and of the mission are finished, there is an archive, there are relics, and the mission is
over. -/
theorem ladder_after (lines : List String) (line : String) :
    let s := start.after lines
    let t := (s.process line).session
    s.lessons.completed <+: Lesson.all ∧
    (Command.resets line = false → s.lessons.GrowsTo t.lessons ∧
      ∀ l, s.lessons.isComplete l = true → t.lessons.isComplete l = true) ∧
    (∀ command l succeeded, Command.ofLine? line = some command →
      command.verb.redrawsScreen = false → s.lessons.current = some l →
      (succeeded = true ↔ ∃ done, s.CarriesOut line command done) →
      (t.lessons.isComplete l = true ↔ t.satisfies l command succeeded = true)) ∧
    (∀ command, Command.ofLine? line = some command → command.verb = .clear →
      t.lessons = s.lessons) ∧
    (Text.IsBlank line → t.lessons = s.lessons) ∧
    (Command.resets line = true → t.lessons = LessonProgress.none) ∧
    (s.lessons.isComplete .unzipArchive = true → s.world.archive.isSome = true) ∧
    (s.lessons.isComplete .createRelics = true → s.world.relics.isSome = true) ∧
    (s.lessons.isComplete .missionComplete = true → s.missionComplete = true) := by
  intro s t
  have hs : s.Laddered := Laddered.after lines
  refine ⟨hs.isPrefix, ?_, ?_, ?_, ?_, ?_, hs.earned _, hs.earned _, hs.earned _⟩
  · intro hline
    have hgrows := growsTo_process s hline
    exact ⟨hgrows, fun _ hl => hgrows.isComplete hl⟩
  · intro command l succeeded hcommand hplain hcurrent hsucceeded
    exact isComplete_process_iff hcommand hplain hcurrent hsucceeded
  · intro command hcommand hclear
    exact lessons_of_clear s hcommand hclear
  · intro hblank
    exact congrArg Session.lessons (process_of_blank hblank)
  · intro hline
    exact congrArg Session.lessons (process_of_resets s hline)

end Session

end ShellQuest
