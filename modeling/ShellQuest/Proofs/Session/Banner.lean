/-
# The banner of a finished lesson

A result starts with the banner of a lesson exactly if the line has finished that lesson.  That the
banner is there is how grading works.  That it cannot be forged takes a look at everything that a command
shows: a fixed text in front starts otherwise, the texts of files are scripted, and where names of the
player's stand in front, as in a listing, no line ends.  As each banner is a line of its own, one is told
from another by what it says.
-/
import ShellQuest.Proofs.Session.Answers
import ShellQuest.Proofs.Session.Ladder
import ShellQuest.Proofs.Session.Named

namespace ShellQuest

/-! ## Lines at the start of a text -/

theorem Text.eq_of_line_prefix {a b s t : List Char} (ha : '\n' ∉ a) (hb : '\n' ∉ b)
    (h : b ++ '\n' :: s <+: a ++ '\n' :: t) : b = a := by
  have hline : ∀ {line : List Char} (rest : List Char), '\n' ∉ line →
      (line ++ '\n' :: rest).takeWhile (· != '\n') = line := by
    intro line rest hline
    rw [List.takeWhile_append_of_pos, List.takeWhile_cons_of_neg (by decide), List.append_nil]
    intro c hc
    simpa using ne_of_mem_of_not_mem hc hline
  obtain ⟨rest, hrest⟩ := h
  rw [List.append_assoc, List.cons_append] at hrest
  rw [← hline (s ++ rest) hb, hrest, hline t ha]

theorem Text.not_mem_of_chars {c : Char} {t : String} {chars : List Char}
    (ht : t = String.ofList chars) (h : chars.contains c = false) : c ∉ t.toList := by
  rw [ht, String.toList_ofList]
  simpa using h

theorem Lesson.description_injective : Function.Injective Lesson.description := by
  have hall : ∀ l ∈ Lesson.all, ∀ e ∈ Lesson.all, l.description = e.description → l = e := by
    decide +kernel
  exact fun l e h => hall l l.mem_all e e.mem_all h

theorem Lesson.description_oneLine (l : Lesson) : '\n' ∉ l.description.toList := by
  cases l
  all_goals exact Text.not_mem_of_chars rfl rfl

/-- What the banner of a lesson says, before the end of its line. -/
def Lesson.headline (l : Lesson) : String := "🎉 Challenge completed: " ++ l.description

theorem Lesson.headline_oneLine (l : Lesson) : '\n' ∉ l.headline.toList := by
  unfold headline
  rw [String.toList_append, List.mem_append, not_or]
  exact ⟨Text.not_mem_of_chars rfl rfl, l.description_oneLine⟩

theorem Lesson.headline_injective : Function.Injective Lesson.headline := by
  intro l e h
  unfold headline at h
  exact description_injective ((String.append_right_inj _).1 h)

namespace Session

open World
open Text (All)

variable {s t : Session} {command : Command} {done : Outcome} {line text : String} {l e : Lesson}
  {succeeded : Bool}

theorem banner_toList (l : Lesson) : (banner l).toList = l.headline.toList ++ ['\n'] := by
  have hbanner : banner l = l.headline ++ "\n" := rfl
  rw [hbanner, String.toList_append]
  rfl

/-- One banner stands at the start of another, with whatever comes after it, only if it is the same. -/
theorem startsWith_banner_append :
    Text.startsWith (banner e ++ text) (banner l) = true ↔ l = e := by
  rw [Text.startsWith, List.isPrefixOf_iff_prefix, String.toList_append]
  constructor
  · intro h
    rw [banner_toList, banner_toList, List.append_assoc, List.singleton_append] at h
    have hsame := Text.eq_of_line_prefix e.headline_oneLine l.headline_oneLine h
    exact Lesson.headline_injective (String.toList_inj.1 hsame)
  · rintro rfl
    exact List.prefix_append _ _

/-! ## Texts that start otherwise -/

/-- The text starts with a character that no banner starts with. -/
def Unfestive (text : String) : Prop := ∃ c, text.toList.head? = some c ∧ c ≠ '🎉'

theorem unfestive_of_chars {c : Char} {chars : List Char} (htext : text = String.ofList (c :: chars))
    (hc : c ≠ '🎉') : Unfestive text :=
  ⟨c, by rw [htext, String.toList_ofList, List.head?_cons], hc⟩

theorem Unfestive.append (h : Unfestive text) (rest : String) : Unfestive (text ++ rest) := by
  obtain ⟨c, hhead, hc⟩ := h
  refine ⟨c, ?_, hc⟩
  rw [String.toList_append, List.head?_append, hhead]
  rfl

theorem Unfestive.intercalate (h : Unfestive text) (sep : String) (rest : List String) :
    Unfestive (sep.intercalate (text :: rest)) := by
  by_cases hrest : rest = []
  · rw [hrest, String.intercalate_singleton]
    exact h
  · rw [String.intercalate_cons_of_ne_nil hrest, String.append_assoc]
    exact h.append _

/-- No banner can stand at the start of the text. -/
def Bannerless (text : String) : Prop := Unfestive text ∨ '\n' ∉ text.toList

theorem Bannerless.startsWith (h : Bannerless text) (l : Lesson) :
    Text.startsWith text (banner l) = false := by
  rw [Text.startsWith, Bool.eq_false_iff, ne_eq, List.isPrefixOf_iff_prefix]
  intro hstarts
  rcases h with ⟨c, hhead, hc⟩ | hline
  · obtain ⟨rest, hrest⟩ := hstarts
    have hstart : "🎉 Challenge completed: ".toList.head? = some '🎉' := by decide +kernel
    rw [← hrest, banner_toList] at hhead
    unfold Lesson.headline at hhead
    rw [String.toList_append, List.append_assoc, List.append_assoc, List.head?_append,
      hstart] at hhead
    exact hc (Option.some.inj hhead).symm
  · refine hline (hstarts.mem ?_)
    rw [banner_toList]
    exact List.mem_append_right _ List.mem_cons_self

theorem unfestive_error (text : String) : Unfestive (Markup.error text) :=
  .append (.append (unfestive_of_chars rfl (by decide)) text) Markup.plain

theorem unfestive_success (text : String) : Unfestive (Markup.success text) :=
  .append (.append (unfestive_of_chars rfl (by decide)) text) Markup.plain

theorem unfestive_render (e : CommandError) : Unfestive e.render := by
  unfold CommandError.render
  dsimp only
  split
  · exact .append (.append (unfestive_error _) _) _
  · exact unfestive_error _

/-! ## What commands show -/

theorem oneLine_listing (hs : s.world.Named (All (· ≠ '\n'))) : All (· ≠ '\n') s.listing := by
  have hspace : All (· ≠ '\n') " " := Text.all_ne_iff.2 (Text.not_mem_of_chars rfl rfl)
  have hopened : All (· ≠ '\n') "\x1b[34m" := Text.all_ne_iff.2 (Text.not_mem_of_chars rfl rfl)
  have hclosed : All (· ≠ '\n') Markup.plain := Text.all_ne_iff.2 (Text.not_mem_of_chars rfl rfl)
  exact listing_of_append nofun All.append hspace (hs.item s.current)
    fun i => (hopened.append (hs.all_directory i)).append hclosed

theorem unfestive_of_mem_scriptedTexts : ∀ text ∈ scriptedTexts, text = "" ∨ Unfestive text := by
  have hmission : Unfestive missionBriefing := .intercalate (unfestive_of_chars rfl (by decide)) _ _
  have hreadme : Unfestive readme := .intercalate (unfestive_of_chars rfl (by decide)) _ _
  have htreasure : Unfestive treasureText := .append (unfestive_of_chars rfl (by decide)) _
  simp only [scriptedTexts, seedContents, archiveFiles, List.cons_append, List.nil_append,
    List.map_cons, List.map_nil, List.forall_mem_cons]
  exact ⟨.inl trivial, .inr (unfestive_of_chars rfl (by decide)), .inr hmission,
    .inr (unfestive_of_chars rfl (by decide)), .inr hreadme, .inr htreasure,
    .inr (unfestive_of_chars rfl (by decide)), .inr (unfestive_of_chars rfl (by decide)),
    List.forall_mem_nil _⟩

/-- Nothing that a command shows starts with a banner. -/
theorem Answers.bannerless (hs : s.world.Named (All (· ≠ '\n'))) (hscripted : s.world.Scripted)
    (h : Answers s command done) : Bannerless done.output := by
  have hfixed : ∀ {c : Char} {chars : List Char} (rest : String), c ≠ '🎉' →
      Bannerless (String.ofList (c :: chars) ++ rest) :=
    fun rest hc => .inl (.append (unfestive_of_chars rfl hc) rest)
  cases h with
  | helps => exact .inl (.intercalate (unfestive_of_chars rfl (by decide)) _ _)
  | lists => exact .inr fun hmem => oneLine_listing hs _ hmem rfl
  | walks | enters | makes | renews | adds | drops => exact hfixed _ (by decide)
  | reads _ htext =>
      rcases unfestive_of_mem_scriptedTexts _ (hscripted.get? htext) with rfl | h
      · have hempty : '\n' ∉ "".toList := by decide
        exact .inr hempty
      · exact .inl h
  | nags _ htext =>
      rcases unfestive_of_mem_scriptedTexts _ (hscripted.get? htext) with rfl | h
      · have hhint : Unfestive readingHint := unfestive_of_chars rfl (by decide)
        rw [String.empty_append]
        exact .inl hhint
      · exact .inl (h.append _)
  | locates =>
      rw [Outcome.shows, pwd]
      split
      · exact .inl (unfestive_of_chars rfl (by decide))
      · exact hfixed _ (by decide)
  | prompts => exact .inl (.append (.append (unfestive_of_chars rfl (by decide)) _) _)
  | warns => exact .inl (unfestive_error _)
  | renames | copies =>
      exact .inl (.append (.append (.append (unfestive_of_chars rfl (by decide)) _) _) _)
  | returns => exact .inl (.append (unfestive_success _) _)
  | clears => exact .inl (unfestive_of_chars rfl (by decide))
  | restarts =>
      have hscreen : Unfestive Markup.clearScreen := unfestive_of_chars rfl (by decide)
      exact .inl (.append (.append (.append (hscreen.append _) _) _) _)
  | finds => exact .inl (.append (unfestive_error _) _)
  | extracts | leaves => exact .inl (unfestive_of_chars rfl (by decide))

/-! ## Grading -/

theorem grade_cases (s : Session) (command : Command) (succeeded : Bool) :
    (s.praise command succeeded = "" ∧ s.graded command succeeded = s) ∨
    ∃ l, s.lessons.current = some l ∧ s.praise command succeeded = banner l ∧
      s.graded command succeeded = { s with lessons := s.lessons.complete l } := by
  rw [praise, graded, grade]
  split
  · exact .inl ⟨rfl, rfl⟩
  · next l hcurrent =>
    split
    · exact .inr ⟨l, hcurrent, String.append_empty, rfl⟩
    · exact .inl ⟨rfl, rfl⟩

/-- The result starts with the banner of a lesson exactly if `next` has finished it and `before` has
not. -/
def Announces (before next : LessonProgress) (result : String) : Prop :=
  ∀ l, Text.startsWith result (banner l) = true ↔
    before.isComplete l = false ∧ next.isComplete l = true

theorem Announces.of_bannerless {before next : LessonProgress} (h : Bannerless text)
    (hkept : ∀ l, next.isComplete l = true → before.isComplete l = true) :
    Announces before next text := by
  intro l
  rw [h.startsWith l]
  refine iff_of_false nofun ?_
  rintro ⟨hpending, hfinished⟩
  rw [hkept l hfinished] at hpending
  cases hpending

theorem announces_grade (s : Session) (command : Command) (succeeded : Bool) (h : Bannerless text) :
    Announces s.lessons (s.graded command succeeded).lessons
      (s.praise command succeeded ++ text) := by
  rcases grade_cases s command succeeded with ⟨hpraise, hgraded⟩ | ⟨e, hcurrent, hpraise, hgraded⟩
  · rw [hpraise, hgraded, String.empty_append]
    exact .of_bannerless h fun _ hl => hl
  · have hpending : s.lessons.isComplete e = false := by simpa using List.find?_some hcurrent
    intro l
    rw [hpraise, hgraded, startsWith_banner_append, LessonProgress.isComplete_complete]
    constructor
    · rintro rfl
      exact ⟨hpending, .inr rfl⟩
    · rintro ⟨hno, hfinished | rfl⟩
      · rw [hfinished] at hno
        cases hno
      · rfl

/-! ## Every line of every game -/

theorem announces_process (hs : s.world.Named (All (· ≠ '\n'))) (hscripted : s.world.Scripted)
    (line : String) :
    Announces s.lessons (s.process line).session.lessons (s.process line).response.result := by
  cases hcommand : Command.ofLine? line with
  | none =>
      rw [process_of_none s hcommand]
      exact .of_bannerless (.inl (unfestive_render _)) fun _ hl => hl
  | some command =>
      rw [process_of_command s hcommand]
      simp only [judge, response]
      have hnoted : (s.noting (Text.trim line)).world.Named (All (· ≠ '\n')) := hs
      cases hperform : (s.noting (Text.trim line)).perform (Text.trim line) command with
      | error e =>
          simp only [grade_output, grade_session]
          exact announces_grade (s.noting (Text.trim line)) command false (.inl (unfestive_render e))
      | ok done =>
          have hexecute := perform_ok.1 hperform
          have heffect := effect_of_execute hexecute
          have houtput : Bannerless done.output :=
            (answers_of_execute hexecute).bannerless hnoted hscripted
          simp only
          split
          · refine .of_bannerless houtput fun l hl => ?_
            by_cases hreset : command.verb = .reset
            · rw [eq_start_of_effect heffect hreset] at hl
              cases hl
            · rwa [lessons_of_effect heffect hreset] at hl
          · next hredraws =>
            have hreset : command.verb ≠ .reset := fun hreset => by
              rw [hreset] at hredraws
              exact hredraws rfl
            have hlessons : done.session.lessons = (s.noting (Text.trim line)).lessons :=
              lessons_of_effect heffect hreset
            simp only [grade_output, grade_session]
            have hannounces := announces_grade done.session command true houtput
            rwa [hlessons] at hannounces

theorem named_oneLine_after (lines : List String) :
    (start.after lines).world.Named (All (· ≠ '\n')) := by
  refine named_after ?_ fun _ _ _ hword _ => oneLine_of_mem_words hword
  exact fun name hname =>
    (controlFree_of_mem_scriptedNames name hname).all Text.graphic_ne_lineFeed

/-- **The banner of a lesson cannot be forged.**  Whatever was played, the result of the next line
starts with the line that announces a lesson if and only if that line has finished it, whatever files
and directories the player has made and named. -/
theorem banner_iff_finished (lines : List String) (line : String) (l : Lesson) :
    let s := start.after lines
    let turn := s.process line
    Text.startsWith turn.response.result ("🎉 Challenge completed: " ++ l.description ++ "\n") = true ↔
      s.lessons.isComplete l = false ∧ turn.session.lessons.isComplete l = true :=
  announces_process (named_oneLine_after lines) (scripted_after lines) line l

end Session

end ShellQuest
