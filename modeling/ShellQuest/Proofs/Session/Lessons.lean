/-
# Lessons that are met too late

A lesson is only graded while it is the earliest one that is pending, so what it asks for may have
been done long before.  Once the mission is over every lesson can still be had: each asks where the
player stands and what the world holds, and that can be brought about again, or still holds, even
where its command is now refused.  Nothing is lost in between, as a finished lesson stays finished.
-/
import ShellQuest.Proofs.Session.Plan
import Mathlib.Data.Set.Finite.Basic

namespace ShellQuest

/-! ## The record of lessons -/

theorem Lesson.mem_all (l : Lesson) : l ∈ Lesson.all := by
  cases l <;> decide

namespace LessonProgress

variable {p q : LessonProgress} {l e : Lesson}

theorem isComplete_complete :
    (p.complete l).isComplete e = true ↔ p.isComplete e = true ∨ e = l := by
  by_cases h : p.isComplete l = true
  · have habsorb : e = l → p.isComplete e = true := fun he => he ▸ h
    simpa [complete, h] using habsorb
  · rw [complete, if_neg h]
    simp [isComplete]

/-- The lesson is finished, or it is the one that is graded. -/
def Reached (p : LessonProgress) (l : Lesson) : Prop :=
  p.isComplete l = true ∨ p.current = some l

theorem reached_of_before {before rest : List Lesson} (hall : Lesson.all = before ++ l :: rest)
    (hbefore : ∀ e ∈ before, p.isComplete e = true) : p.Reached l := by
  by_cases h : p.isComplete l = true
  · exact .inl h
  · refine .inr (List.find?_eq_some_iff_append.2 ⟨by simpa using h, before, rest, hall, ?_⟩)
    intro e he
    simpa using hbefore e he

theorem Reached.mono (h : p.Reached l) (hpq : ∀ e, p.isComplete e = true → q.isComplete e = true) :
    q.Reached l := by
  rcases h with h | h
  · exact .inl (hpq l h)
  · obtain ⟨-, before, rest, hall, hbefore⟩ := List.find?_eq_some_iff_append.1 h
    apply reached_of_before hall
    intro e he
    exact hpq e (by simpa using hbefore e he)

end LessonProgress

namespace Session

open World

variable {s t : Session} {command : Command} {line name : String} {l : Lesson} {succeeded : Bool}

/-! ## Grading -/

theorem isComplete_graded (h : s.lessons.isComplete l = true) :
    (s.graded command succeeded).lessons.isComplete l = true := by
  rw [graded, grade]
  split
  · exact h
  · split
    · exact LessonProgress.isComplete_complete.2 (.inl h)
    · exact h

theorem isComplete_graded_of_satisfies (hreached : s.lessons.Reached l)
    (h : s.satisfies l command succeeded = true) :
    (s.graded command succeeded).lessons.isComplete l = true := by
  rcases hreached with hcomplete | hcurrent
  · exact isComplete_graded hcomplete
  · rw [graded, grade, hcurrent]
    simp only [h, if_true]
    exact LessonProgress.isComplete_complete.2 (.inr rfl)

theorem lessons_of_effect (h : Effect s command t) (hverb : command.verb ≠ .reset) :
    t.lessons = s.lessons := by
  cases h with
  | restarts => exact absurd rfl hverb
  | _ => rfl

theorem isComplete_process (hline : Command.resets line = false)
    (h : s.lessons.isComplete l = true) : (s.process line).session.lessons.isComplete l = true := by
  have hleaves := leaves_process s line
  generalize (s.process line).session = next at hleaves ⊢
  cases hleaves with
  | blank => exact h
  | refused => exact isComplete_graded h
  | redraws hcommand _ heffect =>
      rw [lessons_of_effect heffect (verb_ne_reset hline hcommand)]
      exact h
  | takes hcommand _ heffect =>
      apply isComplete_graded
      rw [lessons_of_effect heffect (verb_ne_reset hline hcommand)]
      exact h

theorem Leads.isComplete (h : s.Leads t) (hs : s.lessons.isComplete l = true) :
    t.lessons.isComplete l = true :=
  h.invariant (P := fun s => s.lessons.isComplete l = true)
    (fun _ _ hline hs => isComplete_process hline hs) hs

theorem Leads.reached (h : s.Leads t) (hs : s.lessons.Reached l) : t.lessons.Reached l :=
  hs.mono fun _ he => h.isComplete he

/-! ## The last command of a lesson -/

theorem isComplete_play (hreached : s.lessons.Reached l) (hcommand : command.Plain)
    (h : Effect (s.noting (Text.trim command.written)) command t)
    (hsatisfies : t.satisfies l command true = true) :
    (s.play command).lessons.isComplete l = true := by
  rw [play_of_effect hcommand h]
  refine isComplete_graded_of_satisfies ?_ hsatisfies
  have hverb := verb_ne_reset hcommand.resets_eq_false hcommand.ofLine?_written
  rw [lessons_of_effect h hverb]
  exact hreached

/-- The command changes nothing, if it is carried out at all, and satisfies the lesson. -/
theorem isComplete_play_of_still (hreached : s.lessons.Reached l) (hcommand : command.Plain)
    (hstill : ∀ typed t, Effect (s.noting typed) command t → t = s.noting typed)
    (hsatisfies : ∀ typed succeeded, (s.noting typed).satisfies l command succeeded = true) :
    (s.play command).lessons.isComplete l = true := by
  -- whether the command is refused does not matter: both ways the session that is graded holds
  -- the game of `s`
  have hread := hcommand.ofLine?_written
  have hleaves := leaves_process s command.written
  rw [play]
  generalize (s.process command.written).session = next at hleaves ⊢
  cases hleaves with
  | blank h =>
      rw [hread] at h
      cases h
  | refused h =>
      rw [hread] at h
      cases h
      exact isComplete_graded_of_satisfies hreached (hsatisfies _ _)
  | redraws h hredraws =>
      rw [hread] at h
      cases h
      rw [hcommand.2.2] at hredraws
      cases hredraws
  | takes h _ heffect =>
      rw [hread] at h
      cases h
      rw [hstill _ _ heffect]
      exact isComplete_graded_of_satisfies hreached (hsatisfies _ _)

/-! ## Each lesson

What a plan has to bring about for a lesson that is reached. -/

/-- A plan finishes the lesson. -/
def CanFinish (s : Session) (l : Lesson) : Prop := ∃ t, s.Leads t ∧ t.lessons.isComplete l = true

theorem canFinish_ls (h : s.lessons.Reached .ls) : s.CanFinish .ls := by
  have hcommand : Command.Plain ⟨.ls, []⟩ := by decide
  exact ⟨_, .play s hcommand, isComplete_play h hcommand (.shows trivial) rfl⟩

theorem canFinish_pwd (h : s.lessons.Reached .pwd) : s.CanFinish .pwd := by
  have hcommand : Command.Plain ⟨.pwd, []⟩ := by decide
  exact ⟨_, .play s hcommand, isComplete_play h hcommand (.shows trivial) rfl⟩

theorem canFinish_missionComplete (hs : s.missionComplete = true)
    (h : s.lessons.Reached .missionComplete) : s.CanFinish .missionComplete := by
  have hcommand : Command.Plain ⟨.pwd, []⟩ := by decide
  exact ⟨_, .play s hcommand, isComplete_play h hcommand (.shows trivial) hs⟩

theorem canFinish_missionBrief (h : s.lessons.Reached .missionBrief) :
    s.CanFinish .missionBrief := by
  have hcommand : Command.Plain ⟨.cat, ["mission.txt"]⟩ := by decide
  refine ⟨_, .play s hcommand, isComplete_play_of_still h hcommand ?_ fun _ _ => rfl⟩
  intro typed t heffect
  cases heffect
  rfl

theorem canFinish_cd (hs : s.Tidy) (h : s.lessons.Reached .cd) : s.CanFinish .cd := by
  obtain ⟨t, hleads, hworld, hplace⟩ := walksTo_home s
  have hcharted := (hleads.tidy hs).placed.charted
  have hcommand : Command.Plain ⟨.cd, ["downloads"]⟩ := by decide
  have hnext : t.destination "downloads" = .ok LocationId.downloads := by
    refine (hleads.tidy hs).destination_of_exitNamed (by decide) ?_ ?_
    · rw [hplace]
      exact hcharted.exitNamed_seeded (by decide) (by decide)
    · rw [hplace, hcharted.graph.parent_home]
      simp
  refine ⟨_, hleads.trans (.play t hcommand),
    isComplete_play (hleads.reached h) hcommand (.goes (s := t.noting _) hnext) ?_⟩
  have hname : (t.world.location LocationId.downloads).name = "downloads" :=
    hcharted.seeded_name (by decide)
  simp [satisfies, here, noting, hname]

theorem canFinish_cdParent (hs : s.Tidy) (h : s.lessons.Reached .cdParent) :
    s.CanFinish .cdParent := by
  obtain ⟨t, hleads, hworld, hplace⟩ := walksTo_downloads hs
  have hcharted := (hleads.tidy hs).placed.charted
  have hcommand : Command.Plain ⟨.cd, [".."]⟩ := by decide
  have hnext : t.destination ".." = .ok LocationId.home := by
    have hparent : t.world.parentOf LocationId.downloads = some LocationId.home := by
      rw [hcharted.graph.parentOf_eq hcharted.downloads_lt,
        hcharted.seeded_parent (by decide)]
      rfl
    rw [destination, if_neg (by decide), hplace]
    unfold step
    simp [hparent]
  exact ⟨_, hleads.trans (.play t hcommand),
    isComplete_play (hleads.reached h) hcommand (.goes (s := t.noting _) hnext) rfl⟩

theorem canFinish_findTreasure (hs : s.Tidy) (h : s.lessons.Reached .findTreasure) :
    s.CanFinish .findTreasure := by
  obtain ⟨t, hleads, hworld, hplace⟩ := walksTo_hiddenVault hs
  have hcommand : Command.Plain ⟨.ls, []⟩ := by decide
  refine ⟨_, hleads.trans (.play t hcommand),
    isComplete_play (hleads.reached h) hcommand (.shows trivial) ?_⟩
  simp [satisfies, noting, hplace]

/-- Extracting once more is answered with a warning, or refused, and counts. -/
theorem canFinish_unzipArchive (hs : s.Tidy) (harchive : s.world.archive.isSome = true)
    (h : s.lessons.Reached .unzipArchive) : s.CanFinish .unzipArchive := by
  obtain ⟨t, hleads, hworld, hplace⟩ := walksTo_downloads hs
  have hcommand : Command.Plain ⟨.unzip, ["archive.zip"]⟩ := by decide
  rw [← hworld] at harchive
  refine ⟨_, hleads.trans (.play t hcommand),
    isComplete_play_of_still (hleads.reached h) hcommand ?_ ?_⟩
  · intro typed u heffect
    cases heffect with
    | shows hshown => exact absurd hshown id
    | finds => rfl
    | extracts _ hnone =>
        have hnone : t.world.archive = none := hnone
        rw [hnone] at harchive
        cases harchive
  · intro typed succeeded
    simp [satisfies, noting, hplace, harchive]

/-- Making the relics once more is refused, and counts. -/
theorem canFinish_createRelics (hs : s.Tidy) (hrelics : s.world.relics.isSome = true)
    (h : s.lessons.Reached .createRelics) : s.CanFinish .createRelics := by
  obtain ⟨r, hr⟩ := Option.isSome_iff_exists.1 hrelics
  obtain ⟨a, ha, hexit⟩ := relics_eq_some.1 hr
  obtain ⟨t, hleads, hworld, hplace⟩ := walksTo_archive hs ha
  have hcommand : Command.Plain ⟨.mkdir, [relicsName]⟩ := by decide
  refine ⟨_, hleads.trans (.play t hcommand),
    isComplete_play_of_still (hleads.reached h) hcommand ?_ ?_⟩
  · intro typed u heffect
    cases heffect with
    | shows hshown => exact absurd hshown id
    | makes _ hvacant =>
        have hno : t.world.hasExit t.current relicsName = false := hvacant.1
        rw [hplace, hworld, hasExit_of_exitNamed hexit] at hno
        cases hno
  · intro typed succeeded
    simp [satisfies, noting, hplace, hworld, ha, hrelics, relicsName]

/-! ## A readable file -/

theorem isReservedName_eq_false (hletter : 'a' ∈ name.toList) (hslash : '/' ∉ name.toList) :
    isReservedName name = false := by
  have hne : ∀ other : String, 'a' ∉ other.toList → name ≠ other := by
    rintro other hother rfl
    exact hother hletter
  have hdot := hne "." (by decide)
  have hdots := hne ".." (by decide)
  have htilde := hne "~" (by decide)
  simp [isReservedName, Text.hasChar, hdot, hdots, htilde, hslash]

/-- Of the words `a`, `aa`, `aaa`, … some is not in a list of names. -/
theorem exists_fresh_word (names : List String) :
    ∃ name, Text.IsWord name ∧ isReservedName name = false ∧ name ∉ names := by
  have hinjective :
      Function.Injective fun n : Nat => String.ofList (List.replicate (n + 1) 'a') := by
    intro m n h
    have hlength := congrArg List.length (String.ofList_injective h)
    simpa using hlength
  obtain ⟨name, ⟨n, rfl⟩, hfresh⟩ :=
    (Set.infinite_range_of_injective hinjective).exists_notMem_finset names.toFinset
  refine ⟨_, ⟨?_, ?_⟩, isReservedName_eq_false ?_ ?_, fun hmem => hfresh (List.mem_toFinset.2 hmem)⟩
  · simp
  · intro c hc
    rw [String.toList_ofList] at hc
    rw [List.eq_of_mem_replicate hc]
    decide
  · simp
  · simp

theorem exists_readable (hs : s.Tidy) :
    ∃ t name, s.Leads t ∧ Text.IsWord name ∧ t.Shown ⟨.cat, [name]⟩ := by
  obtain ⟨name, hword, hreserved, hfresh⟩ := exists_fresh_word
    (s.here.items ++ s.here.exits.map fun e => (s.world.location e).name)
  rw [List.mem_append, not_or] at hfresh
  obtain ⟨hitem, hexits⟩ := hfresh
  have hexit : s.hasExit name = false := by
    rw [← Bool.not_eq_true]
    intro hexit
    obtain ⟨e, he, hname⟩ := hasExit_iff.1 hexit
    exact hexits (List.mem_map.2 ⟨e, he, hname⟩)
  have hcommand : Command.Plain ⟨.touch, [name]⟩ :=
    .of_word (by decide) rfl hword
  -- the text goes by name, so a name that is not fresh might have lost it elsewhere
  have hgame := sameGame_play hcommand
    (.adds (s := s.noting _) hreserved ⟨hexit, Location.hasItem_eq_false.2 hitem⟩)
  have hr := addFile_relists s.world s.current name ""
  refine ⟨s.play ⟨.touch, [name]⟩, name, .play s hcommand, hword, ?_, ?_, ?_⟩
  · rw [Session.hasExit, hgame.world, hgame.current]
    exact (hasExit_congr hr.directories s.current name).trans hexit
  · rw [hasItem, here, hgame.world, hgame.current]
    have hitems := hr.items_self hs.placed.current_lt
    exact Location.hasItem_iff.2 (hitems ▸ mem_listItem.2 (.inr rfl))
  · rw [hgame.world]
    simp [content, addFile]

theorem canFinish_cat (hs : s.Tidy) (h : s.lessons.Reached .cat) : s.CanFinish .cat := by
  obtain ⟨t, name, hleads, hword, hshown⟩ := exists_readable hs
  have hcommand : Command.Plain ⟨.cat, [name]⟩ :=
    .of_word (by decide) rfl hword
  refine ⟨_, hleads.trans (.play t hcommand),
    isComplete_play (hleads.reached h) hcommand (.shows (s := t.noting _) hshown) ?_⟩
  obtain ⟨-, hitem, htext⟩ := hshown
  generalize Text.trim (Command.written ⟨.cat, [name]⟩) = typed
  have hthere : (t.noting typed).hasItem name = true := hitem
  have hreadable : ((t.noting typed).world.content name).isSome = true := htext
  simp [satisfies, hthere, hreadable]

theorem canFinish (hs : s.Tidy) (hcomplete : s.missionComplete = true)
    (h : s.lessons.Reached l) : s.CanFinish l := by
  have hrelics := hs.relics_isSome hcomplete
  obtain ⟨r, hr⟩ := Option.isSome_iff_exists.1 hrelics
  obtain ⟨a, ha, -⟩ := relics_eq_some.1 hr
  cases l with
  | ls => exact canFinish_ls h
  | cd => exact canFinish_cd hs h
  | cat => exact canFinish_cat hs h
  | pwd => exact canFinish_pwd h
  | cdParent => exact canFinish_cdParent hs h
  | missionBrief => exact canFinish_missionBrief h
  | findTreasure => exact canFinish_findTreasure hs h
  | unzipArchive => exact canFinish_unzipArchive hs (Option.isSome_of_eq_some ha) h
  | createRelics => exact canFinish_createRelics hs hrelics h
  | missionComplete => exact canFinish_missionComplete hcomplete h

/-! ## All lessons -/

/-- The lessons are finished one after the other, in their order. -/
theorem exists_all_complete (hs : s.Tidy) (hcomplete : s.missionComplete = true)
    (before rest : List Lesson) (hall : Lesson.all = before ++ rest)
    (hbefore : ∀ e ∈ before, s.lessons.isComplete e = true) :
    ∃ t, s.Leads t ∧ ∀ e ∈ Lesson.all, t.lessons.isComplete e = true := by
  -- on the lessons still to come; the session changes with each of them
  induction rest generalizing s before with
  | nil =>
      refine ⟨s, .refl s, ?_⟩
      rw [hall, List.append_nil]
      exact hbefore
  | cons l rest ih =>
      have hreached := LessonProgress.reached_of_before hall hbefore
      obtain ⟨t, hleads, hl⟩ := canFinish hs hcomplete hreached
      have hnext : ∀ e ∈ before ++ [l], t.lessons.isComplete e = true := by
        intro e he
        rcases List.mem_append.1 he with he | he
        · exact hleads.isComplete (hbefore e he)
        · rw [List.mem_singleton.1 he]
          exact hl
      obtain ⟨u, hmore, hu⟩ := ih (hleads.tidy hs) (hleads.missionComplete hcomplete)
        (before ++ [l]) (by rw [hall, List.append_assoc, List.singleton_append]) hnext
      exact ⟨u, hleads.trans hmore, hu⟩

/-- **No lesson is lost by work done ahead of it.**  Once the mission is over there are lines
without a reset that finish every lesson that is still pending, and the mission stays over. -/
theorem lessons_finishable (lines : List String)
    (hcomplete : (start.after lines).missionComplete = true) :
    ∃ more, (∀ line ∈ more, Command.resets line = false) ∧
      (∀ l, ((start.after lines).after more).lessons.isComplete l = true) ∧
      ((start.after lines).after more).missionComplete = true := by
  obtain ⟨t, hleads, hall⟩ :=
    exists_all_complete (Tidy.after lines) hcomplete [] Lesson.all rfl nofun
  have hstill := hleads.missionComplete hcomplete
  obtain ⟨more, hmore, rfl⟩ := hleads
  exact ⟨more, hmore, fun l => hall l l.mem_all, hstill⟩

/-- The mission can be finished in eight lines without a single lesson. -/
theorem lessons_finishable_of_mission_first :
    let s := start.after ["cd downloads", "unzip archive.zip", "cd archive", "mkdir relics", "cd ~",
      "cd projects", "cd hidden_vault", "mv treasure.json archive"]
    s.missionComplete = true ∧ s.lessons = LessonProgress.none ∧
    ∃ more, (∀ line ∈ more, Command.resets line = false) ∧
      (∀ l, (s.after more).lessons.isComplete l = true) ∧
      (s.after more).missionComplete = true := by
  intro s
  have hcomplete : s.missionComplete = true := by decide +kernel
  exact ⟨hcomplete, by decide +kernel, lessons_finishable _ hcomplete⟩

end Session

end ShellQuest
