/-
# Confirmed removals

A file of the mission only goes by a move, by a reset, or by an `rm` that confirms another one.  The
program asks no more than that the last two lines of the history are alike.  What the line before the
confirmation was is a matter of the whole run: the file is still there and no directory bears its name,
so that line was neither refused nor the removal itself, as no directory lists a file twice; and a reset
would have cleared the history.  All that is left is that it was answered with the warning.
-/
import ShellQuest.Proofs.Session.Banner
import ShellQuest.Proofs.Session.Repetition

namespace ShellQuest.Session

open World

variable {s t : Session} {command : Command} {line previous name : String}
  {lines earlier : List String} {i : LocationId} {done : Outcome}

/-! ## What makes a file disappear -/

/-- The file is in the directory at first, and then it is not. -/
def Loses (s t : Session) (i : LocationId) (name : String) : Prop :=
  name ∈ (s.world.location i).items ∧ name ∉ (t.world.location i).items

theorem not_loses_of_relists {f : List String → List String} {j : LocationId}
    (h : t.world.Relists s.world j f)
    (hkeeps : ∀ items : List String, name ∈ items → name ∈ f items) : ¬ Loses s t i name :=
  fun ⟨hitem, hgone⟩ => hgone (h.mem_items hkeeps hitem)

/-- Only a reset, a move of the file and its removal where the player stands make a file disappear. -/
theorem loses_of_effect (hs : s.Placed) (h : Effect s command t) (hlost : Loses s t i name) :
    command.verb = .reset ∨ (∃ target, command = ⟨.mv, [name, target]⟩) ∨
      (command = ⟨.rm, [name]⟩ ∧ i = s.current ∧ (name ∈ protectedFiles → s.repeatsLast = true)) := by
  cases h with
  | shows | goes | renews | warns | finds => exact absurd hlost.1 hlost.2
  | makes =>
      have hgone : name ∉ ((s.world.createDirectory _ _ _).1.location i).items := hlost.2
      rw [items_createDirectory hs.current_lt] at hgone
      exact absurd hlost.1 hgone
  | adds =>
      refine absurd hlost (not_loses_of_relists (addFile_relists _ _ _ _) ?_)
      exact fun _ hitem => mem_listItem.2 (.inl hitem)
  | @drops other world _ hrepeats hworld =>
      have hrelists : world.Relists s.world s.current fun items => items.erase other :=
        removeFile_relists hworld
      obtain rfl : name = other := by
        by_contra hne
        refine absurd hlost (not_loses_of_relists (j := s.current) hrelists ?_)
        exact fun _ hitem => (List.mem_erase_of_ne hne).2 hitem
      have hhere : i = s.current := by
        by_contra hne
        have hgone : name ∉ (world.location i).items := hlost.2
        rw [hrelists.items_of_ne hne] at hgone
        exact hgone hlost.1
      exact .inr (.inr ⟨rfl, hhere, hrepeats⟩)
  | @renames source target world _ _ _ _ _ hworld =>
      obtain rfl : name = source := by
        by_contra hne
        refine absurd hlost (not_loses_of_relists (renameFile_relists hworld) ?_)
        intro items hitem
        -- a file of the new name would be taken out, but only to be listed at the end
        by_cases htarget : name = target
        · exact List.mem_append_right _ (List.mem_singleton.2 htarget)
        · have hkept : name ∈ (items.erase source).filter (· != target) :=
            List.mem_filter.2 ⟨(List.mem_erase_of_ne hne).2 hitem, by simpa using htarget⟩
          exact List.mem_append_left _ hkept
      exact .inr (.inl ⟨target, rfl⟩)
  | @returns target relics world _ _ _ hworld =>
      obtain rfl : name = treasure := by
        by_contra hne
        exact hlost.2 (mem_items_relocateFile hworld hne hlost.1)
      exact .inr (.inl ⟨target, rfl⟩)
  | copies =>
      refine absurd hlost (not_loses_of_relists (copyFile_relists _ _ _ _) ?_)
      exact fun _ hitem => List.mem_append_left _ hitem
  | extracts _ hnone =>
      have hcharted := hs.charted
      have hgone : name ∉ (s.world.extractArchive.1.location i).items := hlost.2
      rw [mem_items_extractArchive hnone hcharted.archiveDirectory_lt,
        items_archiveDirectory hcharted.downloads_lt] at hgone
      exact absurd (.inl hlost.1) hgone
  | restarts => exact .inl rfl

/-! ## The line before -/

/-- Of `lines`, the last that is not white space is `previous`, which comes after `earlier`. -/
structure LastTyped (lines earlier : List String) (previous : String) : Prop where
  split : ∃ blanks, lines = earlier ++ previous :: blanks ∧ ∀ line ∈ blanks, Text.IsBlank line
  typed : ¬ Text.IsBlank previous

theorem after_of_blank (h : ∀ line ∈ lines, Text.IsBlank line) : s.after lines = s :=
  after_invariant (P := fun t => t = s)
    (fun _ line hline ht => (process_of_blank (h line hline)).trans ht) rfl

theorem LastTyped.after_eq (h : LastTyped lines earlier previous) (s : Session) :
    s.after lines = ((s.after earlier).process previous).session := by
  obtain ⟨blanks, rfl, hblanks⟩ := h.split
  rw [after_append, after_cons, after_of_blank hblanks]

theorem blank_or_lastTyped (lines : List String) :
    (∀ line ∈ lines, Text.IsBlank line) ∨ ∃ earlier previous, LastTyped lines earlier previous := by
  induction lines using List.reverseRecOn with
  | nil => exact .inl nofun
  | append_singleton lines line ih =>
      by_cases hline : Text.IsBlank line
      · rcases ih with hblank | ⟨earlier, previous, ⟨blanks, rfl, hblanks⟩, htyped⟩
        · exact .inl (List.forall_mem_append.2 ⟨hblank, List.forall_mem_singleton.2 hline⟩)
        · refine .inr ⟨earlier, previous, ⟨blanks ++ [line], by simp, ?_⟩, htyped⟩
          exact List.forall_mem_append.2 ⟨hblanks, List.forall_mem_singleton.2 hline⟩
      · exact .inr ⟨lines, line, ⟨[], rfl, nofun⟩, hline⟩

theorem LastTyped.history (h : LastTyped lines earlier previous) (s : Session) :
    (s.after lines).history =
      if Command.resets previous then [] else (s.after earlier).history ++ [Text.trim previous] := by
  rw [h.after_eq, history_process, Command.resets]
  cases hcommand : Command.ofLine? previous with
  | none => exact absurd (Command.ofLine?_eq_none.1 hcommand) h.typed
  | some command => simp

/-- A line is taken for a repetition exactly if the last line before it that is not white space is
spelled alike and did not reset the game. -/
theorem repeatsLast_after_iff (lines : List String) (line : String) :
    ((start.after lines).noting (Text.trim line)).repeatsLast = true ↔
      ∃ earlier previous, LastTyped lines earlier previous ∧ Command.resets previous = false ∧
        Command.normalized previous = Command.normalized line := by
  rw [repeatsLast_noting, Command.normalized_trim]
  constructor
  · rintro ⟨latest, hlatest, hsame⟩
    rcases blank_or_lastTyped lines with hblank | ⟨earlier, previous, h⟩
    · rw [after_of_blank hblank] at hlatest
      cases hlatest
    · rw [h.history] at hlatest
      split at hlatest
      · cases hlatest
      · next hreset =>
        rw [List.getLast?_concat] at hlatest
        cases hlatest
        rw [Command.normalized_trim] at hsame
        exact ⟨earlier, previous, h, by simpa using hreset, hsame⟩
  · rintro ⟨earlier, previous, h, hreset, hsame⟩
    refine ⟨Text.trim previous, ?_, by rw [Command.normalized_trim, hsame]⟩
    rw [h.history, hreset, if_neg (by decide), List.getLast?_concat]

/-! ## The warning -/

/-- The line is an `rm` of the file that is answered with the warning, below the banner of a lesson if
it finishes one, and that leaves the world and the player alone. -/
structure Warns (s : Session) (line name : String) : Prop where
  carried : ∃ done, s.CarriesOut line ⟨.rm, [name]⟩ done ∧ done.output = removalWarning name
  answered : ∃ lead, (lead = "" ∨ ∃ l, lead = banner l) ∧
    (s.process line).response.result = lead ++ removalWarning name
  world : (s.process line).session.world = s.world
  current : (s.process line).session.current = s.current

theorem effect_rm_iff :
    (∃ t, Effect s ⟨.rm, [name]⟩ t) ↔ s.hasExit name = false ∧ s.hasItem name = true := by
  constructor
  · rintro ⟨t, h⟩
    cases h with
    | shows h => exact absurd h id
    | warns hexit hitem => exact ⟨hexit, hitem⟩
    | drops hexit _ hworld => exact ⟨hexit, Location.hasItem_iff.2 (mem_of_removeFile hworld)⟩
  · rintro ⟨hexit, hitem⟩
    by_cases hwarns : name ∈ protectedFiles ∧ s.repeatsLast = false
    · exact ⟨s, .warns hexit hitem hwarns.1 hwarns.2⟩
    · obtain ⟨world, hworld⟩ := exists_removeFile (Location.hasItem_iff.1 hitem)
      exact ⟨_, .drops hexit (fun hmem => by simpa [hmem] using hwarns) hworld⟩

theorem effect_rm_congr (h : SameGame t s) :
    (∃ u, Effect t ⟨.rm, [name]⟩ u) ↔ ∃ u, Effect s ⟨.rm, [name]⟩ u := by
  rw [effect_rm_iff, effect_rm_iff, hasExit, hasItem, here, h.world, h.current]
  rfl

theorem CarriesOut.result (h : s.CarriesOut line command done)
    (hverb : command.verb.redrawsScreen = false) :
    (s.process line).response.result = done.session.praise command true ++ done.output := by
  rw [process_of_command s h.1]
  simp only [judge, h.2, hverb, Bool.false_eq_true, if_false, grade_output, response]

theorem warns_of_carriesOut (h : s.CarriesOut line ⟨.rm, [name]⟩ done)
    (houtput : done.output = removalWarning name) : s.Warns line name := by
  have hgame := h.sameGame.trans ((Idle.warned houtput).sameGame h)
  refine ⟨⟨done, h, houtput⟩, ⟨done.session.praise ⟨.rm, [name]⟩ true, ?_, ?_⟩, hgame.world,
    hgame.current⟩
  · rcases grade_cases done.session ⟨.rm, [name]⟩ true with ⟨hpraise, -⟩ | ⟨l, -, hpraise, -⟩
    · exact .inl hpraise
    · exact .inr ⟨l, hpraise⟩
  · rw [h.result rfl, houtput]

/-- If the file is still there after an `rm` of it, and could be removed, then there was a warning. -/
theorem warns_of_kept (hs : s.Tidy) (hline : Command.ofLine? line = some ⟨.rm, [name]⟩)
    (hkept : ∃ t, Effect (s.process line).session ⟨.rm, [name]⟩ t) : s.Warns line name := by
  rcases line_cases s line with hblank | ⟨e, h⟩ | ⟨command, done, h⟩
  · cases (Command.ofLine?_eq_none.2 hblank).symm.trans hline
  · -- a line that is refused leaves the game, so it could be carried out
    have hnoted := (effect_rm_congr (sameGame_noting s (Text.trim line))).2
      ((effect_rm_congr h.sameGame).1 hkept)
    obtain ⟨done, -, hdone⟩ := (exists_carriesOut_iff hline).2 hnoted
    obtain ⟨command, hcommand, herror⟩ := h
    cases hline.symm.trans hcommand
    cases herror.symm.trans hdone
  · cases hline.symm.trans h.1
    cases answers_of_execute (perform_ok.1 h.2) with
    | warns => exact warns_of_carriesOut h rfl
    | drops hworld =>
        have hitem := (effect_rm_iff.1 hkept).2
        rw [hasItem, here, h.sameGame.world, h.sameGame.current] at hitem
        exact absurd (Location.hasItem_iff.1 hitem)
          (not_mem_of_removeFile (hs.items_nodup s.current) hworld)

/-! ## Every line of every game -/

/-- `line`, typed after `lines`, confirms the removal of the file: the last line before it that is not
white space is spelled alike, was typed in the same place, and was answered with the warning. -/
def Confirms (lines : List String) (line name : String) : Prop :=
  ∃ earlier previous, LastTyped lines earlier previous ∧ Command.resets previous = false ∧
    Command.normalized previous = Command.normalized line ∧
    (start.after earlier).current = (start.after lines).current ∧
    (start.after earlier).Warns previous name

theorem confirms_of_repeatsLast (hline : Command.ofLine? line = some ⟨.rm, [name]⟩)
    (hlisted : ∃ t, Effect (start.after lines) ⟨.rm, [name]⟩ t)
    (hrepeats : ((start.after lines).noting (Text.trim line)).repeatsLast = true) :
    Confirms lines line name := by
  obtain ⟨earlier, previous, hlast, hreset, hsame⟩ := (repeatsLast_after_iff lines line).1 hrepeats
  have hprevious := (Command.ofLine?_congr hsame).trans hline
  rw [hlast.after_eq] at hlisted
  have hwarns := warns_of_kept (Tidy.after earlier) hprevious hlisted
  refine ⟨earlier, previous, hlast, hreset, hsame, ?_, hwarns⟩
  rw [hlast.after_eq, hwarns.current]

theorem loses_of_confirms (hline : Command.ofLine? line = some ⟨.rm, [name]⟩)
    (h : Confirms lines line name) :
    Loses (start.after lines) ((start.after lines).process line).session
      (start.after lines).current name := by
  obtain ⟨earlier, previous, hlast, hreset, hsame, -, hwarns⟩ := h
  have hrepeats := (repeatsLast_after_iff lines line).2 ⟨earlier, previous, hlast, hreset, hsame⟩
  have hlisted : ∃ t, Effect (start.after lines) ⟨.rm, [name]⟩ t := by
    obtain ⟨done, hdone, houtput⟩ := hwarns.carried
    have hgame := hdone.sameGame.trans ((Idle.warned houtput).sameGame hdone)
    rw [hlast.after_eq, effect_rm_congr hgame, ← effect_rm_congr (sameGame_noting _ _)]
    exact ⟨_, hdone.effect⟩
  obtain ⟨hexit, hitem⟩ := effect_rm_iff.1 hlisted
  have hmem := Location.hasItem_iff.1 hitem
  obtain ⟨world, hworld⟩ := exists_removeFile hmem
  have hgone := sameGame_of_effect hline rfl (.drops hexit (fun _ => hrepeats) hworld)
  refine ⟨hmem, ?_⟩
  rw [hgone.world]
  exact not_mem_of_removeFile ((Tidy.after lines).items_nodup _) hworld

theorem cases_of_loses (hname : name ∈ protectedFiles)
    (hlost : Loses (start.after lines) ((start.after lines).process line).session i name) :
    Command.resets line = true ∨
      (∃ target, Command.ofLine? line = some ⟨.mv, [name, target]⟩) ∨
      (Command.ofLine? line = some ⟨.rm, [name]⟩ ∧ i = (start.after lines).current ∧
        Confirms lines line name) := by
  rcases process_game (start.after lines) line with h | ⟨command, u, hcommand, heffect, hgame⟩
  · rw [Loses, h.world] at hlost
    exact absurd hlost.1 hlost.2
  · rw [Loses, hgame.world] at hlost
    have hnoted := sameGame_noting (start.after lines) (Text.trim line)
    have hplaced := (Tidy.after lines).placed.of_sameGame hnoted
    rcases loses_of_effect hplaced heffect hlost with hreset | ⟨target, rfl⟩ | ⟨rfl, rfl, hrepeats⟩
    · refine .inl ?_
      rw [Command.resets, hcommand, Option.any_some, hreset]
      rfl
    · exact .inr (.inl ⟨target, hcommand⟩)
    · have hlisted := (effect_rm_congr hnoted).1 ⟨u, heffect⟩
      have hconfirms := confirms_of_repeatsLast hcommand hlisted (hrepeats hname)
      exact .inr (.inr ⟨hcommand, rfl, hconfirms⟩)

/-- **A file of the mission is only removed by a confirmed `rm`.**  In every game, when a line makes one
of these files disappear from a directory, it resets the game, or it is an `mv` of that file, or an `rm`
of it, where the player stands, that confirms another one: the last line before it that is not white
space was spelled alike, did not reset the game, was typed in the same place, and was answered with the
warning while the world stayed as it was.  An `rm` that confirms another one does remove the file. -/
theorem removal_confirmed (lines : List String) (line name : String)
    (hname : name ∈ ["treasure.json", "mission.txt"]) :
    let s := start.after lines
    let t := (s.process line).session
    (∀ i, Loses s t i name →
      Command.resets line = true ∨
      (∃ target, Command.ofLine? line = some ⟨.mv, [name, target]⟩) ∨
      (Command.ofLine? line = some ⟨.rm, [name]⟩ ∧ i = s.current ∧ Confirms lines line name)) ∧
    (Command.ofLine? line = some ⟨.rm, [name]⟩ →
      (Loses s t s.current name ↔ Confirms lines line name)) := by
  intro s t
  refine ⟨fun _ => cases_of_loses hname, ?_⟩
  intro hline
  refine ⟨?_, loses_of_confirms hline⟩
  intro hlost
  rcases cases_of_loses hname hlost with hreset | ⟨target, hmv⟩ | ⟨-, -, hconfirms⟩
  · rw [Command.resets_eq_false hline nofun] at hreset
    cases hreset
  · cases hline.symm.trans hmv
  · exact hconfirms

/-- White space does not keep a removal from being confirmed, neither in a line of its own nor between
the words. -/
theorem removal_confirmed_after_blank :
    let lines := ["rm mission.txt", "  "]
    let s := start.after lines
    "mission.txt" ∈ ["treasure.json", "mission.txt"] ∧
    Loses s (s.process " rm  mission.txt").session s.current "mission.txt" ∧
    Confirms lines " rm  mission.txt" "mission.txt" := by
  intro lines s
  have hname : "mission.txt" ∈ ["treasure.json", "mission.txt"] := by decide
  have hline : Command.ofLine? " rm  mission.txt" = some ⟨.rm, ["mission.txt"]⟩ := by decide +kernel
  have hlost : Loses s (s.process " rm  mission.txt").session s.current "mission.txt" :=
    ⟨by decide +kernel, by decide +kernel⟩
  exact ⟨hname, hlost, ((removal_confirmed lines _ _ hname).2 hline).1 hlost⟩

end ShellQuest.Session
