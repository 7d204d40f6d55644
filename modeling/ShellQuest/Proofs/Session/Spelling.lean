/-
# Spelling of lines

How a line is spelled, which is the case of its verb and the white space around its words, is lost
when it is read as a command, but the history keeps the line as it was typed.  Two commands look back
at it: `rm` asks whether its line repeats the one before, and `cat` how often the treasure was read.
So two games that are played with lines that are read alike differ in their histories at most
(`Alike`), up to a line at which they look back and see different things (`Tells`).  Such a line is
answered differently, and there is no other (`spelling`).
-/
import ShellQuest.Proofs.Session.Answers
import ShellQuest.Proofs.Session.Footprint

namespace ShellQuest

/-! ## Histories put in -/

def Session.withHistory (s : Session) (history : List String) : Session := { s with history }

def Outcome.withHistory (done : Outcome) (history : List String) : Outcome :=
  { done with session := done.session.withHistory history }

/-- The command is one of the two that look back, on a file for which they do. -/
def Command.looksBack : Command → Bool
  | ⟨.rm, [name]⟩ => Session.protectedFiles.contains name
  | ⟨.cat, [file]⟩ => file == Session.treasure
  | _ => false

/-- What can be seen of a line when it is looked back at. -/
def Command.trace (line : String) : String × Bool :=
  (normalized line, Text.startsWith line "cat treasure")

namespace Session

/-- The treasure was read more than twice. -/
def oftenRead (s : Session) : Bool :=
  2 < s.history.countP fun line => Text.startsWith line "cat treasure"

/-- The two sessions are the same but for their histories. -/
def Alike (s t : Session) : Prop := t = s.withHistory t.history

/-- `Tells s t command`: where `command` is noted, it looks back and sees different things in `s` and
in `t`. -/
inductive Tells (s t : Session) : Command → Prop
  | confirms {name : String} : s.hasExit name = false → s.hasItem name = true →
      name ∈ protectedFiles → s.repeatsLast ≠ t.repeatsLast → Tells s t ⟨.rm, [name]⟩
  | nags : s.hasExit treasure = false → s.hasItem treasure = true →
      (s.world.content treasure).isSome = true → s.oftenRead ≠ t.oftenRead →
      Tells s t ⟨.cat, [treasure]⟩

/-- The outcome is changed behind a check. -/
theorem map_check {p : Prop} [Decidable p] (f : Outcome → Outcome) (e : CommandError)
    (rest : Except CommandError Outcome) :
    (if p then .error e else rest).map f = if p then .error e else rest.map f := by
  split
  · rfl
  · rfl

section Histories

variable (s : Session) (history : List String)

@[simp] theorem world_withHistory : (s.withHistory history).world = s.world := rfl

@[simp] theorem current_withHistory : (s.withHistory history).current = s.current := rfl

@[simp] theorem history_withHistory : (s.withHistory history).history = history := rfl

@[simp] theorem lessons_withHistory : (s.withHistory history).lessons = s.lessons := rfl

@[simp] theorem hasItem_withHistory (name : String) :
    (s.withHistory history).hasItem name = s.hasItem name := rfl

@[simp] theorem hasExit_withHistory (name : String) :
    (s.withHistory history).hasExit name = s.hasExit name := rfl

@[simp] theorem response_withHistory (result : String) :
    (s.withHistory history).response result = s.response result := rfl

/-! ## Commands that do not look back -/

theorem cd_withHistory (target : String) :
    (s.withHistory history).cd target = (s.cd target).map fun done => done.withHistory history := by
  simp only [cd, world_withHistory, current_withHistory]
  split
  · split
    · rfl
    · rfl
  · split
    · rfl
    · rfl

theorem mkdir_withHistory (name : String) :
    (s.withHistory history).mkdir name =
      (s.mkdir name).map fun done => done.withHistory history := by
  simp only [mkdir, map_check]
  rw [apply_ite (Except.map _)]
  rfl

theorem touch_withHistory (name : String) :
    (s.withHistory history).touch name =
      (s.touch name).map fun done => done.withHistory history := by
  simp only [touch, map_check]
  rw [apply_ite (Except.map _)]
  rfl

theorem returnTreasure_withHistory :
    (s.withHistory history).returnTreasure =
      s.returnTreasure.map fun done => done.withHistory history := by
  simp only [returnTreasure, map_check, world_withHistory]
  cases s.world.relics with
  | none => rfl
  | some relics => rfl

theorem mv_withHistory (source target : String) :
    (s.withHistory history).mv source target =
      (s.mv source target).map fun done => done.withHistory history := by
  simp only [mv, map_check, returnTreasure_withHistory]
  rw [apply_ite (Except.map _)]
  simp only [map_check]
  rfl

theorem cp_withHistory (source target : String) :
    (s.withHistory history).cp source target =
      (s.cp source target).map fun done => done.withHistory history := by
  simp only [cp, map_check]
  rfl

theorem unzip_withHistory (file : String) :
    (s.withHistory history).unzip file =
      (s.unzip file).map fun done => done.withHistory history := by
  simp only [unzip, map_check]
  rw [apply_ite (Except.map _)]
  simp only [map_check]
  rfl

/-! ## Commands that look back -/

theorem cat_withHistory {file : String}
    (h : ¬ Tells s (s.withHistory history) ⟨.cat, [file]⟩) :
    (s.withHistory history).cat file = (s.cat file).map fun done => done.withHistory history := by
  simp only [cat, map_check]
  refine if_ctx_congr Iff.rfl (fun _ => rfl) fun hexit => ?_
  refine if_ctx_congr Iff.rfl (fun _ => rfl) fun hitem => ?_
  simp only [world_withHistory]
  cases htext : s.world.content file with
  | none => rfl
  | some text =>
      have hread : file = treasure → s.oftenRead = (s.withHistory history).oftenRead := by
        rintro rfl
        by_contra hread
        exact h (.nags (by simpa using hexit) (by simpa using hitem)
          (Option.isSome_of_eq_some htext) hread)
      have hhint : (file = treasure ∧ 2 < (s.withHistory history).history.countP fun line =>
            Text.startsWith line "cat treasure") ↔
          (file = treasure ∧ 2 < s.history.countP fun line =>
            Text.startsWith line "cat treasure") := by
        refine and_congr_right fun hfile => ?_
        exact decide_eq_decide.1 (hread hfile).symm
      simp only [Except.map, Outcome.withHistory, Outcome.shows, hhint]

theorem rm_withHistory {name : String}
    (h : ¬ Tells s (s.withHistory history) ⟨.rm, [name]⟩) :
    (s.withHistory history).rm name = (s.rm name).map fun done => done.withHistory history := by
  simp only [rm, map_check]
  refine if_ctx_congr Iff.rfl (fun _ => rfl) fun hexit => ?_
  simp only [world_withHistory, current_withHistory]
  cases hworld : s.world.removeFile s.current name with
  | none => rfl
  | some world =>
      have hwarns : (protectedFiles.contains name && !(s.withHistory history).repeatsLast) =
          (protectedFiles.contains name && !s.repeatsLast) := by
        cases hprotected : protectedFiles.contains name with
        | false => rfl
        | true =>
            by_contra hne
            have hitem : s.hasItem name = true :=
              Location.hasItem_iff.2 (World.mem_of_removeFile hworld)
            refine h (.confirms (by simpa using hexit) hitem (by simpa using hprotected) ?_)
            intro heq
            rw [heq] at hne
            exact hne rfl
      simp only [hwarns, apply_ite (Except.map _)]
      rfl

/-- A command that does not look back, or sees the same, does the same. -/
theorem execute_withHistory {command : Command} (hreset : command.verb ≠ .reset)
    (h : ¬ Tells s (s.withHistory history) command) :
    (s.withHistory history).execute command =
      (s.execute command).map fun done => done.withHistory history := by
  obtain ⟨verb, args⟩ := command
  cases verb with
  | help | pwd | clear | exit | unknown => rfl
  | reset => exact absurd rfl hreset
  | ls =>
      cases args with
      | nil => rfl
      | cons target args => rfl
  | cd =>
      match args with
      | [target] => exact cd_withHistory s history target
      | [] | _ :: _ :: _ => rfl
  | cat =>
      match args, h with
      | [file], h => exact cat_withHistory s history h
      | [], _ | _ :: _ :: _, _ => rfl
  | mkdir =>
      match args with
      | [name] => exact mkdir_withHistory s history name
      | [] | _ :: _ :: _ => rfl
  | touch =>
      match args with
      | [name] => exact touch_withHistory s history name
      | [] | _ :: _ :: _ => rfl
  | rm =>
      match args, h with
      | [name], h => exact rm_withHistory s history h
      | [], _ | _ :: _ :: _, _ => rfl
  | mv =>
      match args with
      | [source, target] => exact mv_withHistory s history source target
      | [] | [_] | _ :: _ :: _ :: _ => rfl
  | cp =>
      match args with
      | [source, target] => exact cp_withHistory s history source target
      | [] | [_] | _ :: _ :: _ :: _ => rfl
  | unzip =>
      match args with
      | [file] => exact unzip_withHistory s history file
      | [] | _ :: _ :: _ => rfl

theorem grade_withHistory (command : Command) (succeeded : Bool) (output : String) :
    (s.withHistory history).grade command succeeded output =
      (s.grade command succeeded output).withHistory history := by
  simp only [grade, lessons_withHistory]
  cases s.lessons.current with
  | none => rfl
  | some lesson =>
      simp only [apply_ite (Outcome.withHistory · history)]
      rfl

end Histories

variable {s t : Session} {command : Command} {a b : String}

/-! ## Lines that are read alike -/

theorem Alike.refl (s : Session) : Alike s s := rfl

theorem perform_of_known (hknown : command.verb ∈ Verb.known) (typed : String) :
    s.perform typed command = s.execute command := by
  rcases perform_cases s typed command with h | ⟨word, token, hverb, -⟩
  · exact h
  · rw [hverb] at hknown
    simp [Verb.known] at hknown

/-- Where nothing different is seen, a command is answered alike and leaves sessions that are alike. -/
theorem judge_alike (hs : Alike s t) (hknown : command.verb ∈ Verb.known)
    (h : ¬ Tells s t command) :
    (t.judge b command).output = (s.judge a command).output ∧
      Alike (s.judge a command).session (t.judge b command).session := by
  have hs : t = s.withHistory t.history := hs
  rw [judge, judge, perform_of_known hknown, perform_of_known hknown]
  by_cases hreset : command.verb = .reset
  · rw [execute, execute, hreset]
    exact ⟨rfl, rfl⟩
  · rw [hs] at h ⊢
    rw [execute_withHistory s t.history hreset h]
    cases s.execute command with
    | error e =>
        simp only [Except.map, grade_withHistory]
        exact ⟨rfl, rfl⟩
    | ok done =>
        simp only [Except.map, Outcome.withHistory, grade_withHistory]
        split
        · exact ⟨rfl, rfl⟩
        · exact ⟨rfl, rfl⟩

/-! ## What is seen by looking back -/

theorem praise_withHistory (s : Session) (history : List String) (command : Command)
    (succeeded : Bool) :
    (s.withHistory history).praise command succeeded = s.praise command succeeded := by
  rw [praise, grade_withHistory, praise]
  rfl

theorem satisfies_rm (s : Session) (world : World) (name : String) (lesson : Lesson) :
    Session.satisfies { s with world } lesson ⟨.rm, [name]⟩ true =
      s.satisfies lesson ⟨.rm, [name]⟩ true := by
  cases lesson with
  | findTreasure => simp [satisfies]
  | _ => rfl

/-- Removing a file finishes the same lesson whether or not the file goes. -/
theorem praise_rm (s : Session) (world : World) (name : String) :
    Session.praise { s with world } ⟨.rm, [name]⟩ true = s.praise ⟨.rm, [name]⟩ true := by
  simp only [praise, grade, satisfies_rm]
  cases s.lessons.current with
  | none => rfl
  | some lesson =>
      simp only [apply_ite Outcome.output]
      rfl

theorem judge_of_execute {done : Outcome} (hknown : command.verb ∈ Verb.known)
    (hverb : command.verb.redrawsScreen = false) (h : s.execute command = .ok done)
    (typed : String) :
    (s.judge typed command).output = done.session.praise command true ++ done.output := by
  rw [judge, perform_of_known hknown, h]
  simp only [hverb, Bool.false_eq_true, if_false, grade_output]

theorem judge_rm {name : String} (hexit : s.hasExit name = false) (hitem : s.hasItem name = true)
    (hprotected : name ∈ protectedFiles) (typed : String) :
    (s.judge typed ⟨.rm, [name]⟩).output = s.praise ⟨.rm, [name]⟩ true ++
      if s.repeatsLast then s!"Removed: {name}" else removalWarning name := by
  obtain ⟨world, hworld⟩ := World.exists_removeFile (Location.hasItem_iff.1 hitem)
  have hremove : s.world.removeFile s.current name = some world := hworld
  cases hrepeats : s.repeatsLast with
  | true =>
      have hexecute : s.execute ⟨.rm, [name]⟩ =
          .ok (.shows { s with world } s!"Removed: {name}") := by
        simp [execute, withArg, rm, hexit, hremove, hrepeats]
      rw [judge_of_execute (by simp [Verb.known]) rfl hexecute, ← praise_rm s world]
      rfl
  | false =>
      have hexecute : s.execute ⟨.rm, [name]⟩ = .ok (.shows s (removalWarning name)) := by
        simp [execute, withArg, rm, hexit, hremove, hrepeats, hprotected]
      rw [judge_of_execute (by simp [Verb.known]) rfl hexecute]
      rfl

theorem judge_cat_treasure {text : String} (hexit : s.hasExit treasure = false)
    (hitem : s.hasItem treasure = true) (htext : s.world.content treasure = some text)
    (typed : String) :
    (s.judge typed ⟨.cat, [treasure]⟩).output = s.praise ⟨.cat, [treasure]⟩ true ++
      (text ++ if s.oftenRead then readingHint else "") := by
  have hexecute : s.execute ⟨.cat, [treasure]⟩ =
      .ok (.shows s (text ++ if s.oftenRead then readingHint else "")) := by
    simp only [execute, withArg, cat, hexit, hitem, htext, oftenRead, Bool.not_true,
      Bool.false_eq_true, if_false, true_and, decide_eq_true_eq]
    split
    · rw [String.append_assoc]
      rfl
    · rw [String.append_empty]
  rw [judge_of_execute (by simp [Verb.known]) rfl hexecute]
  rfl

theorem ite_ne_ite {x y : String} {p q : Bool} (hxy : x ≠ y) (hpq : p ≠ q) :
    (if p then x else y) ≠ if q then x else y := by
  cases p with
  | true =>
      have hq : q = false := by simpa using hpq.symm
      simpa [hq] using hxy
  | false =>
      have hq : q = true := by simpa using hpq.symm
      simpa [hq] using hxy.symm

theorem Tells.output_ne (hs : Alike s t) (h : Tells s t command) (a b : String) :
    (s.judge a command).output ≠ (t.judge b command).output := by
  have hs : t = s.withHistory t.history := hs
  generalize t.history = history at hs
  subst hs
  intro heq
  cases h with
  | confirms hexit hitem hprotected hne =>
      have hfirst := judge_rm hexit hitem hprotected a
      have hsecond := judge_rm (s := s.withHistory history) hexit hitem hprotected b
      rw [hfirst, hsecond, praise_withHistory, String.append_right_inj] at heq
      exact ite_ne_ite (removed_ne_warning _) hne heq
  | nags hexit hitem hsome hne =>
      obtain ⟨text, htext⟩ := Option.isSome_iff_exists.1 hsome
      have hfirst := judge_cat_treasure hexit hitem htext a
      have hsecond := judge_cat_treasure (s := s.withHistory history) hexit hitem htext b
      rw [hfirst, hsecond, praise_withHistory, String.append_right_inj,
        String.append_right_inj] at heq
      exact ite_ne_ite (by decide) hne heq

/-! ## One line in each of two games -/

theorem Alike.noting (hs : Alike s t) (a b : String) : Alike (s.noting a) (t.noting b) := by
  have hs : t = s.withHistory t.history := hs
  rw [hs]
  rfl

theorem Alike.response (hs : Alike s t) (result : String) : t.response result = s.response result := by
  have hs : t = s.withHistory t.history := hs
  rw [hs, response_withHistory]

/-- No verb on these lines is an unknown word. -/
def Known (lines : List String) : Prop :=
  ∀ line ∈ lines, ∀ command, Command.ofLine? line = some command → command.verb ∈ Verb.known

instance (lines : List String) : Decidable (Known lines) :=
  decidable_of_iff (∀ line ∈ lines, ((Command.ofLine? line).all fun command =>
    decide (command.verb ∈ Verb.known)) = true) (by simp [Known, Option.all_eq_true])

/-- The two lines are the same command, on which the two games look back and see different things. -/
def Differ (s t : Session) (a b : String) : Prop :=
  ∃ command, Command.ofLine? a = some command ∧
    Tells (s.noting (Text.trim a)) (t.noting (Text.trim b)) command

/-- Lines that are read alike are answered alike if and only if nothing different is seen, and then
the two games stay alike. -/
theorem process_alike (hs : Alike s t) (hread : Command.ofLine? a = Command.ofLine? b)
    (hknown : ∀ command, Command.ofLine? a = some command → command.verb ∈ Verb.known) :
    ((s.process a).response = (t.process b).response ↔ ¬ Differ s t a b) ∧
      (¬ Differ s t a b → Alike (s.process a).session (t.process b).session) := by
  cases hcommand : Command.ofLine? a with
  | none =>
      have hno : ¬ Differ s t a b := by
        rintro ⟨command, hsome, -⟩
        rw [hcommand] at hsome
        cases hsome
      rw [process_of_none s hcommand, process_of_none t (hread.symm.trans hcommand), hs.response]
      exact ⟨⟨fun _ => hno, fun _ => rfl⟩, fun _ => hs⟩
  | some command =>
      have hdiffer : Differ s t a b ↔
          Tells (s.noting (Text.trim a)) (t.noting (Text.trim b)) command := by
        rw [Differ, hcommand]
        simp
      have hnoted := hs.noting (Text.trim a) (Text.trim b)
      have halike := judge_alike (a := Text.trim a) (b := Text.trim b) hnoted
        (hknown command hcommand)
      rw [hdiffer, process_of_command s hcommand,
        process_of_command t (hread.symm.trans hcommand)]
      refine ⟨⟨?_, ?_⟩, fun h => (halike h).2⟩
      · intro heq htells
        exact htells.output_ne hnoted _ _ (congrArg Response.result heq)
      · intro h
        obtain ⟨houtput, hjudged⟩ := halike h
        rw [houtput, hjudged.response]

/-! ## Two games -/

/-- On their `i`-th lines the games `s` and `t` differ. -/
def DifferAt (s t : Session) (first second : List String) (i : Nat) : Prop :=
  ∃ a b, first[i]? = some a ∧ second[i]? = some b ∧
    Differ (s.after (first.take i)) (t.after (second.take i)) a b

theorem responses_eq_iff {first second : List String} (hs : Alike s t)
    (hread : first.map Command.ofLine? = second.map Command.ofLine?) (hknown : Known first) :
    s.responses first = t.responses second ↔ ∀ i, ¬ DifferAt s t first second i := by
  induction first generalizing s t second with
  | nil =>
      cases second with
      | nil => simp [responses, DifferAt]
      | cons b second => cases hread
  | cons a first ih =>
      cases second with
      | nil => cases hread
      | cons b second =>
          rw [List.map_cons, List.map_cons, List.cons.injEq] at hread
          obtain ⟨hhead, hrest⟩ := hread
          obtain ⟨hanswer, hnext⟩ := process_alike hs hhead fun command =>
            hknown a List.mem_cons_self command
          have htail : Known first := fun line hline => hknown line (List.mem_cons_of_mem a hline)
          have hzero : DifferAt s t (a :: first) (b :: second) 0 ↔ Differ s t a b := by
            simp [DifferAt]
          have hsucc (i : Nat) : DifferAt s t (a :: first) (b :: second) (i + 1) ↔
              DifferAt (s.process a).session (t.process b).session first second i := by
            simp [DifferAt]
          rw [responses, responses, List.cons.injEq, hanswer]
          constructor
          · rintro ⟨hno, heq⟩ i
            cases i with
            | zero => rwa [hzero]
            | succ i =>
                rw [hsucc]
                exact (ih (hnext hno) hrest htail).1 heq i
          · intro h
            have hno : ¬ Differ s t a b := by
              rw [← hzero]
              exact h 0
            refine ⟨hno, (ih (hnext hno) hrest htail).2 fun i => ?_⟩
            rw [← hsucc]
            exact h (i + 1)

/-! ## Lines that look the same when they are looked back at -/

/-- The histories of the two sessions look the same. -/
def SameTraces (s t : Session) : Prop :=
  s.history.map Command.trace = t.history.map Command.trace

theorem SameTraces.repeatsLast (h : SameTraces s t) : s.repeatsLast = t.repeatsLast := by
  have hrecent : s.history.reverse.map Command.trace = t.history.reverse.map Command.trace := by
    rw [List.map_reverse, List.map_reverse, h]
  rw [Session.repeatsLast, Session.repeatsLast]
  cases hs : s.history.reverse with
  | nil =>
      rw [hs, List.map_nil, eq_comm, List.map_eq_nil_iff] at hrecent
      rw [hrecent]
  | cons last older =>
      rw [hs] at hrecent
      obtain ⟨last', older', ht, hlast, holder⟩ := List.map_eq_cons_iff.1 hrecent.symm
      rw [ht]
      cases older with
      | nil =>
          rw [List.map_nil, List.map_eq_nil_iff] at holder
          rw [holder]
      | cons previous rest =>
          obtain ⟨previous', rest', rfl, hprevious, -⟩ := List.map_eq_cons_iff.1 holder
          -- the spelling of a line is the first half of its trace
          exact congrArg₂ (· == ·) (congrArg Prod.fst hprevious).symm (congrArg Prod.fst hlast).symm

theorem SameTraces.oftenRead (h : SameTraces s t) : s.oftenRead = t.oftenRead := by
  have hreads (u : Session) : (u.history.countP fun line => Text.startsWith line "cat treasure") =
      (u.history.map Command.trace).countP Prod.snd := by
    rw [List.countP_map]
    rfl
  rw [Session.oftenRead, Session.oftenRead, hreads, hreads, h]

theorem SameTraces.not_tells (h : SameTraces s t) : ¬ Tells s t command := by
  intro htells
  cases htells with
  | confirms _ _ _ hne => exact hne h.repeatsLast
  | nags _ _ _ hne => exact hne h.oftenRead

theorem SameTraces.noting (h : SameTraces s t)
    (hline : Command.trace (Text.trim a) = Command.trace (Text.trim b)) :
    SameTraces (s.noting (Text.trim a)) (t.noting (Text.trim b)) := by
  have h : s.history.map Command.trace = t.history.map Command.trace := h
  rw [SameTraces, Session.noting, Session.noting]
  simp only [List.map_append, List.map_cons, List.map_nil, h, hline]

theorem SameTraces.process (h : SameTraces s t) (hread : Command.ofLine? a = Command.ofLine? b)
    (hline : Command.trace (Text.trim a) = Command.trace (Text.trim b)) :
    SameTraces (s.process a).session (t.process b).session := by
  rw [SameTraces, history_process, history_process, ← hread]
  cases Command.ofLine? a with
  | none => exact h
  | some command =>
      dsimp only
      split
      · rfl
      · exact h.noting hline

theorem not_differAt_of_trace {first second : List String} (h : SameTraces s t)
    (hread : first.map Command.ofLine? = second.map Command.ofLine?)
    (hlines : first.map (Command.trace ∘ Text.trim) = second.map (Command.trace ∘ Text.trim))
    (i : Nat) : ¬ DifferAt s t first second i := by
  induction first generalizing s t second i with
  | nil => simp [DifferAt]
  | cons a first ih =>
      cases second with
      | nil => cases hread
      | cons b second =>
          rw [List.map_cons, List.map_cons, List.cons.injEq] at hread hlines
          cases i with
          | zero =>
              rintro ⟨_, _, ⟨⟩, ⟨⟩, command, -, htells⟩
              exact (h.noting hlines.1).not_tells htells
          | succ i =>
              have hnext := h.process hread.1 hlines.1
              have hrest := ih hnext hread.2 hlines.2 i
              simpa [DifferAt] using hrest

theorem Tells.looksBack (h : Tells s t command) : command.looksBack = true := by
  cases h with
  | confirms _ _ hprotected _ => simpa [Command.looksBack] using hprotected
  | nags => rfl

/-- **What the spelling of lines can change.**  Of two lists of lines that are read alike, with no
unknown word among their verbs, the answers are the same if and only if there is no line at which the
two games look back and see different things.  So they are the same if no line looks back, and if the
lines look the same when they are looked back at: the same words with the verb in the same case, and
the same beginning as far as it reads the treasure. -/
theorem spelling (first second : List String)
    (hread : first.map Command.ofLine? = second.map Command.ofLine?) (hknown : Known first) :
    (start.responses first = start.responses second ↔
      ∀ i, ¬ DifferAt start start first second i) ∧
    ((∀ line ∈ first, ∀ command, Command.ofLine? line = some command →
        command.looksBack = false) →
      start.responses first = start.responses second) ∧
    (first.map (Command.trace ∘ Text.trim) = second.map (Command.trace ∘ Text.trim) →
      start.responses first = start.responses second) := by
  have hiff := responses_eq_iff (Alike.refl start) hread hknown
  refine ⟨hiff, ?_, ?_⟩
  · intro hlooks
    rw [hiff]
    rintro i ⟨a, b, ha, -, command, hcommand, htells⟩
    have hno := hlooks a (List.mem_of_getElem? ha) command hcommand
    rw [htells.looksBack] at hno
    cases hno
  · intro hlines
    rw [hiff]
    exact not_differAt_of_trace rfl hread hlines

/-- White space around the words of a removal does not keep it from being confirmed. -/
theorem spelling_of_spaced_rm :
    start.responses ["rm  mission.txt", " rm mission.txt"] =
      start.responses ["rm mission.txt", "rm mission.txt"] :=
  (spelling ["rm  mission.txt", " rm mission.txt"] ["rm mission.txt", "rm mission.txt"]
    (by decide +kernel) (by decide +kernel)).2.2 (by decide +kernel)

/-- A removal is not confirmed in capitals, and reading the treasure does not count with two
spaces. -/
theorem told_apart :
    (let first := ["rm mission.txt", "rm mission.txt"]
      let second := ["rm mission.txt", "RM mission.txt"]
      first.map Command.ofLine? = second.map Command.ofLine? ∧
        start.responses first ≠ start.responses second) ∧
    (let first := ["cd projects", "cd hidden_vault", "cat treasure.json", "cat treasure.json",
        "cat treasure.json"]
      let second := ["cd projects", "cd hidden_vault", "cat  treasure.json", "cat  treasure.json",
        "cat  treasure.json"]
      first.map Command.ofLine? = second.map Command.ofLine? ∧
        start.responses first ≠ start.responses second) := by
  decide +kernel

end Session

end ShellQuest
