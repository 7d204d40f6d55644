/-
# What the player is shown

Every answer is put together from fixed texts, names in the world, texts of files and words of the line.
If none of these holds an escape character, the only escape sequences in an answer are those that the
fixed texts bring: the colours, and the wiping of the screen where the command is `clear` or `reset`.
The characters of names and words may otherwise be of any kind that takes in the printed ones; in a game
of lines that may be played, they are themselves printed.
-/
import ShellQuest.Proofs.Command.Message
import ShellQuest.Proofs.Session.Answers
import ShellQuest.Proofs.Session.ControlFree

namespace ShellQuest.Session

open Text (All Printed)
open Markup (Coloured Ink Marked)

variable {p : Char → Prop} {s : Session} {command : Command} {done : Outcome} {line : String}
  {α : Type}

/-! ## Refusals -/

/-- If it is an error, its texts are made of characters that satisfy `p`. -/
def PlainErrors (p : Char → Prop) (r : Except CommandError α) : Prop :=
  ∀ e, r = .error e → e.Spelled p

theorem plainErrors_ok {a : α} : PlainErrors p (.ok a) := nofun

theorem plainErrors_error {e : CommandError} (h : e.Spelled p) :
    PlainErrors p (.error e : Except CommandError α) := by
  intro _ heq
  cases heq
  exact h

theorem plainErrors_check {q : Prop} [Decidable q] {e : CommandError} {rest : Except CommandError α}
    (he : e.Spelled p) (hrest : PlainErrors p rest) :
    PlainErrors p (if q then .error e else rest) := by
  split
  · exact plainErrors_error he
  · exact hrest

theorem spelled_nil {e : CommandError} (h : e.texts = []) : e.Spelled p := by
  rw [CommandError.Spelled, h]
  exact nofun

theorem spelled_singleton {e : CommandError} {text : String} (h : e.texts = [text])
    (htext : All p text) : e.Spelled p := by
  rw [CommandError.Spelled, h]
  exact List.forall_mem_singleton.2 htext

theorem spelled_pair {e : CommandError} {text other : String} (h : e.texts = [text, other])
    (htext : All p text) (hother : All p other) : e.Spelled p := by
  rw [CommandError.Spelled, h]
  exact List.forall_mem_cons.2 ⟨htext, List.forall_mem_singleton.2 hother⟩

theorem spelled_listRefusal {target : String} (h : All p target) :
    (s.listRefusal target).Spelled p := by
  rw [listRefusal]
  split
  · exact spelled_singleton rfl h
  · split
    · exact spelled_singleton rfl h
    · exact spelled_singleton rfl h

theorem plainErrors_step {w : World} {path : Option String} {here : LocationId} {segment : String}
    (hw : w.Spelled p) (hpath : ∀ typed, path = some typed → All p typed)
    (hsegment : All p segment) : PlainErrors p (step w path here segment) := by
  unfold step
  split
  · exact plainErrors_ok
  · split
    · split
      · exact plainErrors_ok
      · apply plainErrors_error
        split
        · exact spelled_nil rfl
        · exact spelled_nil rfl
    · apply plainErrors_check (spelled_singleton rfl hsegment)
      split
      · apply plainErrors_error
        split
        · exact spelled_pair rfl hsegment (hpath _ rfl)
        · exact spelled_singleton rfl hsegment
      · split
        · apply plainErrors_error
          split
          · exact spelled_nil rfl
          · exact spelled_pair rfl hsegment (hw.directory here)
        · exact plainErrors_ok

theorem plainErrors_walk {w : World} {path : String} {here : LocationId} {segments : List String}
    (hw : w.Spelled p) (hpath : All p path) (hsegments : ∀ segment ∈ segments, All p segment) :
    PlainErrors p (walk w path here segments) := by
  induction segments generalizing here with
  | nil => exact plainErrors_ok
  | cons segment segments ih =>
      obtain ⟨hsegment, hsegments⟩ := List.forall_mem_cons.1 hsegments
      have hstep : PlainErrors p (step w (some path) here segment) :=
        plainErrors_step hw (fun typed h => Option.some.inj h ▸ hpath) hsegment
      rw [walk]
      split
      · exact ih hsegments
      · next e he => exact plainErrors_error (hstep e he)

variable {name source target file : String}

theorem plainErrors_cd (hs : s.world.Spelled p) (h : All p target) :
    PlainErrors p (s.cd target) := by
  rw [cd]
  split
  · dsimp only
    split
    · exact plainErrors_ok
    · next e he =>
      exact plainErrors_error
        (plainErrors_walk hs h (fun _ hsegment => h.of_mem_segments hsegment) e he)
  · split
    · exact plainErrors_ok
    · next e he =>
      have hstep : PlainErrors p (step s.world none s.current target) :=
        plainErrors_step hs (by simp) h
      exact plainErrors_error (hstep e he)

theorem plainErrors_cat (h : All p file) : PlainErrors p (s.cat file) := by
  rw [cat]
  apply plainErrors_check (spelled_singleton rfl h)
  apply plainErrors_check (spelled_singleton rfl h)
  split
  · exact plainErrors_error (spelled_singleton rfl h)
  · exact plainErrors_ok

theorem plainErrors_mkdir (h : All p name) : PlainErrors p (s.mkdir name) := by
  rw [mkdir]
  apply plainErrors_check (spelled_singleton rfl h)
  apply plainErrors_check (spelled_singleton rfl h)
  apply plainErrors_check (spelled_singleton rfl h)
  dsimp only
  split
  · exact plainErrors_ok
  · exact plainErrors_ok

theorem plainErrors_touch (h : All p name) : PlainErrors p (s.touch name) := by
  rw [touch]
  apply plainErrors_check (spelled_singleton rfl h)
  apply plainErrors_check (spelled_singleton rfl h)
  split
  · exact plainErrors_ok
  · exact plainErrors_ok

theorem plainErrors_rm (h : All p name) : PlainErrors p (s.rm name) := by
  rw [rm]
  apply plainErrors_check (spelled_singleton rfl h)
  split
  · exact plainErrors_error (spelled_singleton rfl h)
  · split
    · exact plainErrors_ok
    · exact plainErrors_ok

theorem plainErrors_returnTreasure (hp : Ink p) (s : Session) : PlainErrors p s.returnTreasure := by
  rw [returnTreasure]
  apply plainErrors_check (spelled_singleton rfl (hp.fixed rfl rfl))
  split
  · exact plainErrors_error (spelled_nil rfl)
  · exact plainErrors_ok

theorem spelled_pathMoveRefusal (hsource : All p source) (htarget : All p target) :
    (s.pathMoveRefusal source target).Spelled p := by
  rw [pathMoveRefusal]
  split
  · exact spelled_pair rfl hsource htarget
  · dsimp only
    split
    · exact spelled_singleton rfl hsource
    · exact spelled_singleton rfl hsource

theorem plainErrors_mv (hp : Ink p) (hsource : All p source) (htarget : All p target) :
    PlainErrors p (s.mv source target) := by
  rw [mv]
  apply plainErrors_check (spelled_pathMoveRefusal hsource htarget)
  apply plainErrors_check (spelled_singleton rfl hsource)
  apply plainErrors_check (spelled_singleton rfl hsource)
  split
  · exact plainErrors_returnTreasure hp s
  · refine plainErrors_check (spelled_nil rfl) ?_
    apply plainErrors_check (spelled_singleton rfl htarget)
    exact plainErrors_ok

theorem plainErrors_cp (hsource : All p source) (htarget : All p target) :
    PlainErrors p (s.cp source target) := by
  rw [cp]
  refine plainErrors_check (spelled_nil rfl) ?_
  apply plainErrors_check (spelled_singleton rfl hsource)
  apply plainErrors_check (spelled_singleton rfl hsource)
  apply plainErrors_check (spelled_singleton rfl htarget)
  refine plainErrors_check (spelled_nil rfl) ?_
  apply plainErrors_check (spelled_singleton rfl htarget)
  exact plainErrors_ok

theorem plainErrors_unzip (h : All p file) : PlainErrors p (s.unzip file) := by
  rw [unzip]
  apply plainErrors_check (spelled_singleton rfl h)
  apply plainErrors_check (spelled_singleton rfl h)
  apply plainErrors_check (spelled_singleton rfl h)
  apply plainErrors_check (spelled_singleton rfl h)
  split
  · exact plainErrors_ok
  · apply plainErrors_check (spelled_singleton rfl h)
    exact plainErrors_ok

theorem plainErrors_withArg {args : List String} {missing usage : String}
    {f : String → Except CommandError Outcome} (hmissing : All p missing) (husage : All p usage)
    (hf : ∀ arg ∈ args, PlainErrors p (f arg)) : PlainErrors p (withArg args missing usage f) := by
  match args, hf with
  | [], _ => exact plainErrors_error (spelled_singleton rfl hmissing)
  | [_], hf => exact hf _ List.mem_cons_self
  | _ :: _ :: _, _ => exact plainErrors_error (spelled_singleton rfl husage)

theorem plainErrors_withTwoArgs (hp : Ink p) {args : List String} {missing : String}
    {f : String → String → Except CommandError Outcome} (hmissing : All p missing)
    (hf : ∀ first ∈ args, ∀ second ∈ args, PlainErrors p (f first second)) :
    PlainErrors p (withTwoArgs args missing f) := by
  match args, hf with
  | [_, _], hf => exact hf _ List.mem_cons_self _ (List.mem_cons_of_mem _ List.mem_cons_self)
  | [], _ | [_], _ => exact plainErrors_error (spelled_singleton rfl hmissing)
  | _ :: _ :: _ :: _, _ =>
      exact plainErrors_error (spelled_singleton rfl (hp.fixed rfl rfl))

/-- Whatever refuses a command only speaks of the command, of the world and of what is printed. -/
theorem plainErrors_execute (hp : Ink p) (hs : s.world.Spelled p) (hcommand : command.Spelled p) :
    PlainErrors p (s.execute command) := by
  obtain ⟨verb, args⟩ := command
  obtain ⟨hargs, hword⟩ := hcommand
  cases verb with
  | help | pwd | clear | reset | exit => exact plainErrors_ok
  | ls =>
      cases args with
      | nil => exact plainErrors_ok
      | cons target args =>
          exact plainErrors_error (spelled_listRefusal (hargs target List.mem_cons_self))
  | cd =>
      exact plainErrors_withArg (hp.fixed rfl rfl) (hp.fixed rfl rfl)
        fun arg harg => plainErrors_cd hs (hargs arg harg)
  | cat =>
      exact plainErrors_withArg (hp.fixed rfl rfl) (hp.fixed rfl rfl)
        fun arg harg => plainErrors_cat (hargs arg harg)
  | mkdir =>
      exact plainErrors_withArg (hp.fixed rfl rfl) (hp.fixed rfl rfl)
        fun arg harg => plainErrors_mkdir (hargs arg harg)
  | touch =>
      exact plainErrors_withArg (hp.fixed rfl rfl) (hp.fixed rfl rfl)
        fun arg harg => plainErrors_touch (hargs arg harg)
  | rm =>
      exact plainErrors_withArg (hp.fixed rfl rfl) (hp.fixed rfl rfl)
        fun arg harg => plainErrors_rm (hargs arg harg)
  | mv =>
      exact plainErrors_withTwoArgs hp (hp.fixed rfl rfl) fun first hfirst second hsecond =>
        plainErrors_mv hp (hargs first hfirst) (hargs second hsecond)
  | cp =>
      exact plainErrors_withTwoArgs hp (hp.fixed rfl rfl) fun first hfirst second hsecond =>
        plainErrors_cp (hargs first hfirst) (hargs second hsecond)
  | unzip =>
      exact plainErrors_withArg (hp.fixed rfl rfl) (hp.fixed rfl rfl)
        fun arg harg => plainErrors_unzip (hargs arg harg)
  | unknown word =>
      exact plainErrors_error (Suggestion.spelled_answer hp (hword word rfl))

theorem plainErrors_perform {typed : String} (hp : Ink p) (hs : s.world.Spelled p)
    (hcommand : command.Spelled p) (htyped : ∀ word ∈ Text.words typed, All p word) :
    PlainErrors p (s.perform typed command) := by
  have hexecute := plainErrors_execute hp hs hcommand
  rw [perform]
  split
  · dsimp only
    refine plainErrors_check (spelled_singleton rfl ?_) hexecute
    cases hwords : Text.words typed with
    | nil => exact hp.fixed rfl rfl
    | cons token rest =>
        rw [hwords] at htyped
        exact htyped token List.mem_cons_self
  · exact hexecute

/-! ## Answers -/

theorem printed_helpText : Printed helpText := by
  refine All.intercalate (Text.printed_of_chars rfl rfl) ?_
  simp only [List.forall_mem_cons]
  and_intros
  all_goals first
    | exact Text.printed_of_chars rfl rfl
    | exact nofun

theorem coloured_listing (hp : Ink p) (hs : s.world.Spelled p) : Coloured p s.listing :=
  listing_of_append .nil Coloured.append (hp.coloured (hp.fixed rfl rfl))
    (fun item hitem => hp.coloured (hs.names.item s.current item hitem))
    fun i => hp.coloured_directory (hs.directory i)

theorem all_pwd (hp : Ink p) (hs : s.world.Spelled p) : All p s.pwd := by
  rw [pwd]
  split
  · exact hp.fixed rfl rfl
  · exact All.append (hp.fixed rfl rfl) (hs.directory s.current)

theorem coloured_of_append (hp : Ink p) {before text : String} (hbefore : All p before)
    (h : All p text) : Coloured p (before ++ text) :=
  hp.coloured (hbefore.append h)

/-- What is carried out without wiping the screen is answered in colours at most. -/
theorem Answers.coloured (hp : Ink p) (hs : s.world.Spelled p) (hcommand : command.Spelled p)
    (h : Answers s command done) (hverb : command.verb.redrawsScreen = false) :
    Coloured p done.output := by
  have hargs := hcommand.args
  cases h with
  | helps => exact hp.coloured (printed_helpText.all hp.plain)
  | lists => exact coloured_listing hp hs
  | walks => exact coloured_of_append hp (hp.fixed rfl rfl) (hargs _ List.mem_cons_self)
  | enters => exact coloured_of_append hp (hp.fixed rfl rfl) (hs.directory _)
  | reads _ htext => exact hp.coloured (hs.content htext)
  | nags _ htext => exact coloured_of_append hp (hs.content htext) (hp.fixed rfl rfl)
  | locates => exact hp.coloured (all_pwd hp hs)
  | makes | renews | adds | drops =>
      exact coloured_of_append hp (hp.fixed rfl rfl) (hargs _ List.mem_cons_self)
  | prompts =>
      exact (coloured_of_append hp (hp.fixed rfl rfl) (hargs _ List.mem_cons_self)).append
        (hp.coloured (hp.fixed rfl rfl))
  | warns =>
      refine hp.coloured_error (.append (.append (.append ?_ ?_) ?_) ?_)
      · exact hp.fixed rfl rfl
      · exact hargs _ List.mem_cons_self
      · exact hp.fixed rfl rfl
      · exact hp.fixed rfl rfl
  | renames | copies =>
      have hsource := hargs _ List.mem_cons_self
      have htarget := hargs _ (List.mem_cons_of_mem _ List.mem_cons_self)
      exact hp.coloured
        ((All.append (.append (hp.fixed rfl rfl) hsource) (hp.fixed rfl rfl)).append htarget)
  | returns =>
      exact (hp.coloured_success (hp.fixed rfl rfl)).append (hp.coloured (hp.fixed rfl rfl))
  | clears | restarts => cases hverb
  | finds => exact (hp.coloured_error (hp.fixed rfl rfl)).append (hp.coloured (hp.fixed rfl rfl))
  | extracts => exact hp.coloured (hp.fixed rfl rfl)
  | leaves => exact hp.coloured (hp.fixed rfl rfl)

theorem coloured_praise (hp : Ink p) (s : Session) (command : Command) (succeeded : Bool) :
    Coloured p (s.praise command succeeded) := by
  have hempty : All p "" := hp.fixed rfl rfl
  apply hp.coloured
  rw [praise, grade]
  split
  · exact hempty
  · next lesson _ =>
    split
    · have hdescription : All p lesson.description := by
        cases lesson
        all_goals exact hp.fixed rfl rfl
      have hbanner : All p (banner lesson) :=
        .append (.append (hp.fixed rfl rfl) hdescription) (hp.fixed rfl rfl)
      exact hbanner.append hempty
    · exact hempty

/-! ## Wiping the screen -/

/-- What `reset` shows below the wiped screen. -/
def restartText : String := Markup.success "=== Game Reset ===" ++ "\n" ++ welcome

theorem resetText_eq : resetText = Markup.clearScreen ++ "\n" ++ restartText := by
  simp only [resetText, restartText, String.append_assoc]

theorem coloured_restartText (hp : Ink p) : Coloured p restartText :=
  ((hp.coloured_success (hp.fixed rfl rfl)).append (hp.coloured (hp.fixed rfl rfl))).append
    (hp.coloured (hp.fixed rfl rfl))

theorem marked_clearScreen : Marked p Markup.sequences Markup.clearScreen.toList := by
  have hscreen : Markup.clearScreen = "\x1b[2J" ++ "\x1b[H" := by decide
  rw [hscreen, String.toList_append]
  exact (Marked.of_mem (by decide)).append (Marked.of_mem (by decide))

theorem marked_resetText (hp : Ink p) : Marked p Markup.sequences resetText.toList := by
  have hline : Coloured p "\n" := hp.coloured (hp.fixed rfl rfl)
  have hbelow : Marked p Markup.sequences ("\n" ++ restartText).toList :=
    Marked.mono (List.subset_append_left _ _) (hline.append (coloured_restartText hp))
  rw [resetText_eq, String.append_assoc, String.toList_append]
  exact marked_clearScreen.append hbelow

theorem Answers.output_of_redraws (h : Answers s command done)
    (hverb : command.verb.redrawsScreen = true) :
    done.output = Markup.clearScreen ∨ done.output = resetText := by
  cases h with
  | clears => exact .inl rfl
  | restarts => exact .inr rfl
  | _ => cases hverb

theorem redrawsScreen_iff {verb : Verb} :
    verb.redrawsScreen = true ↔ verb = .clear ∨ verb = .reset := by
  cases verb with
  | clear | reset => simp [Verb.redrawsScreen]
  | _ => simp [Verb.redrawsScreen]

theorem perform_ne_error {typed : String} {e : CommandError}
    (hverb : command.verb.redrawsScreen = true) : s.perform typed command ≠ .error e := by
  rw [perform, execute]
  intro herror
  rcases redrawsScreen_iff.1 hverb with h | h
  · rw [h] at herror
    cases herror
  · rw [h] at herror
    cases herror

theorem verb_of_ofLine? {other : Command} (hcommand : Command.ofLine? line = some command)
    (hverb : command.verb.redrawsScreen = false) (hother : Command.ofLine? line = some other) :
    other.verb.redrawsScreen = false := by
  obtain rfl : command = other := Option.some.inj (hcommand.symm.trans hother)
  exact hverb

/-- If the words of the line and the world are of the right kind, the line is answered in colours, or it
is a command that wipes the screen and is answered by one of the two texts that do so. -/
theorem Says.coloured_or_wipes {result : String} (hp : Ink p) (hs : s.world.Spelled p)
    (hwords : ∀ word ∈ Text.words line, All p word) (h : Says s line result) :
    (Coloured p result ∧
      ∀ command, Command.ofLine? line = some command → command.verb.redrawsScreen = false) ∨
    ((∃ command, Command.ofLine? line = some command ∧ command.verb.redrawsScreen = true) ∧
      (result = Markup.clearScreen ∨ result = resetText)) := by
  have hnoted : (s.noting (Text.trim line)).world.Spelled p := hs
  have hcommand : ∀ command, Command.ofLine? line = some command → command.Spelled p :=
    fun _ => Command.spelled_of_words (Text.graphic_of_plain hp.plain) hwords
  cases h with
  | blank hnone =>
      refine .inl ⟨CommandError.coloured_render hp (spelled_nil rfl), ?_⟩
      intro command hcommand
      rw [hnone] at hcommand
      cases hcommand
  | @refused command e hline hperform =>
      have herror := plainErrors_perform hp hnoted (hcommand command hline)
        (by simpa using hwords) e hperform
      have hverb : command.verb.redrawsScreen = false := by
        by_contra hverb
        exact perform_ne_error (by simpa using hverb) hperform
      exact .inl ⟨(coloured_praise hp _ _ _).append (CommandError.coloured_render hp herror),
        fun _ => verb_of_ofLine? hline hverb⟩
  | redraws hline hverb hanswers => exact .inr ⟨⟨_, hline, hverb⟩, hanswers.output_of_redraws hverb⟩
  | answers hline hverb hanswers =>
      have houtput := hanswers.coloured hp hnoted (hcommand _ hline) hverb
      exact .inl ⟨(coloured_praise hp _ _ _).append houtput, fun _ => verb_of_ofLine? hline hverb⟩

theorem clearsScreen_clearScreen : Markup.clearsScreen Markup.clearScreen = true := by decide

theorem clearsScreen_resetText : Markup.clearsScreen resetText = true := by decide +kernel

/-- The result is marked with the sequences of the game, and it wipes the screen exactly if the line is
a command that does. -/
structure Tame (p : Char → Prop) (line result : String) : Prop where
  marked : Marked p Markup.sequences result.toList
  clears_iff : Markup.clearsScreen result = true ↔
    ∃ command, Command.ofLine? line = some command ∧ command.verb.redrawsScreen = true

theorem Says.tame {result : String} (hp : Ink p) (hs : s.world.Spelled p)
    (hwords : ∀ word ∈ Text.words line, All p word) (h : Says s line result) :
    Tame p line result := by
  rcases h.coloured_or_wipes hp hs hwords with ⟨hresult, hno⟩ | ⟨hline, rfl | rfl⟩
  · refine ⟨Marked.mono (List.subset_append_left _ _) hresult, ?_⟩
    rw [hresult.clearsScreen]
    refine ⟨nofun, ?_⟩
    rintro ⟨command, hcommand, hverb⟩
    rw [hno command hcommand] at hverb
    cases hverb
  · exact ⟨marked_clearScreen, fun _ => hline, fun _ => clearsScreen_clearScreen⟩
  · exact ⟨marked_resetText hp, fun _ => hline, fun _ => clearsScreen_resetText⟩

/-- **Lines from untrusted players bring no control characters in.**  In every game of lines that may
be played, no directory, no file and no line of the history holds a control character.  Whatever line
is played next, every escape character of its result starts one of the game's own sequences, the result
is printed once these are stripped, and it wipes the screen if and only if the line is `clear` or
`reset`. -/
theorem controlFree_after {lines : List String} {line : String}
    (hlines : ∀ line ∈ lines, InputLine.Playable line) (hline : InputLine.Playable line) :
    let s := start.after lines
    let response := (s.process line).response
    (∀ l ∈ s.world.locations, l.ControlFree) ∧
    (∀ typed ∈ s.history, Text.ControlFree typed) ∧
    (∀ before after, response.result.toList = before ++ '\x1b' :: after →
      ∃ q ∈ Markup.sequences, q.toList <+: '\x1b' :: after) ∧
    Printed (Markup.strip response.result) ∧
    (response.clearsScreen = true ↔
      ∃ command, Command.ofLine? line = some command ∧
        (command.verb = .clear ∨ command.verb = .reset)) := by
  intro s response
  have hs : s.ControlFree := ControlFree.after hlines
  have hwords : ∀ line, InputLine.Playable line → ∀ word ∈ Text.words line, Printed word :=
    fun _ hline _ hword => All.of_mem_words hline.controlFree.printed hword
  have hspelled := spelled_after Markup.ink_printed.plain fun line h => hwords line (hlines line h)
  have htame := (says_process s line).tame Markup.ink_printed hspelled (hwords line hline)
  refine ⟨hs.world.locations, hs.history, ?_, ?_, ?_⟩
  · intro before after heq
    exact htame.marked.exists_sequence (fun _ hq => hq) heq
  · intro c hc
    rw [Markup.strip, String.toList_ofList] at hc
    exact htame.marked.all_visible c hc
  · have hclears := htame.clears_iff
    simp only [redrawsScreen_iff] at hclears
    exact hclears

/-- A line comes in with a tab and a line end, and a name that is not there is put into its error. -/
theorem controlFree_after_cd :
    InputLine.Playable "cd downloads" ∧ InputLine.Playable "cat [2J" ∧
      Printed (Markup.strip ((start.after ["cd downloads"]).process "cat [2J").response.result) := by
  have hfirst : InputLine.Playable "cd downloads" :=
    ⟨"cd\tdownloads\r\n", 64, by decide +kernel⟩
  have hsecond : InputLine.Playable "cat [2J" := ⟨"cat [2J\n", 64, by decide +kernel⟩
  have hlines : ∀ line ∈ ["cd downloads"], InputLine.Playable line :=
    List.forall_mem_singleton.2 hfirst
  exact ⟨hfirst, hsecond, (controlFree_after hlines hsecond).2.2.2.1⟩

end ShellQuest.Session
