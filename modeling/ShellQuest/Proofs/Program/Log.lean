/-
# The log of a game

A game that is asked to say what it does logs every event, each on a line of its own.  What the player
types is escaped on the way; the keys of directories are not.  So a line of the log holds a control
character if and only if the player has made a directory whose name holds one (`log_controlFree_iff`).
Then that character also stands in the line of every command that is typed in the directory.
-/
import ShellQuest.Proofs.Program.Game
import ShellQuest.Proofs.Session.Records
import ShellQuest.Proofs.Text.Utf8

namespace ShellQuest

open Text (All ControlFree Graphic)

namespace Terminal

variable {p : Char → Prop}

theorem controlFree_closing (s : Session) (events : List Event) :
    ∀ r ∈ Transcript.closing s events, ControlFree r.text := by
  have hbool : ∀ b : Bool, ControlFree (toString b) := by decide
  have hnone : ControlFree "no commands were entered" := by decide
  have hended : ∀ (commands lessons : Nat) (all mission : Bool), ControlFree
      (s!"session ended: {commands} commands, {lessons} lessons (all done: " ++
        s!"{all}), mission complete: {mission}") := by
    intro commands lessons all mission
    have hlessons : ControlFree s!"session ended: {commands} commands, {lessons} lessons (all done: " :=
      .append (.append (.append (.append (by decide) (Text.controlFree_toString _)) (by decide))
        (Text.controlFree_toString _)) (by decide)
    have hmission : ControlFree s!"{all}), mission complete: {mission}" :=
      .append (.append (hbool _) (by decide)) (hbool _)
    exact hlessons.append hmission
  unfold Transcript.closing
  dsimp only
  split
  · exact List.forall_mem_cons.2 ⟨hended _ _ _ _, List.forall_mem_singleton.2 hnone⟩
  · exact List.forall_mem_singleton.2 (hended _ _ _ _)

/-- No record of a game is so small a matter that it is kept only on the widest filter. -/
theorem level_ne_trace (t : Transcript) : ∀ r ∈ t.records, r.level ≠ .trace := by
  rw [Transcript.records, List.forall_mem_append]
  refine ⟨?_, ?_⟩
  · intro r hr
    obtain ⟨e, -, rfl⟩ := List.mem_map.1 hr
    cases e
    all_goals exact nofun
  · rw [Transcript.closingRecords]
    split
    · unfold Transcript.closing
      dsimp only
      split
      · exact List.forall_mem_cons.2 ⟨nofun, List.forall_mem_singleton.2 nofun⟩
      · exact List.forall_mem_singleton.2 nofun
    · exact List.forall_mem_nil _

/-- The records of a game are made of graphic characters and of those in names of directories. -/
theorem all_records_iff (hp : Graphic p) (g : GameSettings) (typed : List UInt8) :
    (∀ r ∈ (play g typed).records, All p r.text) ↔
      ∀ m ∈ Session.start.moments (played (Text.lines typed)), m.session.MakesOnly p m.line := by
  have hevents : (play g typed).events = Session.start.events (played (Text.lines typed)) :=
    events_playLines g Session.start (Text.lines typed)
  have hclosing : ∀ r ∈ (play g typed).closingRecords, All p r.text := by
    rw [Transcript.closingRecords]
    split
    · exact fun r hr => (controlFree_closing _ _ r hr).all hp
    · exact List.forall_mem_nil _
  rw [Transcript.records, List.forall_mem_append, and_iff_left hclosing, List.forall_mem_map, hevents]
  simp only [Event.all_toRecord hp]
  exact Session.events_keyed_iff hp Session.Placed.start (World.Keyed.seeded hp) _

end Terminal

namespace Session

theorem makesOnly_ne_lineFeed (s : Session) (line : String) : s.MakesOnly (· ≠ '\n') line := by
  rintro name done ⟨hcommand, -⟩
  exact oneLine_of_mem_words (Command.mem_words_of_mem_args hcommand List.mem_cons_self)

end Session

namespace Program

variable {words : List String} {d : Disk} {call : Invocation} {settings : Settings} {path : String}

theorem keeps_of_verbose (hverbose : 0 < call.verbosity) (s : LogSettings) {level : Log.Level}
    (hlevel : level ≠ .trace) : (call.logFilter s).keeps level = true := by
  rw [Invocation.logFilter]
  split
  · omega
  · cases level with
    | trace => exact absurd rfl hlevel
    | _ => rfl
  · cases level
    all_goals rfl

/-- **When the log holds no control character.**  A game that is asked to say what it does, and has a file
to log to, appends its records to the file, each as one line.  After their time stamps these lines are
free of control characters if and only if no line of the game makes a directory whose name holds one. -/
theorem log_controlFree_iff (h : Plays words d call settings) (hfile : settings.log.file = some path)
    (hverbose : 0 < call.verbosity) (stamp : String) (typed : List UInt8) :
    let records := (playing settings typed).records
    (run stamp words typed d).disk =
      (d.append? path (String.join (records.map (Log.Record.line stamp))).toUTF8).getD d ∧
    (∀ r ∈ records, '\n' ∉ r.text.toList) ∧
    ((∀ r ∈ records, ControlFree s!"[{r.level.name}] {r.text}") ↔
      ∀ m ∈ Session.start.moments (Terminal.played (Text.lines typed)), ∀ name done,
        m.session.CarriesOut m.line ⟨.mkdir, [name]⟩ done → ControlFree name) := by
  intro records
  refine ⟨?_, ?_, ?_⟩
  · have hkept : records.filter (fun r => (call.logFilter settings.log).keeps r.level) = records :=
      List.filter_eq_self.2 fun r hr =>
        keeps_of_verbose hverbose settings.log (Terminal.level_ne_trace _ r hr)
    rw [h.run_eq, hfile]
    simp only [Disk.logged, logText]
    rw [hkept]
  · have hall : ∀ r ∈ records, All (· ≠ '\n') r.text :=
      (Terminal.all_records_iff Text.graphic_ne_lineFeed settings.game typed).2 fun m _ =>
        m.session.makesOnly_ne_lineFeed m.line
    exact fun r hr => Text.all_ne_iff.1 (hall r hr)
  · have hlevel : ∀ r : Log.Record, ControlFree s!"[{r.level.name}] {r.text}" ↔ ControlFree r.text := by
      intro r
      have hname : ControlFree ("[" ++ r.level.name ++ "] ") := by
        cases r.level
        all_goals decide
      exact Text.all_append.trans (and_iff_right hname)
    simp only [hlevel]
    exact Terminal.all_records_iff Text.graphic_notControl settings.game typed

/-- The lines of a game in which a directory is made under a harmless name. -/
theorem log_controlFree_mkdir :
    let call : Invocation := { task := .play, config := "config.toml", verbosity := 1, bind := none }
    let d : Disk := ⟨[(["config.toml"], "[logging]\nfile = \"game.log\"\n".toUTF8)]⟩
    let settings : Settings := { ({} : Settings) with log.file := some "game.log" }
    Plays ["play", "-v"] d call settings ∧ settings.log.file = some "game.log" ∧ 0 < call.verbosity ∧
      ∀ r ∈ (playing settings (Text.bytes "mkdir a\n")).records, '\n' ∉ r.text.toList := by
  intro call d settings
  have hplays : Plays ["play", "-v"] d call settings := ⟨rfl, rfl, by decide +kernel⟩
  have hverbose : 0 < call.verbosity := by decide
  exact ⟨hplays, rfl, hverbose, (log_controlFree_iff hplays rfl hverbose "" _).2.1⟩

/-- The line of the player is escaped, and the key of the new directory is not. -/
theorem log_holds_bell :
    let d : Disk := ⟨[(["config.toml"], "[logging]\nfile = \"game.log\"\n".toUTF8)]⟩
    let key := "created directory key=a\x07b under home"
    (run "" ["play", "-v"] (Text.bytes "mkdir a\x07b\n") d).disk.files.lookup ["game.log"] =
      some (" [DEBUG] command at home: mkdir a\\x07b\n [DEBUG] " ++ key ++
        "\n [INFO] session ended: 1 commands, 0 lessons (all done: false), mission complete: false\n").toUTF8 ∧
      ¬ ControlFree key := by
  decide +kernel

end Program

end ShellQuest
