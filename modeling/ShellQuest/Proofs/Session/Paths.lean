/-
# A path as a sequence of steps

A path is walked with a cursor of its own, and the player only moves at its end; the single `cd` moves
the player at once.  Both ways look at nothing but the world, which no `cd` changes, so they take the
same steps (`walk_eq_ok`), or break off at the same one (`walk_eq_error`).  The one thing told otherwise
is a directory that is not there: a path that has such a segment is named beside it.
-/
import ShellQuest.Proofs.Session.Footprint
import ShellQuest.Proofs.Text.ControlFree

namespace ShellQuest

/-- The error of a path, if `e` is the error of its segment `place` alone. -/
def CommandError.onPath (place path : String) (e : CommandError) : CommandError :=
  match e with
  | directoryNotFound _ => pathSegmentNotFound place path
  | e => e

/-- A name that can be typed and that is no path. -/
def Text.IsSegment (t : String) : Prop := IsWord t ∧ hasChar t '/' = false

instance (t : String) : Decidable (Text.IsSegment t) := inferInstanceAs (Decidable (_ ∧ _))

theorem Text.isSegment_of_mem_segments {path segment : String} (hpath : IsWord path)
    (h : segment ∈ segments path) : IsSegment segment := by
  have hblank : All (isBlank · = false) segment := All.of_mem_segments hpath.2 h
  obtain ⟨piece, hpiece, rfl⟩ := List.mem_map.1 h
  obtain ⟨hne, hslash⟩ := of_mem_pieces hpiece
  refine ⟨⟨by rwa [String.toList_ofList], hblank⟩, ?_⟩
  rw [hasChar, String.toList_ofList, Bool.eq_false_iff, ne_eq, List.contains_iff_mem]
  intro hmem
  exact absurd (hslash '/' hmem) (by decide)

namespace Session

variable {s : Session} {line target place path : String} {places : List String} {next : LocationId}
  {e : CommandError}

/-! ## Lines one after the other -/

def Succeeds (s : Session) (line : String) : Prop := ∃ command done, s.CarriesOut line command done

/-- Each of some lines is a command that is carried out. -/
def SucceedsAll (s : Session) : List String → Prop
  | [] => True
  | line :: lines => s.Succeeds line ∧ (s.process line).session.SucceedsAll lines

/-- Each of `first` is carried out, and then `line` is refused for the reason `e`. -/
def BreaksOff (s : Session) (first : List String) (line : String) (e : CommandError) : Prop :=
  s.SucceedsAll first ∧ (s.after first).Refuses line e

theorem breaksOff_cons {first : List String} {earlier : String} :
    s.BreaksOff (earlier :: first) line e ↔
      s.Succeeds earlier ∧ (s.process earlier).session.BreaksOff first line e := by
  rw [BreaksOff, BreaksOff, SucceedsAll, after_cons, and_assoc]

/-! ## One `cd` -/

theorem cd_eq_error : s.cd target = .error e ↔ s.destination target = .error e := by
  rw [cd, destination]
  split
  · dsimp only
    split
    · next h => simp [h]
    · next h => simp [h]
  · split
    · next h => simp [h]
    · next h => simp [h]

theorem refuses_cd_iff (hline : Command.ofLine? line = some ⟨.cd, [target]⟩) :
    s.Refuses line e ↔ s.destination target = .error e := by
  have hcd : s.Refuses line e ↔ (s.noting (Text.trim line)).cd target = .error e := by
    rw [Refuses]
    constructor
    · rintro ⟨command, hcommand, h⟩
      cases hline.symm.trans hcommand
      exact h
    · intro h
      exact ⟨_, hline, h⟩
  exact hcd.trans cd_eq_error

theorem succeeds_cd_iff (hline : Command.ofLine? line = some ⟨.cd, [target]⟩) :
    s.Succeeds line ↔ ∃ next, s.destination target = .ok next := by
  constructor
  · rintro ⟨command, done, h⟩
    cases hline.symm.trans h.1
    have heffect := h.effect
    generalize done.session = t at heffect
    cases heffect with
    | shows h => exact absurd h id
    | goes hnext => exact ⟨_, hnext⟩
  · rintro ⟨next, h⟩
    have heffect : ∃ t, Effect (s.noting (Text.trim line)) ⟨.cd, [target]⟩ t := ⟨_, .goes h⟩
    obtain ⟨done, hdone⟩ := (exists_carriesOut_iff hline).2 heffect
    exact ⟨_, done, hdone⟩

/-- A `cd` moves the player to where the way leads, and that is all it does to the game. -/
theorem sameGame_cd (hline : Command.ofLine? line = some ⟨.cd, [target]⟩)
    (h : s.destination target = .ok next) :
    SameGame (s.process line).session { s with current := next } := by
  have heffect : Effect (s.noting (Text.trim line)) ⟨.cd, [target]⟩ _ := .goes h
  exact (sameGame_of_effect hline rfl heffect).trans ⟨rfl, rfl, rfl⟩

/-! ## A step of a path -/

/-- A segment leads from a place on a path to where it leads on its own, or there is no way for the
same reason. -/
theorem step_on_path (w : World) (path : String) (start : LocationId) (segment : String) :
    step w (some path) start segment =
      (step w none start segment).mapError (.onPath segment path) := by
  -- the two only differ where no exit bears the name, and there by what `onPath` changes
  unfold step
  split
  · rfl
  · split
    · split
      · rfl
      · split
        · rfl
        · rfl
    · split
      · rfl
      · split
        · rfl
        · split
          · split
            · rfl
            · rfl
          · rfl

/-- The line on which the player goes to a place. -/
def goTo (place : String) : String := Command.written ⟨.cd, [place]⟩

theorem ofLine?_goTo (hplace : Text.IsSegment place) :
    Command.ofLine? (goTo place) = some ⟨.cd, [place]⟩ :=
  (Command.Plain.of_word (by decide) rfl hplace.1).ofLine?_written

theorem destination_of_isSegment (s : Session) (hplace : Text.IsSegment place) :
    s.destination place = step s.world none s.current place := by
  rw [destination, if_neg (by simp [hplace.2])]

theorem step_of_succeeds (path : String) (hplace : Text.IsSegment place) (h : s.Succeeds (goTo place)) :
    step s.world (some path) s.current place = .ok (s.process (goTo place)).session.current ∧
      (s.process (goTo place)).session.world = s.world := by
  have hline := ofLine?_goTo hplace
  obtain ⟨next, hnext⟩ := (succeeds_cd_iff hline).1 h
  have hgame := sameGame_cd hline hnext
  rw [destination_of_isSegment s hplace] at hnext
  rw [step_on_path, hnext, hgame.current]
  exact ⟨rfl, hgame.world⟩

theorem step_of_refuses (path : String) (hplace : Text.IsSegment place) (h : s.Refuses (goTo place) e) :
    step s.world (some path) s.current place = .error (e.onPath place path) := by
  have herror := (refuses_cd_iff (ofLine?_goTo hplace)).1 h
  rw [destination_of_isSegment s hplace] at herror
  rw [step_on_path, herror]
  rfl

/-! ## A whole path -/

theorem walk_append (w : World) (path : String) (here : LocationId) (first rest : List String) :
    walk w path here (first ++ rest) =
      (walk w path here first).bind fun next => walk w path next rest := by
  induction first generalizing here with
  | nil => rfl
  | cons place first ih =>
      rw [List.cons_append, walk, walk]
      split
      · next next _ => exact ih next
      · rfl

/-- Where each step can be taken on its own, the path leads to where the last one does. -/
theorem walk_of_succeedsAll (path : String) (hplaces : ∀ place ∈ places, Text.IsSegment place)
    (h : s.SucceedsAll (places.map goTo)) :
    walk s.world path s.current places = .ok (s.after (places.map goTo)).current ∧
      (s.after (places.map goTo)).world = s.world := by
  induction places generalizing s with
  | nil => exact ⟨rfl, rfl⟩
  | cons place places ih =>
      obtain ⟨hplace, hplaces⟩ := List.forall_mem_cons.1 hplaces
      obtain ⟨hfirst, hrest⟩ := h
      obtain ⟨hstep, hworld⟩ := step_of_succeeds path hplace hfirst
      obtain ⟨hwalk, hsame⟩ := ih hplaces hrest
      rw [List.map_cons, after_cons, walk, hstep]
      rw [hworld] at hwalk hsame
      exact ⟨hwalk, hsame⟩

/-- Where one step cannot be taken, the path breaks off there. -/
theorem walk_of_breaksOff (path : String) {first rest : List String}
    (hplaces : ∀ p ∈ first ++ place :: rest, Text.IsSegment p)
    (h : s.BreaksOff (first.map goTo) (goTo place) e) :
    walk s.world path s.current (first ++ place :: rest) = .error (e.onPath place path) := by
  obtain ⟨hfirst, hplace⟩ := List.forall_mem_append.1 hplaces
  obtain ⟨hwalk, hworld⟩ := walk_of_succeedsAll path hfirst h.1
  have hstep := step_of_refuses path (List.forall_mem_cons.1 hplace).1 h.2
  rw [hworld] at hstep
  rw [walk_append, hwalk, Except.bind, walk, hstep]

theorem succeedsAll_or_breaksOff (s : Session) (hplaces : ∀ place ∈ places, Text.IsSegment place) :
    s.SucceedsAll (places.map goTo) ∨
      ∃ first place rest e, places = first ++ place :: rest ∧
        s.BreaksOff (first.map goTo) (goTo place) e := by
  induction places generalizing s with
  | nil => exact .inl trivial
  | cons place places ih =>
      obtain ⟨hplace, hplaces⟩ := List.forall_mem_cons.1 hplaces
      rcases line_cases s (goTo place) with hblank | ⟨e, h⟩ | hsucceeds
      · cases (Command.ofLine?_eq_none.2 hblank).symm.trans (ofLine?_goTo hplace)
      · exact .inr ⟨[], place, places, e, rfl, trivial, h⟩
      · rcases ih (s.process (goTo place)).session hplaces with hall | ⟨first, later, rest, e, rfl, h⟩
        · exact .inl ⟨hsucceeds, hall⟩
        · exact .inr ⟨place :: first, later, rest, e, rfl, breaksOff_cons.2 ⟨hsucceeds, h⟩⟩

theorem walk_eq_ok (hplaces : ∀ place ∈ places, Text.IsSegment place) :
    walk s.world path s.current places = .ok next ↔
      s.SucceedsAll (places.map goTo) ∧ (s.after (places.map goTo)).current = next := by
  constructor
  · intro h
    rcases succeedsAll_or_breaksOff s hplaces with hall | ⟨first, place, rest, e, rfl, hbreaks⟩
    · rw [(walk_of_succeedsAll path hplaces hall).1] at h
      exact ⟨hall, Except.ok.inj h⟩
    · rw [walk_of_breaksOff path hplaces hbreaks] at h
      cases h
  · rintro ⟨hall, rfl⟩
    exact (walk_of_succeedsAll path hplaces hall).1

theorem walk_eq_error (hplaces : ∀ place ∈ places, Text.IsSegment place) :
    walk s.world path s.current places = .error e ↔
      ∃ first place rest e', places = first ++ place :: rest ∧
        s.BreaksOff (first.map goTo) (goTo place) e' ∧ e = e'.onPath place path := by
  constructor
  · intro h
    rcases succeedsAll_or_breaksOff s hplaces with hall | ⟨first, place, rest, e', rfl, hbreaks⟩
    · rw [(walk_of_succeedsAll path hplaces hall).1] at h
      cases h
    · rw [walk_of_breaksOff path hplaces hbreaks] at h
      exact ⟨first, place, rest, e', rfl, hbreaks, (Except.error.inj h).symm⟩
  · rintro ⟨first, place, rest, e', rfl, hbreaks, rfl⟩
    exact walk_of_breaksOff path hplaces hbreaks

/-- The places that a path names one after the other: home, if it starts with a slash, and then what
stands between its slashes, where something does. -/
def stages (path : String) : List String :=
  let segments := (path.toList.splitOn '/').filter fun segment => !segment.isEmpty
  (if Text.startsWith path "/" then ["~"] else []) ++ segments.map String.ofList

theorem isSegment_of_mem_stages (hpath : Text.IsWord path) :
    ∀ place ∈ stages path, Text.IsSegment place := by
  have hsegments : ∀ place ∈ Text.segments path, Text.IsSegment place :=
    fun _ => Text.isSegment_of_mem_segments hpath
  rw [stages, ← Text.segments_eq_filter]
  split
  · have hhome : Text.IsSegment "~" := by decide
    exact List.forall_mem_cons.2 ⟨hhome, hsegments⟩
  · exact hsegments

theorem destination_of_path (s : Session) (hslash : Text.hasChar target '/' = true) :
    s.destination target = walk s.world target s.current (stages target) := by
  rw [destination, if_pos hslash, stages, ← Text.segments_eq_filter]
  split
  · rfl
  · rfl

/-- **A path is the sequence of its segments.**  A `cd` to a path is carried out exactly if, one after
the other, the single `cd` to each of its stages is, and it ends where these end.  It is refused
exactly if one of these is, for the reason of the first one that is; a directory that is not there is
then named together with the path.  A refused path leaves the player where they stand. -/
theorem path_stages (s : Session) (line target : String)
    (hline : Command.ofLine? line = some ⟨.cd, [target]⟩) (hslash : Text.hasChar target '/' = true) :
    let way := (stages target).map goTo
    let t := (s.process line).session
    (s.Succeeds line ↔ s.SucceedsAll way) ∧
    (s.Succeeds line → t.current = (s.after way).current ∧ t.world = (s.after way).world) ∧
    (∀ e, s.Refuses line e ↔
      ∃ first place rest e', stages target = first ++ place :: rest ∧
        s.BreaksOff (first.map goTo) (goTo place) e' ∧ e = e'.onPath place target) ∧
    (∀ e, s.Refuses line e → t.current = s.current ∧ t.world = s.world) := by
  intro way t
  have hword : Text.IsWord target :=
    Text.isWord_of_mem_words (Command.mem_words_of_mem_args hline List.mem_cons_self)
  have hstages := isSegment_of_mem_stages hword
  have hdestination := destination_of_path s hslash
  have hsucceeds : s.Succeeds line ↔ s.SucceedsAll way := by
    rw [succeeds_cd_iff hline, hdestination]
    simp only [walk_eq_ok hstages]
    exact ⟨fun ⟨_, hall, _⟩ => hall, fun hall => ⟨_, hall, rfl⟩⟩
  refine ⟨hsucceeds, ?_, ?_, ?_⟩
  · intro h
    obtain ⟨hwalk, hworld⟩ := walk_of_succeedsAll target hstages (hsucceeds.1 h)
    have hgame := sameGame_cd hline (hdestination.trans hwalk)
    exact ⟨hgame.current, hgame.world.trans hworld.symm⟩
  · intro e
    rw [refuses_cd_iff hline, hdestination]
    exact walk_eq_error hstages
  · intro e h
    exact ⟨h.sameGame.current, h.sameGame.world⟩

/-- Slashes that stand together or at an end count for nothing. -/
theorem path_stages_of_doubled_slash :
    let line := "cd /projects//hidden_vault/../"
    Command.ofLine? line = some ⟨.cd, ["/projects//hidden_vault/../"]⟩ ∧
    Text.hasChar "/projects//hidden_vault/../" '/' = true ∧
    start.SucceedsAll ["cd ~", "cd projects", "cd hidden_vault", "cd .."] ∧
    (start.process line).session.current = LocationId.projects := by
  intro line
  have hline : Command.ofLine? line = some ⟨.cd, ["/projects//hidden_vault/../"]⟩ := by
    decide +kernel
  have hslash : Text.hasChar "/projects//hidden_vault/../" '/' = true := by decide +kernel
  have hway : (stages "/projects//hidden_vault/../").map goTo =
      ["cd ~", "cd projects", "cd hidden_vault", "cd .."] := by decide +kernel
  have hnext : start.destination "/projects//hidden_vault/../" = .ok LocationId.projects := by
    decide +kernel
  have hall := (path_stages start line _ hline hslash).1.1 ((succeeds_cd_iff hline).2 ⟨_, hnext⟩)
  rw [hway] at hall
  exact ⟨hline, hslash, hall, (sameGame_cd hline hnext).current⟩

end Session

end ShellQuest
