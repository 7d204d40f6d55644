/-
# Ways down and up

A segment of a path that is neither the way up nor home is taken by name, and the exits of a directory
have different names, so it leads to the one directory below that has the name (`step_eq_ok`).  Walking
names is therefore going down the tree (`walk_eq_ok_iff_descends`): the names on the way down from home
are an address that works from everywhere, and whoever walks down by names comes back by as many steps
up (`walk_up`).
-/
import ShellQuest.Proofs.Session.Named
import ShellQuest.Proofs.Session.Paths
import ShellQuest.Proofs.World.Lineage

namespace ShellQuest

/-! ## Paths written from segments -/

namespace Text

variable {segment : String} {segments : List String}

theorem IsSegment.head_ne (h : IsSegment segment) :
    ∃ c rest, segment.toList = c :: rest ∧ c ≠ '/' := by
  obtain ⟨⟨hne, -⟩, hslash⟩ := h
  obtain ⟨c, rest, hchars⟩ := List.exists_cons_of_ne_nil hne
  refine ⟨c, rest, hchars, ?_⟩
  rintro rfl
  rw [hasChar, hchars] at hslash
  simp at hslash

theorem segments_intercalate (h : ∀ segment ∈ segments, IsSegment segment) :
    Text.segments ("/".intercalate segments) = segments := by
  refine texts_pieces_intercalate (c := '/') (by decide) (by decide) fun segment hsegment => ?_
  obtain ⟨⟨hne, -⟩, hslash⟩ := h segment hsegment
  refine ⟨hne, fun d hd => ?_⟩
  rw [beq_eq_false_iff_ne]
  rintro rfl
  rw [hasChar, List.contains_iff_mem.2 hd] at hslash
  cases hslash

theorem segments_slash_append (path : String) : Text.segments ("/" ++ path) = Text.segments path := by
  have hchars : ("/" ++ path).toList = '/' :: path.toList := by
    rw [String.toList_append]
    rfl
  rw [Text.segments, hchars, pieces_cons_gap rfl, Text.segments]

theorem nonBlank_slash : All (isBlank · = false) "/" := List.forall_mem_singleton.2 (by decide)

theorem nonBlank_path (h : ∀ segment ∈ segments, IsSegment segment) :
    All (isBlank · = false) ("/".intercalate segments) :=
  All.intercalate nonBlank_slash fun segment hsegment => (h segment hsegment).1.2

theorem isWord_path (hne : segments ≠ []) (h : ∀ segment ∈ segments, IsSegment segment) :
    IsWord ("/".intercalate segments) := by
  refine ⟨?_, nonBlank_path h⟩
  intro hempty
  have hsegments := segments_intercalate h
  rw [Text.segments, hempty] at hsegments
  exact hne hsegments.symm

theorem isWord_slash_append {path : String} (h : All (isBlank · = false) path) :
    IsWord ("/" ++ path) := by
  refine ⟨?_, nonBlank_slash.append h⟩
  rw [String.toList_append]
  exact List.cons_ne_nil _ _

end Text

namespace World

/-- The path that leads down a way from home. -/
def address (w : World) (way : List LocationId) : String :=
  "/" ++ "/".intercalate (way.map fun i => (w.location i).name)

end World

namespace Session

open World

variable {w : World} {s t : Session} {path segment : String} {segments : List String}
  {here next top i : LocationId} {way : List LocationId}

/-- The segment can only be taken as the name of a directory. -/
def ByName (segment : String) : Prop := Text.IsSegment segment ∧ segment ≠ ".." ∧ segment ≠ "~"

instance (segment : String) : Decidable (ByName segment) := inferInstanceAs (Decidable (_ ∧ _))

theorem byName_of_isName (h : IsName segment) : ByName segment := by
  obtain ⟨hword, hreserved⟩ := isName_iff.1 h
  exact ⟨⟨hword, hasChar_of_isReservedName hreserved⟩, h.ne_up, h.ne_home⟩

/-! ## One step -/

/-- A name is refused where a file has it, or where it leads up. -/
theorem step_of_exitNamed {path : Option String} (hsegment : ByName segment)
    (h : w.exitNamed here segment = some next) :
    step w path here segment =
      if (w.location here).hasItem segment then .error (.notADirectory segment)
      else if w.parentOf here = some next then
        .error (if next = LocationId.home then .homeByName
          else .parentByName segment (w.location here).name)
      else .ok next := by
  unfold step
  rw [if_neg hsegment.2.2, if_neg hsegment.2.1, h]

/-- A name leads to the directory below that has it, unless a file here has it too. -/
theorem step_eq_ok {path : Option String} (hw : w.Graph) (hsigns : w.Signposted)
    (hhere : here < w.size) (hsegment : ByName segment) :
    step w path here segment = .ok next ↔
      w.parentOf next = some here ∧ (w.location next).name = segment ∧
        segment ∉ (w.location here).items := by
  constructor
  · intro h
    cases hexit : w.exitNamed here segment with
    | none =>
        unfold step at h
        rw [if_neg hsegment.2.2, if_neg hsegment.2.1, hexit] at h
        split at h
        · cases h
        · cases h
    | some exit =>
        rw [step_of_exitNamed hsegment hexit] at h
        split at h
        · cases h
        · next hitem =>
          split at h
          · cases h
          · next hup =>
            cases h
            obtain ⟨hmem, hname⟩ := exitNamed_eq_some hexit
            have hdown := ((hw.mem_exits_iff hhere).1 hmem).resolve_left hup
            exact ⟨hdown, hname, Location.hasItem_eq_false.1 (by simpa using hitem)⟩
  · rintro ⟨hdown, hname, hitem⟩
    have hexit := (hsigns.exitNamed_iff hhere).2 ⟨(hw.mem_exits_iff hhere).2 (.inr hdown), hname⟩
    have hup : w.parentOf here ≠ some next := hw.parentOf_asymm hdown
    rw [step_of_exitNamed hsegment hexit, if_neg (by simpa using hitem), if_neg hup]

theorem step_up {path : Option String} (h : w.parentOf here = some next) :
    step w path here ".." = .ok next := by
  unfold step
  rw [if_neg (by decide), if_pos rfl, h]

/-! ## Many steps -/

/-- Names are walked from a directory exactly if they are those of an open way down from it. -/
theorem walk_eq_ok_iff_descends (hw : w.Graph) (hsigns : w.Signposted) (hhere : here < w.size)
    (hsegments : ∀ segment ∈ segments, ByName segment) :
    walk w path here segments = .ok next ↔
      ∃ way, w.Descends here way ∧ w.Open way ∧
        way.map (fun i => (w.location i).name) = segments ∧ way.getLastD here = next := by
  induction segments generalizing here with
  | nil =>
      constructor
      · intro h
        cases h
        exact ⟨[], descends_nil w _, nofun, rfl, rfl⟩
      · rintro ⟨way, -, -, hnames, rfl⟩
        rw [List.map_eq_nil_iff.1 hnames]
        rfl
  | cons segment segments ih =>
      obtain ⟨hsegment, hsegments⟩ := List.forall_mem_cons.1 hsegments
      constructor
      · intro h
        rw [walk] at h
        split at h
        · next below hstep =>
          obtain ⟨hdown, hname, hitem⟩ := (step_eq_ok hw hsigns hhere hsegment).1 hstep
          have hbelow := hw.lt_size_of_parentOf hdown
          obtain ⟨way, hway, hopen, hnames, hlast⟩ := (ih hbelow hsegments).1 h
          refine ⟨below :: way, descends_cons.2 ⟨hdown, hway⟩, (open_cons hdown).2 ⟨?_, hopen⟩, ?_, ?_⟩
          · rw [hname]
            exact hitem
          · rw [List.map_cons, hname, hnames]
          · rw [List.getLastD_cons, hlast]
        · cases h
      · rintro ⟨way, hway, hopen, hnames, hlast⟩
        obtain ⟨below, rest, rfl, hname, hrest⟩ := List.map_eq_cons_iff.1 hnames
        obtain ⟨hdown, hway⟩ := descends_cons.1 hway
        obtain ⟨hitem, hopen⟩ := (open_cons hdown).1 hopen
        rw [hname] at hitem
        rw [List.getLastD_cons] at hlast
        have hbelow := hw.lt_size_of_parentOf hdown
        rw [walk, (step_eq_ok hw hsigns hhere hsegment).2 ⟨hdown, hname, hitem⟩]
        exact (ih hbelow hsegments).2 ⟨rest, hway, hopen, hrest, hlast⟩

theorem walk_up (path : String) (h : w.Descends top way) :
    walk w path (way.getLastD top) (List.replicate way.length "..") = .ok top := by
  -- the last step down is the first one up
  induction way using List.reverseRecOn with
  | nil => rfl
  | append_singleton way i ih =>
      obtain ⟨hway, hi⟩ := descends_append.1 h
      rw [List.getLastD_concat, List.length_append, List.length_singleton, List.replicate_succ, walk,
        step_up (descends_singleton.1 hi)]
      exact ih hway

theorem exists_walk_take (h : walk w path here segments = .ok next) (n : Nat) :
    ∃ between, walk w path here (segments.take n) = .ok between := by
  rw [← List.take_append_drop n segments, walk_append] at h
  cases hfirst : walk w path here (segments.take n) with
  | ok between => exact ⟨between, rfl⟩
  | error e =>
      rw [hfirst] at h
      cases h

theorem depth_of_walk (hw : w.Graph) (hsigns : w.Signposted) (hhere : here < w.size)
    (hsegments : ∀ segment ∈ segments, ByName segment) (h : walk w path here segments = .ok next) :
    w.depth next = w.depth here + segments.length := by
  obtain ⟨way, hway, -, hnames, rfl⟩ := (walk_eq_ok_iff_descends hw hsigns hhere hsegments).1 h
  rw [hway.depth_getLastD hw, ← hnames, List.length_map]

/-! ## Paths as arguments -/

theorem destination_slash_append (s : Session) (h : ∀ segment ∈ segments, Text.IsSegment segment) :
    s.destination ("/" ++ "/".intercalate segments) =
      walk s.world ("/" ++ "/".intercalate segments) LocationId.home segments := by
  have hchars : ("/" ++ "/".intercalate segments).toList =
      '/' :: ("/".intercalate segments).toList := by
    rw [String.toList_append]
    rfl
  have hslash : Text.hasChar ("/" ++ "/".intercalate segments) '/' = true := by
    rw [Text.hasChar, hchars]
    simp
  have hroot : Text.startsWith ("/" ++ "/".intercalate segments) "/" = true := by
    rw [Text.startsWith, hchars]
    rfl
  rw [destination, if_pos hslash, if_pos hroot, Text.segments_slash_append,
    Text.segments_intercalate h]

theorem destination_intercalate (s : Session) (hne : segments ≠ [])
    (h : ∀ segment ∈ segments, Text.IsSegment segment) :
    s.destination ("/".intercalate segments) = .ok next ↔
      walk s.world ("/".intercalate segments) s.current segments = .ok next := by
  match segments, hne, h with
  | [segment], _, h =>
      -- a single segment is no path, and is looked up without one
      have hsegment := h segment List.mem_cons_self
      rw [String.intercalate_singleton, destination_of_isSegment s hsegment, walk, step_on_path]
      cases step s.world none s.current segment with
      | ok below => exact Iff.rfl
      | error e =>
          refine iff_of_false (fun h => ?_) (fun h => ?_)
          · cases h
          · cases h
  | first :: second :: rest, _, h =>
      obtain ⟨c, chars, hfirst, hc⟩ := (h first List.mem_cons_self).head_ne
      have hchars : ∃ later, ("/".intercalate (first :: second :: rest)).toList =
          c :: (chars ++ '/' :: later) := by
        refine ⟨("/".intercalate (second :: rest)).toList, ?_⟩
        rw [String.intercalate_cons_cons, String.toList_append, String.toList_append, hfirst,
          List.append_assoc]
        rfl
      have hsegments := Text.segments_intercalate h
      generalize "/".intercalate (first :: second :: rest) = path at hchars hsegments ⊢
      obtain ⟨later, hchars⟩ := hchars
      have hslash : Text.hasChar path '/' = true := by
        rw [Text.hasChar, hchars]
        simp
      have hroot : Text.startsWith path "/" = false := by
        rw [Text.startsWith, hchars]
        simp [List.isPrefixOf, Ne.symm hc]
      rw [destination, if_pos hslash, if_neg (by simp [hroot]), hsegments]

theorem ofLine?_goTo_of_isWord (hpath : Text.IsWord path) :
    Command.ofLine? (goTo path) = some ⟨.cd, [path]⟩ :=
  (Command.Plain.of_word (by decide) rfl hpath).ofLine?_written

/-! ## Addresses -/

theorem byName_of_mem_names (hw : w.Graph) (hnamed : w.Named IsName) (h : w.Descends top way) :
    ∀ segment ∈ way.map fun i => (w.location i).name, ByName segment := by
  intro segment hsegment
  obtain ⟨i, hi, rfl⟩ := List.mem_map.1 hsegment
  exact byName_of_isName (hnamed.directory i (h.lt_size hw i hi))

/-- An address leads to the end of its way, and works only if the way is open. -/
theorem destination_address (hs : s.Placed) (hsigns : s.world.Signposted)
    (hnamed : s.world.Named IsName) (h : s.world.Descends LocationId.home way) :
    s.destination (s.world.address way) = .ok next ↔
      s.world.Open way ∧ way.getLastD LocationId.home = next := by
  have hw := hs.charted.graph
  have hnames := byName_of_mem_names hw hnamed h
  rw [address, destination_slash_append s fun segment hsegment => (hnames segment hsegment).1,
    walk_eq_ok_iff_descends hw hsigns hw.home_lt hnames]
  constructor
  · rintro ⟨other, hother, hopen, hsame, hlast⟩
    rw [hother.eq_of_map_name h hw hsigns hsame] at hopen hlast
    exact ⟨hopen, hlast⟩
  · rintro ⟨hopen, hlast⟩
    exact ⟨way, h, hopen, rfl, hlast⟩

theorem ofLine?_address (hw : w.Graph) (hnamed : w.Named IsName) (h : w.Descends top way) :
    Command.ofLine? (goTo (w.address way)) = some ⟨.cd, [w.address way]⟩ := by
  have hnames := byName_of_mem_names hw hnamed h
  exact ofLine?_goTo_of_isWord (Text.isWord_slash_append
    (Text.nonBlank_path fun segment hsegment => (hnames segment hsegment).1))

def standingAt (s : Session) (here : LocationId) : Session := { s with current := here }

/-- The lines that go up a number of times. -/
def climbs (n : Nat) : List String := List.replicate n (goTo "..")

theorem isSegment_of_mem_replicate {place : String} {n : Nat} (h : place ∈ List.replicate n "..") :
    Text.IsSegment place := by
  rw [List.eq_of_mem_replicate h]
  decide

/-- Lines that go up from the end of a way lead back to where it starts. -/
theorem after_climbs (h : s.world.Descends top way) (hcurrent : s.current = way.getLastD top) :
    s.SucceedsAll (climbs way.length) ∧ (s.after (climbs way.length)).current = top ∧
      (s.after (climbs way.length)).world = s.world := by
  have hplaces : ∀ place ∈ List.replicate way.length "..", Text.IsSegment place :=
    fun _ => isSegment_of_mem_replicate
  have hup := walk_up "" h
  rw [← hcurrent, walk_eq_ok hplaces, List.map_replicate] at hup
  have hworld := (walk_of_succeedsAll (s := s) "" hplaces (by rw [List.map_replicate]; exact hup.1)).2
  rw [List.map_replicate] at hworld
  exact ⟨hup.1, hup.2, hworld⟩

theorem current_after_climbs {n : Nat} (h : s.world.Descends top way)
    (hcurrent : s.current = way.getLastD top) (hn : n ≤ way.length) :
    s.SucceedsAll (climbs n) ∧
      (s.after (climbs n)).current = (way.take (way.length - n)).getLastD top := by
  have hlength : (way.drop (way.length - n)).length = n := by
    rw [List.length_drop, Nat.sub_sub_self hn]
  rw [← List.take_append_drop (way.length - n) way, getLastD_append] at hcurrent
  have hup := after_climbs (h.take_drop (way.length - n)).2 hcurrent
  rw [hlength] at hup
  exact ⟨hup.1, hup.2.1⟩

theorem refuses_up_of_home (hw : s.world.Graph) (h : s.current = LocationId.home) :
    s.Refuses (goTo "..") .atRoot := by
  have hup : Text.IsSegment ".." := by decide
  rw [refuses_cd_iff (ofLine?_goTo hup), destination_of_isSegment s hup, h]
  unfold step
  rw [if_neg (by decide), if_pos rfl, hw.parentOf_home]
  rfl

/-- From a directory, each line that goes up takes the last step off its lineage, until home is reached
and the next one is refused. -/
theorem climbs_home (hw : s.world.Graph) (h : s.world.Descends LocationId.home way)
    (hcurrent : s.current = way.getLastD LocationId.home) :
    (∀ n ≤ way.length,
      s.SucceedsAll (climbs n) ∧
      s.world.lineage (s.after (climbs n)).current = way.take (way.length - n) ∧
      ((s.after (climbs n)).current = LocationId.home ↔ n = way.length)) ∧
    (s.after (climbs way.length)).Refuses (goTo "..") .atRoot := by
  constructor
  · intro n hn
    obtain ⟨hall, hplace⟩ := current_after_climbs h hcurrent hn
    have hlineage : s.world.lineage (s.after (climbs n)).current = way.take (way.length - n) := by
      rw [hplace, (h.take_drop _).1.lineage_getLastD hw, hw.lineage_home, List.nil_append]
    refine ⟨hall, hlineage, ?_, ?_⟩
    · intro hhome
      have hzero := congrArg List.length hlineage
      rw [hhome, hw.lineage_home, List.length_take, List.length_nil] at hzero
      omega
    · rintro rfl
      rw [hplace, Nat.sub_self]
      rfl
  · obtain ⟨-, hplace, hworld⟩ := after_climbs h hcurrent
    refine refuses_up_of_home ?_ hplace
    rw [hworld]
    exact hw

/-- **Every directory has an address.**  In every game there is exactly one way down from home to each
other directory.  The path that starts with a slash and names the directories of that way leads there
from wherever the player stands, exactly if no file next to one of them has its name.  From the
directory, each `cd ..` takes the player one step of the way back, so that home is reached after as many
of them as the way has steps, and then `cd ..` is refused. -/
theorem addresses_after (lines : List String) :
    let s := start.after lines
    ∀ i < s.world.size, i ≠ LocationId.home →
      let way := s.world.lineage i
      (way ≠ [] ∧ s.world.Descends LocationId.home way ∧ way.getLastD LocationId.home = i ∧
        ∀ other, s.world.Descends LocationId.home other → other.getLastD LocationId.home = i →
          other = way) ∧
      (∀ here < s.world.size,
        let t := s.standingAt here
        let line := goTo (s.world.address way)
        (t.Succeeds line ↔ s.world.Open way) ∧
        (t.Succeeds line → (t.process line).session.current = i)) ∧
      let t := s.standingAt i
      (∀ n ≤ way.length,
        t.SucceedsAll (climbs n) ∧
        s.world.lineage (t.after (climbs n)).current = way.take (way.length - n) ∧
        ((t.after (climbs n)).current = LocationId.home ↔ n = way.length)) ∧
      (t.after (climbs way.length)).Refuses (goTo "..") .atRoot := by
  intro s i hi hne way
  have hs : s.Placed := Placed.after lines
  have hw := hs.charted.graph
  have hsigns : s.world.Signposted := signposted_after lines
  have hnamed : s.world.Named IsName := named_isName_after lines
  obtain ⟨hway, hlast⟩ : s.world.Descends LocationId.home way ∧ way.getLastD LocationId.home = i :=
    hw.descends_lineage hi
  refine ⟨⟨?_, hway, hlast, ?_⟩, ?_, climbs_home (s := s.standingAt i) hw hway hlast.symm⟩
  · intro hempty
    rw [hempty] at hlast
    exact hne hlast.symm
  · intro other hother hend
    rw [hother.eq_lineage hw, hend]
  · intro here hhere t line
    have ht : t.Placed := ⟨hs.charted, hhere⟩
    have hline : Command.ofLine? line = some ⟨.cd, [s.world.address way]⟩ :=
      ofLine?_address hw hnamed hway
    have hdestination : ∀ next, t.destination (s.world.address way) = .ok next ↔
        s.world.Open way ∧ i = next := by
      intro next
      rw [← hlast]
      exact destination_address ht hsigns hnamed hway
    have hsucceeds : t.Succeeds line ↔ s.world.Open way := by
      rw [succeeds_cd_iff hline]
      simp only [hdestination, exists_and_left, exists_eq', and_true]
    refine ⟨hsucceeds, fun h => ?_⟩
    exact (sameGame_cd hline ((hdestination i).2 ⟨hsucceeds.1 h, rfl⟩)).current

/-- A directory has its address also where names of directories above it come again below. -/
theorem addresses_of_namesakes :
    let lines := ["cd projects/hidden_vault", "mkdir home", "cd home", "mkdir projects"]
    let deepest : LocationId := 6
    let s := start.after lines
    let t := s.standingAt LocationId.documents
    let line := goTo (s.world.address (s.world.lineage deepest))
    (deepest < s.world.size ∧ deepest ≠ LocationId.home ∧ LocationId.documents < s.world.size) ∧
    line = "cd /projects/hidden_vault/home/projects" ∧
    t.Succeeds line ∧ (t.process line).session.current = deepest := by
  intro lines deepest
  have hsize : deepest < (start.after lines).world.size := by decide +kernel
  have hne : deepest ≠ LocationId.home := by decide +kernel
  have hhere : LocationId.documents < (start.after lines).world.size := by decide +kernel
  have hline : goTo ((start.after lines).world.address ((start.after lines).world.lineage deepest)) =
      "cd /projects/hidden_vault/home/projects" := by decide +kernel
  have hopen : (start.after lines).world.Open ((start.after lines).world.lineage deepest) := by
    decide +kernel
  -- from here on the game counts as any game, so that none of it is played again
  clear_value lines deepest
  have hleads := (addresses_after lines deepest hsize hne).2.1 LocationId.documents hhere
  exact ⟨⟨hsize, hne, hhere⟩, hline, hleads.1.2 hopen, hleads.2 (hleads.1.2 hopen)⟩

/-! ## Back up -/

def upward (n : Nat) : String := "/".intercalate (List.replicate n "..")

/-- **What goes down comes up.**  In every game, a path of names that leads somewhere is followed back by
the path of as many steps up, and each of the names has led one deeper than the one before. -/
theorem upward_after (lines segments : List String) (hne : segments ≠ [])
    (hsegments : ∀ segment ∈ segments, Text.IsSegment segment ∧ segment ≠ ".." ∧ segment ≠ "~") :
    let s := start.after lines
    let path := "/".intercalate segments
    let t := (s.process (goTo path)).session
    s.Succeeds (goTo path) →
      (t.Succeeds (goTo (upward segments.length)) ∧
        (t.process (goTo (upward segments.length))).session.current = s.current) ∧
      ∀ n < segments.length, ∃ p q,
        walk s.world path s.current (segments.take n) = .ok p ∧
        walk s.world path s.current (segments.take (n + 1)) = .ok q ∧
        s.world.depth p < s.world.depth q := by
  intro s path t hdown
  have hs : s.Placed := Placed.after lines
  have hw := hs.charted.graph
  have hsigns : s.world.Signposted := signposted_after lines
  have hplain : ∀ segment ∈ segments, Text.IsSegment segment := fun segment h => (hsegments segment h).1
  have hline : Command.ofLine? (goTo path) = some ⟨.cd, [path]⟩ :=
    ofLine?_goTo_of_isWord (Text.isWord_path hne hplain)
  obtain ⟨next, hnext⟩ := (succeeds_cd_iff hline).1 hdown
  have hwalk := (destination_intercalate s hne hplain).1 hnext
  have ht : SameGame t { s with current := next } := sameGame_cd hline hnext
  refine ⟨?_, ?_⟩
  · obtain ⟨way, hway, -, hnames, hlast⟩ :=
      (walk_eq_ok_iff_descends hw hsigns hs.current_lt hsegments).1 hwalk
    have hlength : way.length = segments.length := by rw [← hnames, List.length_map]
    have hups : ∀ place ∈ List.replicate segments.length "..", Text.IsSegment place :=
      fun _ => isSegment_of_mem_replicate
    have hups_ne : List.replicate segments.length ".." ≠ [] := by simpa using hne
    have hup : Command.ofLine? (goTo (upward segments.length)) =
        some ⟨.cd, [upward segments.length]⟩ :=
      ofLine?_goTo_of_isWord (Text.isWord_path hups_ne hups)
    have hback : t.destination (upward segments.length) = .ok s.current := by
      refine (destination_intercalate t hups_ne hups).2 ?_
      rw [ht.world, ht.current, ← hlast, ← hlength]
      exact walk_up _ hway
    exact ⟨(succeeds_cd_iff hup).2 ⟨_, hback⟩, (sameGame_cd hup hback).current⟩
  · intro n hn
    obtain ⟨p, hp⟩ := exists_walk_take hwalk n
    obtain ⟨q, hq⟩ := exists_walk_take hwalk (n + 1)
    have hdepth : ∀ {m place}, walk s.world path s.current (segments.take m) = .ok place →
        s.world.depth place = s.world.depth s.current + (segments.take m).length :=
      depth_of_walk hw hsigns hs.current_lt fun segment h => hsegments segment (List.mem_of_mem_take h)
    refine ⟨p, q, hp, hq, ?_⟩
    rw [hdepth hp, hdepth hq, List.length_take, List.length_take]
    omega

/-- The way back leads past directories that have the names of those above them. -/
theorem upward_of_namesakes :
    let lines := ["cd projects/hidden_vault", "mkdir home", "cd home", "mkdir projects", "cd /projects"]
    let segments := ["hidden_vault", "home", "projects"]
    let s := start.after lines
    let line := goTo ("/".intercalate segments)
    let t := (s.process line).session
    let back := goTo (upward segments.length)
    (segments ≠ [] ∧ ∀ segment ∈ segments, Text.IsSegment segment ∧ segment ≠ ".." ∧ segment ≠ "~") ∧
    line = "cd hidden_vault/home/projects" ∧ s.Succeeds line ∧
    back = "cd ../../.." ∧ t.Succeeds back ∧ (t.process back).session.current = s.current := by
  intro lines segments
  have hne : segments ≠ [] := List.cons_ne_nil _ _
  have hsegments : ∀ segment ∈ segments,
      Text.IsSegment segment ∧ segment ≠ ".." ∧ segment ≠ "~" := by decide +kernel
  have hline : goTo ("/".intercalate segments) = "cd hidden_vault/home/projects" := by decide +kernel
  have hback : goTo (upward segments.length) = "cd ../../.." := by decide +kernel
  have hcommand : Command.ofLine? (goTo ("/".intercalate segments)) =
      some ⟨.cd, ["hidden_vault/home/projects"]⟩ := by decide +kernel
  have hnext : (start.after lines).destination "hidden_vault/home/projects" = .ok 6 := by
    decide +kernel
  -- from here on the game counts as any game, so that none of it is played again
  clear_value lines segments
  have hsucceeds := (succeeds_cd_iff hcommand).2 ⟨6, hnext⟩
  have hreturns := (upward_after lines segments hne hsegments hsucceeds).1
  exact ⟨⟨hne, hsegments⟩, hline, hsucceeds, hback, hreturns.1, hreturns.2⟩

end Session

end ShellQuest
