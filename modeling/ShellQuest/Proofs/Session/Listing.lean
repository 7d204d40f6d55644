/-
# What `ls` says

A bare `ls` puts single spaces between the names of the files where the player stands and the marked
names of the directories below.  No name is empty and none holds a space, so cutting the listing at its
spaces gives these names back, each as it is (`listing_eq`, `entries_intercalate`); and as the exits of a
directory have different names, and its files too, no file comes twice and no directory.  The two lists
are not kept apart: only reserved names are refused, so the name of a file may be spelled like the marked
name of a directory, with the escapes and all.  Such a file looks like the directory, or like the way up,
and there is no other way to it (`listing_after`, `entry_repeated_after_touch`).

With an argument, `ls` lists nothing and may advise to go there first.  It looks at all exits for that,
the way up included, and at no file, so the advice is good exactly for what a bare `ls` lists as a
directory and no file stands in the way of (`advice_after`).
-/
import ShellQuest.Proofs.Session.Addresses
import ShellQuest.Proofs.Session.ControlFree
import ShellQuest.Proofs.Session.Removal

namespace ShellQuest

/-! ## Marked names -/

namespace Markup

theorem directory_injective : Function.Injective directory := by
  intro name other h
  unfold directory at h
  exact (String.append_right_inj _).1 ((String.append_left_inj _).1 h)

theorem escape_mem_directory (name : String) : '\x1b' ∈ (directory name).toList := by
  unfold directory
  rw [String.toList_append, List.mem_append]
  exact .inr (by decide)

end Markup

/-! ## The directories below -/

namespace World

variable {w : World} {i j up : LocationId} {name : String}

namespace Graph

theorem mem_children_iff (hw : w.Graph) : j ∈ w.children i ↔ w.parentOf j = some i := by
  rw [mem_children, hw.parentOf_eq_some]

/-- Without the way up, the exits of a directory are the directories below it. -/
theorem childExits_eq (hw : w.Graph) (hi : i < w.size) :
    w.childExits i = (w.children i).map w.location := by
  -- the recorded exits are the way up and then the ways down, and the filter parts them there
  have hup : (w.location i).parent.toList.filter (fun e => some e != w.parentOf i) = [] := by
    rw [List.filter_eq_nil_iff]
    intro e he
    rw [hw.parentOf_eq hi, Option.mem_toList.1 he]
    simp
  have hdown : (w.children i).filter (fun e => some e != w.parentOf i) = w.children i := by
    rw [List.filter_eq_self]
    intro e he
    rw [bne_iff_ne]
    exact (hw.parentOf_asymm (hw.mem_children_iff.1 he)).symm
  rw [childExits, hw.exits_eq i hi, List.filter_append, hup, hdown, List.nil_append]

theorem not_mem_children_of_parentOf (hw : w.Graph) (hsigns : w.Signposted)
    (h : w.parentOf i = some up) :
    up ∉ w.children i ∧ ∀ j ∈ w.children i, (w.location j).name ≠ (w.location up).name := by
  have hi := hw.lt_size_of_parentOf h
  have hup : up ∉ w.children i := fun hmem => hw.parentOf_asymm h (hw.mem_children_iff.1 hmem)
  refine ⟨hup, fun j hj hname => hup ?_⟩
  have hdown : j ∈ (w.location i).exits := (hw.mem_exits_iff hi).2 (.inr (hw.mem_children_iff.1 hj))
  have habove : up ∈ (w.location i).exits := (hw.mem_exits_iff hi).2 (.inl h)
  rwa [List.inj_on_of_nodup_map (hsigns i hi) hdown habove hname] at hj

theorem mem_children_iff_of_exitNamed (hw : w.Graph) (hi : i < w.size) (h : w.exitNamed i name = some j) :
    j ∈ w.children i ↔ w.parentOf i ≠ some j := by
  rw [hw.mem_children_iff]
  constructor
  · exact hw.parentOf_asymm
  · exact ((hw.mem_exits_iff hi).1 (exitNamed_eq_some h).1).resolve_left

theorem children_names_nodup (hw : w.Graph) (hsigns : w.Signposted) (hi : i < w.size) :
    ((w.children i).map fun j => (w.location j).name).Nodup := by
  have hnames := hsigns i hi
  rw [hw.exits_eq i hi, List.map_append] at hnames
  exact (List.nodup_append.1 hnames).2.1

end Graph

namespace Charted

variable {a r : LocationId}

theorem parentOf_archive (hw : w.Charted) (ha : w.archive = some a) :
    w.parentOf a = some LocationId.downloads :=
  hw.graph.parentOf_eq_some.2 ⟨hw.archive_lt a ha, hw.archive_parent a ha⟩

/-- The relics lie below the archive: the way up from there is downloads, which has another name. -/
theorem parentOf_relics (hw : w.Charted) (hr : w.relics = some r) : w.parentOf r = w.archive := by
  obtain ⟨a, ha, hexit⟩ := relics_eq_some.1 hr
  obtain ⟨hmem, hname⟩ := exitNamed_eq_some hexit
  rcases (hw.graph.mem_exits_iff (hw.archive_lt a ha)).1 hmem with hup | hdown
  · rw [hw.parentOf_archive ha, Option.some.injEq] at hup
    rw [← hup, hw.seeded_name (by decide)] at hname
    exact absurd hname (by decide)
  · rw [hdown, ha]

end Charted

theorem children_pairwise (w : World) (i : LocationId) : (w.children i).Pairwise (· < ·) :=
  List.pairwise_lt_range.filter _

end World

/-! ## Entries -/

namespace Session

open World

variable {s : Session} {line target : String} {rest : List String} {i next up : LocationId}
  {e : CommandError}

/-- What a listing lists: what stands between its single spaces, and nothing if it is empty. -/
def entries (listing : String) : List String :=
  if listing.isEmpty then [] else (listing.toList.splitOn ' ').map String.ofList

/-- A text that a listing can hold as one of its entries. -/
def IsEntry (text : String) : Prop := text ≠ "" ∧ Text.All (· ≠ ' ') text

theorem isEntry_of_isName {name : String} (h : IsName name) : IsEntry name := by
  obtain ⟨⟨hne, hblank⟩, -⟩ := isName_iff.1 h
  refine ⟨fun hempty => hne (String.toList_eq_nil_iff.2 hempty), ?_⟩
  rintro c hc rfl
  exact absurd (hblank ' ' hc) (by decide)

theorem isEntry_directory {name : String} (h : IsName name) : IsEntry (Markup.directory name) := by
  have hopened : Text.All (· ≠ ' ') "\x1b[34m" := Text.all_ne_iff.2 (by decide)
  have hclosed : Text.All (· ≠ ' ') Markup.plain := Text.all_ne_iff.2 (by decide)
  refine ⟨fun hempty => ?_, (hopened.append (isEntry_of_isName h).2).append hclosed⟩
  exact absurd (String.append_eq_empty_iff.1 hempty).2 (by decide)

theorem intercalate_ne_empty {text : String} (texts : List String) (h : text ≠ "") :
    " ".intercalate (text :: texts) ≠ "" := by
  cases texts with
  | nil =>
      rw [String.intercalate_singleton]
      exact h
  | cons next texts =>
      rw [String.intercalate_cons_cons]
      intro hempty
      exact absurd (String.append_eq_empty_iff.1 (String.append_eq_empty_iff.1 hempty).1).2 (by decide)

theorem entries_intercalate {texts : List String} (h : ∀ text ∈ texts, IsEntry text) :
    entries (" ".intercalate texts) = texts := by
  cases texts with
  | nil => rfl
  | cons text rest =>
      have hne := intercalate_ne_empty rest (h text List.mem_cons_self).1
      have hsep : " ".toList = [' '] := by decide
      have hspaces : ∀ part ∈ (text :: rest).map String.toList, ' ' ∉ part := by
        intro part hpart
        obtain ⟨text, htext, rfl⟩ := List.mem_map.1 hpart
        exact Text.all_ne_iff.1 (h text htext).2
      rw [entries, if_neg (by rwa [String.isEmpty_iff]), String.toList_intercalate, hsep,
        List.splitOn_intercalate _ hspaces (List.cons_ne_nil _ _), List.map_map]
      simp [Function.comp_def]

/-- The names of the files where the player stands, and then the marked names of the directories below in
the order of their creation. -/
def shown (s : Session) : List String :=
  s.here.items ++
    (s.world.children s.current).map fun i => Markup.directory (s.world.location i).name

theorem isEntry_of_mem_shown (hnamed : s.world.Named IsName) :
    ∀ text ∈ s.shown, IsEntry text := by
  intro text htext
  rcases List.mem_append.1 htext with hitem | hdirectory
  · exact isEntry_of_isName (hnamed.item s.current text hitem)
  · obtain ⟨i, hi, rfl⟩ := List.mem_map.1 hdirectory
    exact isEntry_directory (hnamed.directory i (mem_children.1 hi).1)

/-- Two lists of entries are listed one after the other, with a space between them only if both list
something. -/
theorem joined_eq {files directories : List String} (hfiles : ∀ text ∈ files, IsEntry text)
    (hdirectories : ∀ text ∈ directories, IsEntry text) :
    (if (" ".intercalate files).isEmpty || (" ".intercalate directories).isEmpty then
        " ".intercalate files ++ " ".intercalate directories
      else " ".intercalate files ++ " " ++ " ".intercalate directories) =
      " ".intercalate (files ++ directories) := by
  match files, directories with
  | [], directories => simp
  | file :: files, [] => simp
  | file :: files, directory :: directories =>
      have hfirst := intercalate_ne_empty files (hfiles file List.mem_cons_self).1
      have hsecond :=
        intercalate_ne_empty directories (hdirectories directory List.mem_cons_self).1
      rw [String.intercalate_append_of_ne_nil (List.cons_ne_nil _ _) (List.cons_ne_nil _ _), if_neg]
      simp [hfirst, hsecond]

theorem listing_eq (hs : s.Placed) (hnamed : s.world.Named IsName) :
    s.listing = " ".intercalate s.shown := by
  have hbelow : (s.world.childExits s.current).map (fun l => Markup.directory l.name) =
      (s.world.children s.current).map fun i => Markup.directory (s.world.location i).name := by
    rw [hs.charted.graph.childExits_eq hs.current_lt, List.map_map]
    rfl
  have hshown := isEntry_of_mem_shown hnamed
  rw [listing, hbelow]
  exact joined_eq (fun text h => hshown text (List.mem_append_left _ h))
    fun text h => hshown text (List.mem_append_right _ h)

theorem exists_carriesOut_ls (hs : s.Placed) (hnamed : s.world.Named IsName)
    (hline : Command.ofLine? line = some ⟨.ls, []⟩) :
    ∃ done, s.CarriesOut line ⟨.ls, []⟩ done ∧ entries done.output = s.shown := by
  refine ⟨.shows (s.noting (Text.trim line)) s.listing, ⟨hline, perform_ok.2 rfl⟩, ?_⟩
  rw [← entries_intercalate (isEntry_of_mem_shown hnamed), ← listing_eq hs hnamed]
  rfl

/-! ## Entries that look alike -/

/-- No file has the name of the directory above.  Only in the archive and in the relics can a file have
the name of an exit, and there the way up has a name that no file is brought under. -/
theorem Tidy.name_notMem_items_of_parentOf (hs : s.Tidy) (h : s.world.parentOf i = some up) :
    (s.world.location up).name ∉ (s.world.location i).items := by
  have hcharted := hs.placed.charted
  have hi := hcharted.graph.lt_size_of_parentOf h
  intro hitem
  have hexit : s.world.hasExit i (s.world.location up).name = true :=
    hasExit_iff.2 ⟨up, (hcharted.graph.mem_exits_iff hi).2 (.inl h), rfl⟩
  rcases hs.clash i _ ⟨hitem, hexit⟩ with ⟨harchive, hname⟩ | ⟨hrelics, hname⟩
  · rw [hcharted.parentOf_archive harchive, Option.some.injEq] at h
    rw [← h, hcharted.seeded_name (by decide)] at hname
    exact absurd hname (by decide)
  · rw [hcharted.parentOf_relics hrelics] at h
    rw [hcharted.archive_name up h] at hname
    exact absurd hname (by decide)

theorem nodup_append_marked {items names : List String} (hitems : items.Nodup) (hnames : names.Nodup) :
    (items ++ names.map Markup.directory).Nodup ↔ ∀ name ∈ names, Markup.directory name ∉ items := by
  have hmarked := hnames.map Markup.directory_injective
  rw [List.nodup_append]
  constructor
  · rintro ⟨-, -, happart⟩ name hname hitem
    exact happart _ hitem _ (List.mem_map_of_mem hname) rfl
  · refine fun h => ⟨hitems, hmarked, ?_⟩
    rintro item hitem _ hdirectory rfl
    obtain ⟨name, hname, rfl⟩ := List.mem_map.1 hdirectory
    exact h name hname hitem

/-- What was typed without control characters names no file like a directory. -/
theorem ControlFree.directory_notMem_items (hs : s.ControlFree) (name : String) :
    Markup.directory name ∉ (s.world.location i).items := by
  intro hitem
  have hfree := (hs.world.locations _ (location_mem (lt_size_of_mem_items hitem))).2.2 _ hitem
  exact absurd (hfree '\x1b' (Markup.escape_mem_directory name)) (by decide)

/-- **The listing is faithful.**  In every game a bare `ls` is carried out, and cut at its spaces, what it
shows is the names of the files where the player stands and then the marked names of the directories
below in the order of their creation.  The way up is not among these, nor is a directory of its name, and
no file has its name.  No file is listed twice and no directory.  So an entry comes twice exactly if a
file has the marked name of a directory below, and the way up seems to be listed exactly if a file has
its marked name; such a name holds an escape, and none is typed in a line that a server accepts. -/
theorem listing_after (lines : List String) (line : String)
    (hline : Command.ofLine? line = some ⟨.ls, []⟩) :
    let s := start.after lines
    let below := s.world.children s.current
    let items := s.here.items
    let marked := below.map fun i => Markup.directory (s.world.location i).name
    (∃ done banner, s.CarriesOut line ⟨.ls, []⟩ done ∧
      entries done.output = items ++ marked ∧
      (s.process line).response.result = banner ++ done.output ∧
      (banner = "" ∨ ∃ l, banner = Session.banner l)) ∧
    ((∀ i, i ∈ below ↔ s.world.parentOf i = some s.current) ∧ below.Pairwise (· < ·)) ∧
    (∀ up, s.world.parentOf s.current = some up →
      (up ∉ below ∧ ∀ i ∈ below, (s.world.location i).name ≠ (s.world.location up).name) ∧
      (s.world.location up).name ∉ items ∧
      (Markup.directory (s.world.location up).name ∈ items ++ marked ↔
        Markup.directory (s.world.location up).name ∈ items)) ∧
    (items.Nodup ∧ marked.Nodup ∧
      ((items ++ marked).Nodup ↔
        ∀ i ∈ below, Markup.directory (s.world.location i).name ∉ items)) ∧
    ((∀ item ∈ items, item ∈ marked → '\x1b' ∈ item.toList) ∧
      ((∀ line ∈ lines, InputLine.Playable line) →
        (items ++ marked).Nodup ∧ ∀ up, Markup.directory (s.world.location up).name ∉ items)) := by
  intro s below items marked
  have hs : s.Tidy := Tidy.after lines
  have hplaced := hs.placed
  have hw := hplaced.charted.graph
  have hsigns : s.world.Signposted := signposted_after lines
  have hnamed : s.world.Named IsName := named_isName_after lines
  have hitems : items.Nodup := hs.items_nodup _
  have hnames := hw.children_names_nodup hsigns hplaced.current_lt
  have hmarked : marked = (below.map fun i => (s.world.location i).name).map Markup.directory := by
    rw [List.map_map]
    rfl
  have hrepeats : (items ++ marked).Nodup ↔
      ∀ i ∈ below, Markup.directory (s.world.location i).name ∉ items := by
    rw [hmarked, nodup_append_marked hitems hnames, List.forall_mem_map]
  refine ⟨?_, ⟨fun i => hw.mem_children_iff, children_pairwise _ _⟩, fun up hup => ?_,
    ⟨hitems, ?_, hrepeats⟩, ?_, fun hplayable => ?_⟩
  · obtain ⟨done, hdone, hshown⟩ := exists_carriesOut_ls hplaced hnamed hline
    refine ⟨done, done.session.praise ⟨.ls, []⟩ true, hdone, hshown, hdone.result rfl, ?_⟩
    rcases grade_cases done.session ⟨.ls, []⟩ true with ⟨hpraise, -⟩ | ⟨l, -, hpraise, -⟩
    · exact .inl hpraise
    · exact .inr ⟨l, hpraise⟩
  · have hbelow := hw.not_mem_children_of_parentOf hsigns hup
    refine ⟨hbelow, hs.name_notMem_items_of_parentOf hup, ?_⟩
    rw [List.mem_append, hmarked, List.mem_map_of_injective Markup.directory_injective]
    refine or_iff_left fun hmem => ?_
    obtain ⟨i, hi, hname⟩ := List.mem_map.1 hmem
    exact hbelow.2 i hi hname
  · rw [hmarked]
    exact hnames.map Markup.directory_injective
  · intro item _ hitem
    obtain ⟨i, -, rfl⟩ := List.mem_map.1 hitem
    exact Markup.escape_mem_directory _
  · have hfree : s.ControlFree := ControlFree.after hplayable
    exact ⟨hrepeats.2 fun i _ => hfree.directory_notMem_items _,
      fun up => hfree.directory_notMem_items _⟩

/-- A directory that has the name of one further up is listed like any other. -/
theorem listing_of_namesake :
    let lines := ["cd projects/hidden_vault", "mkdir home", "touch plan", "mkdir treasure"]
    let s := start.after lines
    Command.ofLine? " LS " = some ⟨.ls, []⟩ ∧
    ∃ done, s.CarriesOut " LS " ⟨.ls, []⟩ done ∧
      entries done.output =
        ["treasure.json", "plan", Markup.directory "home", Markup.directory "treasure"] := by
  intro lines s
  have hline : Command.ofLine? " LS " = some ⟨.ls, []⟩ := by decide +kernel
  have hshown : s.here.items ++ (s.world.children s.current).map
        (fun i => Markup.directory (s.world.location i).name) =
      ["treasure.json", "plan", Markup.directory "home", Markup.directory "treasure"] := by
    decide +kernel
  obtain ⟨done, -, hdone, hentries, -⟩ := (listing_after lines " LS " hline).1
  exact ⟨hline, done, hdone, hentries.trans hshown⟩

/-- A file may be named like the marked name of a directory: at home, the documents then seem to be listed
twice, and in the documents, home seems to be listed. -/
theorem entry_repeated_after_touch :
    let documents := Markup.directory "documents"
    let home := Markup.directory "home"
    let s := start.after ["touch " ++ documents]
    let t := start.after ["cd documents", "touch " ++ home]
    (∃ done, s.CarriesOut "ls" ⟨.ls, []⟩ done ∧
      (entries done.output).count documents = 2 ∧ ¬ (entries done.output).Nodup) ∧
    (∃ done, t.CarriesOut "ls" ⟨.ls, []⟩ done ∧
      t.world.parentOf t.current = some LocationId.home ∧
      (t.world.location LocationId.home).name = "home" ∧ home ∈ entries done.output) := by
  intro documents home s t
  have hline : Command.ofLine? "ls" = some ⟨.ls, []⟩ := by decide +kernel
  have htwice : s.shown.count documents = 2 := by decide +kernel
  have habove : t.world.parentOf t.current = some LocationId.home ∧
      (t.world.location LocationId.home).name = "home" := by decide +kernel
  have hseen : home ∈ t.shown := by decide +kernel
  have hls : ∀ lines, ∃ done, (start.after lines).CarriesOut "ls" ⟨.ls, []⟩ done ∧
      entries done.output = (start.after lines).shown := fun lines =>
    exists_carriesOut_ls (Tidy.after lines).placed (named_isName_after lines) hline
  constructor
  · obtain ⟨done, hdone, hshown⟩ := hls ["touch " ++ documents]
    have hcount : (entries done.output).count documents = 2 := by rw [hshown, htwice]
    refine ⟨done, hdone, hcount, fun hnodup => ?_⟩
    have honce := List.nodup_iff_count_le_one.1 hnodup documents
    omega
  · obtain ⟨done, hdone, hshown⟩ := hls ["cd documents", "touch " ++ home]
    refine ⟨done, hdone, habove.1, habove.2, ?_⟩
    rw [hshown]
    exact hseen

/-! ## Advice -/

theorem refuses_ls_iff (hline : Command.ofLine? line = some ⟨.ls, target :: rest⟩) :
    s.Refuses line e ↔ e = s.listRefusal target := by
  constructor
  · rintro ⟨command, hcommand, h⟩
    cases hline.symm.trans hcommand
    exact (Except.error.inj h).symm
  · rintro rfl
    exact ⟨_, hline, rfl⟩

theorem listRefusal_eq_listNeedsCd :
    s.listRefusal target = .listNeedsCd target ↔
      ∃ next, s.world.exitNamed s.current target = some next := by
  rw [← Option.isSome_iff_exists, listRefusal, hasExit, World.hasExit]
  split
  · next h => exact iff_of_true rfl h
  · next h =>
    refine iff_of_false (fun hadvice => ?_) h
    split at hadvice
    · cases hadvice
    · cases hadvice

theorem destination_exit (hname : ByName target)
    (hexit : s.world.exitNamed s.current target = some next) :
    s.destination target =
      if target ∈ s.here.items then .error (.notADirectory target)
      else if s.world.parentOf s.current = some next then
        .error (if next = LocationId.home then .homeByName else .parentByName target s.here.name)
      else .ok next := by
  rw [destination_of_isSegment s hname.1, step_of_exitNamed hname hexit]
  simp only [Location.hasItem_iff]
  rfl

theorem destination_exit_eq_ok (hname : ByName target)
    (hexit : s.world.exitNamed s.current target = some next) {place : LocationId} :
    s.destination target = .ok place ↔
      place = next ∧ s.world.parentOf s.current ≠ some next ∧ target ∉ s.here.items := by
  rw [destination_exit hname hexit]
  split
  · next hitem => exact iff_of_false nofun fun h => h.2.2 hitem
  · next hitem =>
    split
    · next hup => exact iff_of_false nofun fun h => h.2.1 hup
    · next hup =>
      rw [Except.ok.injEq]
      exact ⟨fun h => ⟨h.symm, hup, hitem⟩, fun h => h.1.symm⟩

theorem destination_exit_eq_error (hname : ByName target)
    (hexit : s.world.exitNamed s.current target = some next) :
    s.destination target = .error e ↔
      (target ∈ s.here.items ∧ e = .notADirectory target) ∨
      (target ∉ s.here.items ∧ s.world.parentOf s.current = some next ∧
        e = if next = LocationId.home then .homeByName else .parentByName target s.here.name) := by
  rw [destination_exit hname hexit]
  split
  · next hitem => simp [hitem, eq_comm]
  · next hitem =>
    split
    · next hup => simp [hitem, hup, eq_comm]
    · next hup => simp [hitem, hup]

/-- **Where the advice leads.**  With an argument, `ls` refuses and advises `cd` exactly if an exit has the
name.  The advice can be followed exactly if this exit is one of the directories below, that is, one that
a bare `ls` lists, and no file has the same name, and then it leads there.  Otherwise `cd` refuses: a
file, which only the archive and the returned treasure bring next to a directory of its name, or the way
up. -/
theorem advice_after (lines : List String) (line target : String) (rest : List String)
    (hline : Command.ofLine? line = some ⟨.ls, target :: rest⟩) :
    let s := start.after lines
    let t := (s.process line).session
    (s.Refuses line (.listNeedsCd target) ↔
      ∃ next, s.world.exitNamed s.current target = some next) ∧
    ∀ next, s.world.exitNamed s.current target = some next →
      (t.Succeeds (goTo target) ↔ next ∈ s.world.children s.current ∧ target ∉ s.here.items) ∧
      (t.Succeeds (goTo target) → (t.process (goTo target)).session.current = next) ∧
      (∀ e, t.Refuses (goTo target) e ↔
        (target ∈ s.here.items ∧ e = .notADirectory target) ∨
        (target ∉ s.here.items ∧ s.world.parentOf s.current = some next ∧
          e = if next = LocationId.home then .homeByName else .parentByName target s.here.name)) ∧
      (target ∈ s.here.items →
        (s.world.archive = some s.current ∧ target ∈ archiveNames) ∨
        (s.world.relics = some s.current ∧ target = treasure)) := by
  intro s t
  have hs : s.Tidy := Tidy.after lines
  have hw := hs.placed.charted.graph
  have hnamed : s.world.Named IsName := named_isName_after lines
  have hrefuses : s.Refuses line (s.listRefusal target) := (refuses_ls_iff hline).2 rfl
  have hgame : SameGame t s := hrefuses.sameGame
  refine ⟨?_, fun next hexit => ?_⟩
  · rw [refuses_ls_iff hline, eq_comm, listRefusal_eq_listNeedsCd]
  · obtain ⟨hmem, hfound⟩ := exitNamed_eq_some hexit
    have hname : ByName target := by
      rw [← hfound]
      exact byName_of_isName (hnamed.directory next (hw.lt_size_of_mem_exits hs.placed.current_lt hmem))
    -- `ls` was refused, so `cd` starts from the same place in the same world
    have hthere : t.world.exitNamed t.current target = some next := by
      rw [hgame.world, hgame.current]
      exact hexit
    have hhere : t.here = s.here := by rw [here, hgame.world, hgame.current, here]
    have hgoTo := ofLine?_goTo hname.1
    have hok : ∀ place, t.destination target = .ok place ↔
        place = next ∧ next ∈ s.world.children s.current ∧ target ∉ s.here.items := by
      intro place
      rw [destination_exit_eq_ok hname hthere, hgame.world, hgame.current, hhere,
        hw.mem_children_iff_of_exitNamed hs.placed.current_lt hexit]
    have hsucceeds : t.Succeeds (goTo target) ↔
        next ∈ s.world.children s.current ∧ target ∉ s.here.items := by
      rw [succeeds_cd_iff hgoTo]
      simp only [hok, exists_eq_left]
    refine ⟨hsucceeds, fun h => ?_, fun e => ?_, fun hitem => ?_⟩
    · exact (sameGame_cd hgoTo ((hok next).2 ⟨rfl, hsucceeds.1 h⟩)).current
    · rw [refuses_cd_iff hgoTo, destination_exit_eq_error hname hthere, hgame.world, hgame.current,
        hhere]
    · exact hs.clash s.current target ⟨hitem, hasExit_of_exitNamed hexit⟩

/-- Who asks from home for a list of the documents is told how to get there. -/
theorem advice_followed :
    let t := (start.process "ls documents").session
    Command.ofLine? "ls documents" = some ⟨.ls, ["documents"]⟩ ∧
    start.Refuses "ls documents" (.listNeedsCd "documents") ∧
    t.Succeeds "cd documents" ∧ (t.process "cd documents").session.current = LocationId.documents := by
  intro t
  have hline : Command.ofLine? "ls documents" = some ⟨.ls, ["documents"]⟩ := by decide +kernel
  have hexit : start.world.exitNamed start.current "documents" = some LocationId.documents := by
    decide +kernel
  have hlisted : LocationId.documents ∈ start.world.children start.current := by decide +kernel
  have hfile : "documents" ∉ start.here.items := by decide +kernel
  have hadvice := advice_after [] "ls documents" "documents" [] hline
  obtain ⟨hsucceeds, hleads, -⟩ := hadvice.2 LocationId.documents hexit
  have hfollowed := hsucceeds.2 ⟨hlisted, hfile⟩
  exact ⟨hline, hadvice.1.2 ⟨_, hexit⟩, hfollowed, hleads hfollowed⟩

/-- Who asks from the documents for a list of home is told to go there by its name, and then refused. -/
theorem advice_refused :
    let s := start.after ["cd documents"]
    let t := (s.process "ls home").session
    s.Refuses "ls home" (.listNeedsCd "home") ∧
    t.Refuses "cd home" .homeByName ∧ ¬ t.Succeeds "cd home" := by
  intro s t
  have hls : Command.ofLine? "ls home" = some ⟨.ls, ["home"]⟩ := by decide +kernel
  have hcd : Command.ofLine? "cd home" = some ⟨.cd, ["home"]⟩ := by decide +kernel
  have hadvised : s.listRefusal "home" = .listNeedsCd "home" := by decide +kernel
  have hdestination : t.destination "home" = .error .homeByName := by decide +kernel
  refine ⟨(refuses_ls_iff hls).2 hadvised.symm, (refuses_cd_iff hcd).2 hdestination, ?_⟩
  rw [succeeds_cd_iff hcd, hdestination]
  rintro ⟨next, hnext⟩
  cases hnext

end Session

end ShellQuest
