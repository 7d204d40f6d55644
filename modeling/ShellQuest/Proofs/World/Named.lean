/-
# Names, keys and texts of a world

Where everything that a player can read of a world comes from.  A change of the world brings the names
that it is given and names that are scripted; a new key is put together from a name, a key that was
there, and a number; and the texts of files are moved and copied, but the only new ones are scripted
or empty.  So what holds of the scripted names and of those that are brought holds of all of them
(`Named`), what holds of the characters of names holds of those of keys (`Keyed`), and every text is one
of a short list (`scriptedTexts`).  A directory whose name was vacant keeps the exits of each directory
told apart by their names (`Signposted`).
-/
import ShellQuest.Proofs.Text.ControlFree
import ShellQuest.Proofs.World.Names

namespace ShellQuest

/-! ## Texts -/

namespace Contents

/-- Every text of the contents satisfies `T`. -/
def All (T : String → Prop) (c : Contents) : Prop := ∀ entry ∈ c.entries, T entry.2

namespace All

variable {T : String → Prop} {c : Contents} {name text : String}

theorem get? (hc : c.All T) (h : c.get? name = some text) : T text := by
  rw [Contents.get?, List.lookup_eq_some_iff] at h
  obtain ⟨first, rest, hentries, -⟩ := h
  have hmem : (name, text) ∈ c.entries := by
    rw [hentries]
    exact List.mem_append_right first List.mem_cons_self
  exact hc (name, text) hmem

theorem erase (hc : c.All T) (name : String) : (c.erase name).All T :=
  fun entry h => hc entry (List.mem_filter.1 h).1

theorem set (hc : c.All T) (name : String) (htext : T text) : (c.set name text).All T :=
  List.forall_mem_cons.2 ⟨htext, hc.erase name⟩

theorem moveText (hc : c.All T) (name target : String) : (World.moveText c name target).All T := by
  rw [World.moveText]
  split
  · next htext => exact (hc.erase name).set target (hc.get? htext)
  · exact hc

theorem copyText (hc : c.All T) (name target : String) : (World.copyText c name target).All T := by
  rw [World.copyText]
  split
  · next htext => exact hc.set target (hc.get? htext)
  · exact hc

end All

end Contents

namespace World

/-- The texts that the files of a game can have. -/
def scriptedTexts : List String := "" :: (seedContents.entries ++ archiveFiles).map Prod.snd

variable {w v : World} {i j parent e : LocationId} {name text description : String}

/-- Every text of the world is scripted. -/
def Scripted (w : World) : Prop := w.contents.All (· ∈ scriptedTexts)

namespace Scripted

theorem seeded : Scripted seeded := by
  intro entry hentry
  exact List.mem_cons_of_mem "" (List.mem_map_of_mem (List.mem_append_left archiveFiles hentry))

theorem addFile (hw : w.Scripted) (i : LocationId) (name : String) (htext : text ∈ scriptedTexts) :
    (w.addFile i name text).Scripted :=
  Contents.All.set hw name htext

theorem addFiles (hw : w.Scripted) (i : LocationId) {files : List (String × String)}
    (hfiles : ∀ file ∈ files, file.2 ∈ scriptedTexts) : (w.addFiles i files).Scripted := by
  induction files generalizing w with
  | nil => exact hw
  | cons file files ih =>
      obtain ⟨htext, hfiles⟩ := List.forall_mem_cons.1 hfiles
      exact ih (hw.addFile i file.1 htext) hfiles

theorem removeFile (hw : w.Scripted) (h : w.removeFile i name = some v) : v.Scripted := by
  rw [World.removeFile] at h
  split at h
  · cases h
    exact Contents.All.erase hw name
  · cases h

theorem renameFile {target : String} (hw : w.Scripted) (h : w.renameFile i name target = some v) :
    v.Scripted := by
  rw [World.renameFile] at h
  split at h
  · cases h
    exact Contents.All.moveText hw name target
  · cases h

theorem copyFile (hw : w.Scripted) (i : LocationId) (source target : String) :
    (w.copyFile i source target).Scripted :=
  Contents.All.copyText hw source target

theorem relocateFile (hw : w.Scripted) (h : w.relocateFile i j name = some v) : v.Scripted := by
  rw [World.relocateFile] at h
  split at h
  · cases h
    exact hw
  · cases h

theorem extractArchive (hw : w.Scripted) : w.extractArchive.1.Scripted := by
  cases harchive : w.archive with
  | some existing =>
      rw [World.extractArchive, harchive]
      exact hw
  | none =>
      have hdirectory : w.archiveDirectory.1.Scripted := by
        rcases archiveDirectory_cases w with ⟨made, -, h⟩ | ⟨-, h⟩
        · rw [h]
          exact hw
        · rw [h]
          exact hw
      have hfiles : ∀ file ∈ archiveFiles, file.2 ∈ scriptedTexts := fun file hfile =>
        List.mem_cons_of_mem "" (List.mem_map_of_mem (List.mem_append_right _ hfile))
      rw [extractArchive_eq harchive]
      exact hdirectory.addFiles w.archiveDirectory.2 hfiles

end Scripted

theorem printed_missionBriefing : Text.Printed missionBriefing := by
  refine Text.All.intercalate (Text.printed_of_chars rfl rfl) ?_
  simp only [List.forall_mem_cons]
  and_intros
  all_goals first
    | exact Text.printed_of_chars rfl rfl
    | exact nofun

theorem printed_readme : Text.Printed readme := by
  refine Text.All.intercalate (Text.printed_of_chars rfl rfl) ?_
  simp only [List.forall_mem_cons]
  and_intros
  all_goals first
    | exact Text.printed_of_chars rfl rfl
    | exact nofun

theorem printed_of_mem_scriptedTexts : ∀ text ∈ scriptedTexts, Text.Printed text := by
  have htreasure : Text.Printed treasureText :=
    .append (Text.printed_of_chars rfl rfl) (Text.printed_of_chars rfl rfl)
  simp only [scriptedTexts, seedContents, archiveFiles, List.cons_append, List.nil_append,
    List.map_cons, List.map_nil, List.forall_mem_cons]
  exact ⟨nofun, Text.printed_of_chars rfl rfl, printed_missionBriefing,
    Text.printed_of_chars rfl rfl, printed_readme, htreasure, Text.printed_of_chars rfl rfl,
    Text.printed_of_chars rfl rfl, nofun⟩

/-! ## Names -/

/-- The names of the directories and of the files in them satisfy `P`. -/
structure Named (P : String → Prop) (w : World) : Prop where
  directory : ∀ i < w.size, P (w.location i).name
  item : ∀ i, ∀ item ∈ (w.location i).items, P item

/-- The names that come into a game without a player's doing. -/
def scriptedNames : List String :=
  archiveName :: (archiveNames ++ seedLocations.flatMap fun l => l.name :: l.items)

namespace Named

variable {P : String → Prop}

theorem seeded (h : ∀ name ∈ scriptedNames, P name) : Named P seeded := by
  have hscripted : ∀ i < World.seeded.size, ∀ name ∈ (World.seeded.location i).name ::
      (World.seeded.location i).items, P name := by
    intro i hi name hname
    exact h name (List.mem_cons_of_mem _ (List.mem_append_right _
      (List.mem_flatMap.2 ⟨World.seeded.location i, location_mem hi, hname⟩)))
  refine ⟨?_, ?_⟩
  · intro i hi
    exact hscripted i hi _ List.mem_cons_self
  · intro i item hitem
    exact hscripted i (lt_size_of_mem_items hitem) item (List.mem_cons_of_mem _ hitem)

theorem relists {f : List String → List String} (hw : w.Named P) (h : v.Relists w i f)
    (hf : ∀ item ∈ f (w.location i).items, item ∈ (w.location i).items ∨ P item) : v.Named P where
  directory j hj := by
    rw [size_congr h.directories] at hj
    rw [name_congr h.directories]
    exact hw.directory j hj
  item j item hitem := by
    by_cases hji : j = i
    · subst hji
      have hj : j < w.size := by
        rw [← size_congr h.directories]
        exact lt_size_of_mem_items hitem
      rw [h.items_self hj] at hitem
      exact (hf item hitem).elim (hw.item j item) id
    · rw [h.items_of_ne hji] at hitem
      exact hw.item j item hitem

theorem relists_listItem (hw : w.Named P) (h : v.Relists w i (listItem name)) (hname : P name) :
    v.Named P := by
  refine hw.relists h fun item hitem => ?_
  rcases mem_listItem.1 hitem with hitem | rfl
  · exact .inl hitem
  · exact .inr hname

theorem relists_concat {f : List String → List String} (hw : w.Named P)
    (h : v.Relists w i fun items => f items ++ [name]) (hf : ∀ items, f items ⊆ items)
    (hname : P name) : v.Named P := by
  refine hw.relists h fun item hitem => ?_
  rcases List.mem_append.1 hitem with hitem | hitem
  · exact .inl (hf _ hitem)
  · rw [List.mem_singleton.1 hitem]
    exact .inr hname

theorem relists_erase (hw : w.Named P) (h : v.Relists w i fun items => items.erase name) :
    v.Named P :=
  hw.relists h fun _ hitem => .inl (List.mem_of_mem_erase hitem)

theorem all_directory {p : Char → Prop} (hw : w.Named (Text.All p)) (i : LocationId) :
    Text.All p (w.location i).name := by
  rcases Nat.lt_or_ge i w.size with hi | hi
  · exact hw.directory i hi
  · rw [location_of_size_le hi]
    exact nofun

theorem createDirectory (hw : w.Named P) (hp : parent < w.size) (hname : P name) :
    (w.createDirectory parent name description).1.Named P where
  directory i hi := by
    rw [size_createDirectory] at hi
    rcases Nat.lt_succ_iff_lt_or_eq.1 hi with hi | rfl
    · rw [(extends_createDirectory w parent name description).name_eq i hi]
      exact hw.directory i hi
    · rw [name_createDirectory hp]
      exact hname
  item i item hitem := by
    rw [items_createDirectory hp] at hitem
    exact hw.item i item hitem

theorem addFiles (hw : w.Named P) (i : LocationId) {files : List (String × String)}
    (hfiles : ∀ name ∈ files.map Prod.fst, P name) : (w.addFiles i files).Named P := by
  induction files generalizing w with
  | nil => exact hw
  | cons file files ih =>
      obtain ⟨hname, hfiles⟩ := List.forall_mem_cons.1 hfiles
      exact ih (hw.relists_listItem (addFile_relists w i file.1 file.2) hname) hfiles

theorem extractArchive (hw : w.Named P) (hd : LocationId.downloads < w.size)
    (h : ∀ name ∈ scriptedNames, P name) (hnone : w.archive = none) :
    w.extractArchive.1.Named P := by
  have hdirectory : w.archiveDirectory.1.Named P := by
    rcases archiveDirectory_cases w with ⟨made, -, hdirectory⟩ | ⟨-, hdirectory⟩
    · rw [hdirectory]
      exact hw
    · rw [hdirectory]
      exact hw.createDirectory hd (h _ List.mem_cons_self)
  have hfiles : ∀ name ∈ archiveNames, P name := fun name hname =>
    h name (List.mem_cons_of_mem _ (List.mem_append_left _ hname))
  rw [extractArchive_eq hnone]
  have hadded := hdirectory.addFiles w.archiveDirectory.2 hfiles
  exact ⟨hadded.directory, hadded.item⟩

end Named

/-- The names and the texts of the world are made of characters that satisfy `p`. -/
structure Spelled (p : Char → Prop) (w : World) : Prop where
  names : w.Named (Text.All p)
  texts : w.contents.All (Text.All p)

namespace Spelled

variable {p : Char → Prop}

theorem of_scripted (hp : Text.Plain p) (hnames : w.Named (Text.All p)) (hw : w.Scripted) :
    w.Spelled p :=
  ⟨hnames, fun entry hentry => (printed_of_mem_scriptedTexts _ (hw entry hentry)).all hp⟩

theorem directory (hw : w.Spelled p) (i : LocationId) : Text.All p (w.location i).name :=
  hw.names.all_directory i

theorem content (hw : w.Spelled p) (h : w.content name = some text) : Text.All p text :=
  hw.texts.get? h

end Spelled

/-! ## Keys -/

/-- Every character of every key satisfies `p`. -/
def Keyed (p : Char → Prop) (w : World) : Prop := ∀ i < w.size, Text.All p (w.location i).key

theorem key_createDirectory (hp : parent < w.size) :
    ((w.createDirectory parent name description).1.location w.size).key =
      w.uniqueKey parent name := by
  simp only [createDirectory]
  rw [location_insertLocation_self hp]

theorem numberedKey_eq (base : String) (n : Nat) : ∃ number,
    numberedKey base n = base ++ number ∧ Text.ControlFree number := by
  cases n with
  | zero => exact ⟨"", String.append_empty.symm, by decide⟩
  | succ n => exact ⟨toString (n + 2), rfl, Text.controlFree_toString (n + 2)⟩

/-- A new key is the name, or it starts with a key that was there and goes on with the name. -/
theorem uniqueKey_cases (w : World) (parent : LocationId) (name : String) :
    w.uniqueKey parent name = name ∨
      ∃ number, w.uniqueKey parent name = (w.location parent).key ++ "_" ++ name ++ number ∧
        Text.ControlFree number := by
  obtain ⟨n, -, hkey, -⟩ := exists_uniqueKey_eq w parent name
  rw [hkey]
  cases n with
  | zero => exact .inl rfl
  | succ n => exact .inr (numberedKey_eq _ n)

theorem all_of_uniqueKey {p : Char → Prop} (h : Text.All p (w.uniqueKey parent name)) :
    Text.All p name := by
  rcases uniqueKey_cases w parent name with hkey | ⟨number, hkey, -⟩
  · rwa [hkey] at h
  · rw [hkey] at h
    exact (Text.all_append.1 (Text.all_append.1 h).1).2

namespace Keyed

variable {p : Char → Prop}

theorem seeded (hp : Text.Graphic p) : Keyed p seeded := by
  have hfree : ∀ i < 5, Text.ControlFree (World.seeded.location i).key := by decide
  exact fun i hi => (hfree i hi).all hp

theorem of_directories_eq (hw : w.Keyed p) (h : v.directories = w.directories) : v.Keyed p := by
  intro i hi
  rw [size_congr h] at hi
  rw [key_congr h]
  exact hw i hi

theorem uniqueKey (hw : w.Keyed p) (hp : Text.Graphic p) (hparent : parent < w.size)
    (hname : Text.All p name) : Text.All p (w.uniqueKey parent name) := by
  rcases uniqueKey_cases w parent name with h | ⟨number, h, hnumber⟩
  · rw [h]
    exact hname
  · have hline : Text.ControlFree "_" := by decide
    rw [h]
    exact (((hw parent hparent).append (hline.all hp)).append hname).append (hnumber.all hp)

theorem createDirectory (hw : w.Keyed p) (hp : Text.Graphic p) (hparent : parent < w.size)
    (hname : Text.All p name) : (w.createDirectory parent name description).1.Keyed p := by
  intro i hi
  rw [size_createDirectory] at hi
  rcases Nat.lt_succ_iff_lt_or_eq.1 hi with hi | rfl
  · rw [(extends_createDirectory w parent name description).key_eq i hi]
    exact hw i hi
  · rw [key_createDirectory hparent]
    exact hw.uniqueKey hp hparent hname

theorem extractArchive (hw : w.Keyed p) (hp : Text.Graphic p) (hd : LocationId.downloads < w.size)
    (hnone : w.archive = none) : w.extractArchive.1.Keyed p := by
  have harchive : Text.ControlFree archiveName := by decide
  refine of_directories_eq ?_ (directories_extractArchive hnone)
  rcases archiveDirectory_cases w with ⟨made, -, hdirectory⟩ | ⟨-, hdirectory⟩
  · rw [hdirectory]
    exact hw
  · rw [hdirectory]
    exact hw.createDirectory hp hd (harchive.all hp)

end Keyed

/-! ## Exits -/

/-- The exits of each directory have different names. -/
def Signposted (w : World) : Prop :=
  ∀ i < w.size, ((w.location i).exits.map fun e => (w.location e).name).Nodup

namespace Signposted

theorem exitNamed_iff (hw : w.Signposted) (hi : i < w.size) :
    w.exitNamed i name = some e ↔ e ∈ (w.location i).exits ∧ (w.location e).name = name := by
  constructor
  · exact exitNamed_eq_some
  · rintro ⟨he, hname⟩
    obtain ⟨j, hj⟩ := Option.isSome_iff_exists.1 (hasExit_iff.2 ⟨e, he, hname⟩)
    obtain ⟨hexit, hsame⟩ := exitNamed_eq_some hj
    rw [hj, List.inj_on_of_nodup_map (hw i hi) hexit he (hsame.trans hname.symm)]

theorem seeded : Signposted seeded := by
  have hnodup : ∀ i < 5, ((World.seeded.location i).exits.map fun e =>
      (World.seeded.location e).name).Nodup := by decide
  exact hnodup

theorem of_directories_eq (hw : w.Signposted) (h : v.directories = w.directories) :
    v.Signposted := by
  intro i hi
  rw [size_congr h] at hi
  simp only [exits_congr h, name_congr h]
  exact hw i hi

/-- A new directory is one more exit of its parent, and its own only exit leads back. -/
theorem createDirectory (hw : w.Signposted) (hgraph : w.Graph) (hp : parent < w.size)
    (hfree : w.hasExit parent name = false) :
    (w.createDirectory parent name description).1.Signposted := by
  intro i hi
  rw [size_createDirectory] at hi
  rcases Nat.lt_succ_iff_lt_or_eq.1 hi with hi | rfl
  · have hexits : ((w.createDirectory parent name description).1.location i).exits =
        (w.location i).exits ++ if i = parent then [w.size] else [] := by
      simp only [World.createDirectory]
      rw [location_insertLocation hi]
    have hold : (w.location i).exits.map (fun e =>
        ((w.createDirectory parent name description).1.location e).name) =
        (w.location i).exits.map fun e => (w.location e).name := by
      apply List.map_congr_left
      intro e he
      exact (extends_createDirectory w parent name description).name_eq e
        (hgraph.lt_size_of_mem_exits hi he)
    rw [hexits, List.map_append, hold]
    by_cases hip : i = parent
    · subst hip
      rw [if_pos rfl, List.map_singleton, name_createDirectory hp]
      refine List.nodup_append.2 ⟨hw i hi, List.nodup_singleton name, ?_⟩
      rintro a ha b hb rfl
      obtain ⟨e, he, rfl⟩ := List.mem_map.1 ha
      rw [← List.mem_singleton.1 hb, hasExit_iff.2 ⟨e, he, rfl⟩] at hfree
      cases hfree
    · rw [if_neg hip, List.map_nil, List.append_nil]
      exact hw i hi
  · simp only [World.createDirectory]
    rw [location_insertLocation_self hp]
    exact List.nodup_singleton _

theorem extractArchive (hw : w.Signposted) (hgraph : w.Graph) (hd : LocationId.downloads < w.size)
    (hnone : w.archive = none) : w.extractArchive.1.Signposted := by
  refine of_directories_eq ?_ (directories_extractArchive hnone)
  rcases archiveDirectory_cases w with ⟨made, -, hdirectory⟩ | ⟨hno, hdirectory⟩
  · rw [hdirectory]
    exact hw
  · rw [hdirectory]
    exact hw.createDirectory hgraph hd (hasExit_eq_false.2 hno)

end Signposted

end World

end ShellQuest
