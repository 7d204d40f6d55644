/-
# What extracting does

The first extraction, down to the order of the files.  It takes the child of downloads that bears the
archive's name, if the player has made one, and otherwise makes it; the scripted files go to the end
of its list, those that are there already staying where they are, and get their scripted texts either
way.  All of it is in `Unpacks`, which speaks of children of downloads where the code asks for exits:
the one exit that is no child is home, and home has another name.
-/
import ShellQuest.Proofs.World.Named
import ShellQuest.Proofs.World.Texts

namespace ShellQuest.World

variable {w v : World} {i j a made parent : LocationId} {name text key description : String}
  {files : List (String × String)}

/-! ## Adding some files to one directory -/

/-- Different names listed one after the other: those that are new follow the list in their order. -/
theorem foldl_listItem {names : List String} (hnames : names.Nodup) (items : List String) :
    names.foldl (fun items name => listItem name items) items =
      items ++ names.filter fun name => !items.contains name := by
  induction names generalizing items with
  | nil => simp
  | cons name names ih =>
      obtain ⟨hname, hrest⟩ := List.nodup_cons.1 hnames
      have hlater : (names.filter fun other => !(listItem name items).contains other) =
          names.filter fun other => !items.contains other := by
        refine List.filter_congr fun other hother => ?_
        have hne : other ≠ name := ne_of_mem_of_not_mem hother hname
        simp [mem_listItem, hne]
      rw [List.foldl_cons, ih hrest, hlater]
      by_cases hmem : name ∈ items
      · simp [listItem, hmem]
      · simp [listItem, hmem]

theorem size_addFile (w : World) (i : LocationId) (name text : String) :
    (w.addFile i name text).size = w.size :=
  size_congr (addFile_relists w i name text).directories

theorem items_addFiles_self (files : List (String × String)) {w : World} (hi : i < w.size) :
    ((w.addFiles i files).location i).items =
      (files.map Prod.fst).foldl (fun items name => listItem name items) (w.location i).items := by
  induction files generalizing w with
  | nil => rfl
  | cons file files ih =>
      have hrest := ih (w := w.addFile i file.1 file.2) (by rwa [size_addFile])
      rw [(addFile_relists w i file.1 file.2).items_self hi] at hrest
      exact hrest

theorem items_addFiles_of_ne (files : List (String × String)) (w : World) (hji : j ≠ i) :
    ((w.addFiles i files).location j).items = (w.location j).items := by
  induction files generalizing w with
  | nil => rfl
  | cons file files ih =>
      have hrest := ih (w.addFile i file.1 file.2)
      rw [(addFile_relists w i file.1 file.2).items_of_ne hji] at hrest
      exact hrest

theorem content_addFiles_of_notMem (w : World) (hname : name ∉ files.map Prod.fst) :
    (w.addFiles i files).content name = w.content name := by
  induction files generalizing w with
  | nil => rfl
  | cons file files ih =>
      rw [List.map_cons, List.mem_cons, not_or] at hname
      have hrest := ih (w.addFile i file.1 file.2) hname.2
      rw [content_addFile, if_neg hname.1] at hrest
      exact hrest

theorem content_addFiles_of_mem (w : World) (hnames : (files.map Prod.fst).Nodup)
    (hfile : (name, text) ∈ files) : (w.addFiles i files).content name = some text := by
  induction files generalizing w with
  | nil => cases hfile
  | cons file files ih =>
      rw [List.map_cons, List.nodup_cons] at hnames
      obtain ⟨hlater, hrest⟩ := hnames
      rcases List.mem_cons.1 hfile with rfl | hfile
      · have hkept := content_addFiles_of_notMem (i := i) (w.addFile i name text) hlater
        rw [content_addFile, if_pos rfl] at hkept
        exact hkept
      · exact ih (w.addFile i file.1 file.2) hrest hfile

/-! ## The directory of the archive among the children of downloads -/

/-- The way up from downloads leads home, so an exit with the archive's name is a child. -/
theorem Charted.mem_children_of_exitNamed (hw : w.Charted)
    (h : w.exitNamed LocationId.downloads archiveName = some made) :
    made ∈ w.children LocationId.downloads := by
  obtain ⟨hexit, hname⟩ := exitNamed_eq_some h
  rcases (hw.graph.mem_exits hw.downloads_lt).1 hexit with hup | hdown
  · rw [hw.seeded_parent (by decide)] at hup
    have hhome : LocationId.home = made := Option.some.inj hup
    rw [← hhome, hw.seeded_name (by decide)] at hname
    exact absurd hname (by decide)
  · exact mem_children.2 hdown

theorem Charted.exitNamed_archive_iff (hw : w.Charted) (hsigns : w.Signposted) :
    w.exitNamed LocationId.downloads archiveName = some made ↔
      made ∈ w.children LocationId.downloads ∧ (w.location made).name = archiveName := by
  constructor
  · intro h
    exact ⟨hw.mem_children_of_exitNamed h, (exitNamed_eq_some h).2⟩
  · rintro ⟨hchild, hname⟩
    have hexit := (hw.graph.mem_exits hw.downloads_lt).2 (.inr (mem_children.1 hchild))
    exact (hsigns.exitNamed_iff hw.downloads_lt).2 ⟨hexit, hname⟩

theorem exits_createDirectory (hi : i < w.size) :
    ((w.createDirectory parent name description).1.location i).exits =
      (w.location i).exits ++ if i = parent then [w.size] else [] := by
  simp only [createDirectory]
  rw [location_insertLocation hi]

theorem parent_createDirectory (hp : parent < w.size) :
    ((w.createDirectory parent name description).1.location w.size).parent = some parent := by
  simp only [createDirectory]
  rw [location_insertLocation_self hp]

/-! ## The first extraction -/

/-- `v` is `w` after the archive was extracted to the directory `a`.  If `a` is new, it had no files
before. -/
structure Unpacks (w v : World) (a : LocationId) : Prop where
  adopts : ∀ made ∈ w.children LocationId.downloads, (w.location made).name = archiveName →
    a = made ∧ v.directories = w.directories
  makes : (∀ made ∈ w.children LocationId.downloads, (w.location made).name ≠ archiveName) →
    a = w.size ∧ v.size = w.size + 1 ∧ (v.location a).name = archiveName ∧
    (v.location a).parent = some LocationId.downloads ∧
    ∀ i < w.size, (v.location i).exits =
      (w.location i).exits ++ if i = LocationId.downloads then [a] else []
  grown : v.Extends w
  items : (v.location a).items =
    (w.location a).items ++ archiveNames.filter fun name => !(w.location a).hasItem name
  elsewhere : ∀ i, i ≠ a → (v.location i).items = (w.location i).items
  texts : ∀ file ∈ archiveFiles, v.content file.1 = some file.2
  others : ∀ name ∉ archiveNames, v.content name = w.content name

theorem nodup_archiveNames : archiveNames.Nodup := by decide

theorem content_archiveDirectory (w : World) (name : String) :
    w.archiveDirectory.1.content name = w.content name := by
  rcases archiveDirectory_cases w with ⟨made, -, h⟩ | ⟨-, h⟩
  · rw [h]
  · rw [h]
    rfl

theorem items_extractArchive (hnone : w.archive = none) (i : LocationId) :
    (w.extractArchive.1.location i).items =
      ((w.archiveDirectory.1.addFiles w.archiveDirectory.2 archiveFiles).location i).items := by
  rw [extractArchive_eq hnone]
  rfl

theorem content_extractArchive (hnone : w.archive = none) (name : String) :
    w.extractArchive.1.content name =
      (w.archiveDirectory.1.addFiles w.archiveDirectory.2 archiveFiles).content name := by
  rw [extractArchive_eq hnone]
  rfl

theorem Charted.unpacks_extractArchive (hw : w.Charted) (hsigns : w.Signposted)
    (hnone : w.archive = none) : w.Unpacks w.extractArchive.1 w.archiveDirectory.2 where
  adopts made hchild hname := by
    have hdirectory : w.archiveDirectory = (w, made) := by
      rw [archiveDirectory, (hw.exitNamed_archive_iff hsigns).2 ⟨hchild, hname⟩]
    rw [directories_extractArchive hnone, hdirectory]
    exact ⟨rfl, rfl⟩
  makes hno := by
    have hdirectory : w.archiveDirectory =
        w.createDirectory LocationId.downloads archiveName archiveDescription := by
      rcases archiveDirectory_cases w with ⟨made, hmade, -⟩ | ⟨-, h⟩
      · obtain ⟨hchild, hname⟩ := (hw.exitNamed_archive_iff hsigns).1 hmade
        exact absurd hname (hno made hchild)
      · exact h
    have hdirectories := directories_extractArchive hnone
    rw [hdirectory] at hdirectories ⊢
    refine ⟨rfl, ?_, ?_, ?_, ?_⟩
    · rw [size_congr hdirectories, size_createDirectory]
    · rw [name_congr hdirectories]
      exact name_createDirectory hw.downloads_lt
    · rw [parent_congr hdirectories]
      exact parent_createDirectory hw.downloads_lt
    · intro i hi
      rw [exits_congr hdirectories]
      exact exits_createDirectory hi
  grown := extends_extractArchive hnone
  items := by
    rw [items_extractArchive hnone, items_addFiles_self archiveFiles hw.archiveDirectory_lt,
      items_archiveDirectory hw.downloads_lt]
    exact foldl_listItem nodup_archiveNames _
  elsewhere i hi := by
    rw [items_extractArchive hnone, items_addFiles_of_ne archiveFiles _ hi,
      items_archiveDirectory hw.downloads_lt]
  texts file hfile := by
    rw [content_extractArchive hnone]
    exact content_addFiles_of_mem _ nodup_archiveNames hfile
  others name hname := by
    rw [content_extractArchive hnone, content_addFiles_of_notMem _ hname,
      content_archiveDirectory]

end ShellQuest.World
