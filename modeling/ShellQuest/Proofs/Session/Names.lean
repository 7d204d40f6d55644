/-
# Files and directories of one name

A name is to stand for one thing in a directory.  Every command that makes a file or a directory
where the player stands checks for this, but two write elsewhere and do not: extracting the archive
into a directory that was there, and returning the treasure.  `names_after` says that these are
the only ways to a clash, and when exactly they lead to one.
-/
import ShellQuest.Proofs.Session.Placed
import ShellQuest.Proofs.World.Names

namespace ShellQuest.Session

open World

/-! ## What every game keeps -/

/-- What is true of the names in the world of every game. -/
structure Tidy (s : Session) : Prop where
  placed : s.Placed
  items_nodup : ∀ i, (s.world.location i).items.Nodup
  archive_found : ∀ a, s.world.archive = some a →
    s.world.exitNamed LocationId.downloads archiveName = some a
  clash : ∀ i name, s.world.Clash i name →
    (s.world.archive = some i ∧ name ∈ archiveNames) ∨
      (s.world.relics = some i ∧ name = treasure)
  relics_isSome : s.missionComplete = true → s.world.relics.isSome = true

variable {s t : Session} {command : Command} {line name : String} {i : LocationId} {w : World}

/-- `Covers s command i name`: carrying out `command` puts a file into the directory `i`, where
there is a directory of the same name. -/
inductive Covers (s : Session) : Command → LocationId → String → Prop
  | extracts {i : LocationId} {name : String} : s.AtArchiveFile → s.world.archive = none →
      s.hasItem archiveName = false →
      s.world.exitNamed LocationId.downloads archiveName = some i → name ∈ archiveNames →
      s.world.hasExit i name = true → Covers s ⟨.unzip, ["archive.zip"]⟩ i name
  | returns {target : String} {relics : LocationId} : s.IsReturn treasure target →
      s.hasItem treasure = true → s.world.relics = some relics →
      s.world.hasExit relics treasure = true → treasure ∉ (s.world.location relics).items →
      Covers s ⟨.mv, [treasure, target]⟩ relics treasure

theorem Tidy.not_clash (hs : s.Tidy) (hnone : s.world.archive = none) : ¬ s.world.Clash i name := by
  intro hclash
  rcases hs.clash i name hclash with ⟨hsome, -⟩ | ⟨hsome, -⟩
  · rw [hnone] at hsome
    cases hsome
  · rw [relics_eq_none hnone] at hsome
    cases hsome

/-! ## New clashes -/

theorem not_clash_start : ¬ start.world.Clash i name := by
  rintro ⟨hitem, hexit⟩
  have hi : i < 5 := lt_size_of_mem_items hitem
  have hfree : ∀ i < 5, ∀ name ∈ (seeded.location i).items, seeded.hasExit i name = false := by
    decide
  have hno : start.world.hasExit i name = false := hfree i hi name hitem
  rw [hno] at hexit
  cases hexit

/-- Whatever takes effect, a clash was there before, or the command covers a directory. -/
theorem effect_clash (hs : s.Tidy) (h : Effect s command t) (hclash : t.world.Clash i name) :
    s.world.Clash i name ∨ s.Covers command i name := by
  have hgraph := hs.placed.charted.graph
  cases h with
  | shows | goes | renews | warns | finds => exact .inl hclash
  | makes _ hvacant =>
      have hitem := Location.hasItem_eq_false.1 hvacant.2
      exact .inl ((clash_createDirectory hgraph hs.placed.current_lt hitem).1 hclash)
  | @adds new _ hvacant =>
      refine .inl ((addFile_relists _ _ _ _).clash_of_vacant ?_ hclash)
      intro other hother
      rcases mem_listItem.1 hother with hother | rfl
      · exact .inl hother
      · exact .inr hvacant.1
  | drops _ _ hworld =>
      refine .inl ((removeFile_relists hworld).clash_of_vacant ?_ hclash)
      intro other hother
      exact .inl (List.mem_of_mem_erase hother)
  | @renames source target world _ _ _ hleaves _ hworld =>
      have htarget : s.hasExit target = false := by
        simp only [leavesDirectory, Bool.or_eq_false_iff] at hleaves
        exact hleaves.2
      refine .inl ((renameFile_relists hworld).clash_of_vacant ?_ hclash)
      intro other hother
      rcases List.mem_append.1 hother with hother | hother
      · exact .inl (List.mem_of_mem_erase (List.mem_filter.1 hother).1)
      · rw [List.mem_singleton.1 hother]
        exact .inr htarget
  | @returns target relics world hreturn harchive hrelics hworld =>
      have hitem : s.hasItem treasure = true := by
        rw [hasItem, here, hreturn.2.1]
        exact Location.hasItem_iff.2 (mem_of_relocateFile hworld)
      -- the treasure is first dropped from the vault, which brings nothing, and then listed
      obtain ⟨between, hbetween, hlast⟩ := relocateFile_relists hworld
      have hfirst : between.Clash i name → s.world.Clash i name := by
        refine hbetween.clash_of_vacant ?_
        intro other hother
        exact .inl (List.mem_of_mem_erase hother)
      rcases hlast.clash_cases hclash with hclash | ⟨rfl, hname, hexit⟩
      · exact .inl (hfirst hclash)
      · rcases mem_listItem.1 hname with hname | rfl
        · exact .inl (hfirst ⟨hname, hexit⟩)
        · rw [hasExit_congr hbetween.directories] at hexit
          by_cases hthere : treasure ∈ (s.world.location i).items
          · exact .inl ⟨hthere, hexit⟩
          · exact .inr (.returns hreturn hitem hrelics hexit hthere)
  | copies _ _ _ hvacant _ =>
      refine .inl ((copyFile_relists _ _ _ _).clash_of_vacant ?_ hclash)
      intro other hother
      rcases List.mem_append.1 hother with hother | hother
      · exact .inl hother
      · rw [List.mem_singleton.1 hother]
        exact .inr hvacant.1
  | extracts hhere hnone hname =>
      have hfree : archiveName ∉ (s.world.location LocationId.downloads).items := by
        rw [← hhere.1]
        exact Location.hasItem_eq_false.1 hname
      rcases (clash_extractArchive hs.placed.charted hnone hfree).1 hclash with
        hclash | ⟨hmade, hmem, hexit⟩
      · exact .inl hclash
      · exact .inr (.extracts hhere hnone hname hmade hmem hexit)
  | restarts => exact absurd hclash not_clash_start

/-! ## Every line keeps the names -/

namespace Tidy

theorem start : Tidy start where
  placed := Placed.start
  items_nodup i := by
    rcases Nat.lt_or_ge i 5 with hi | hi
    · have hseeded : ∀ i < 5, (seeded.location i).items.Nodup := by decide
      exact hseeded i hi
    · rw [location_of_size_le hi]
      exact List.nodup_nil
  archive_found a h := by cases h
  clash i name h := absurd h not_clash_start
  relics_isSome h := by cases h

theorem of_world_eq (hs : s.Tidy) (h : t.Placed) (hworld : t.world = s.world)
    (hmission : t.missionComplete = s.missionComplete) : t.Tidy where
  placed := h
  items_nodup := by
    rw [hworld]
    exact hs.items_nodup
  archive_found := by
    rw [hworld]
    exact hs.archive_found
  clash := by
    rw [hworld]
    exact hs.clash
  relics_isSome := by
    rw [hworld, hmission]
    exact hs.relics_isSome

theorem of_sameGame (hs : s.Tidy) (h : SameGame t s) : t.Tidy :=
  hs.of_world_eq (hs.placed.of_sameGame h) h.world h.missionComplete

/-- A command that leaves the archive where it is covers a directory in the relics at most. -/
theorem of_extends (hs : s.Tidy) (h : Effect s command t) (hv : t.world.Extends s.world)
    (harchive : t.world.archive = s.world.archive)
    (hnodup : ∀ i, (t.world.location i).items.Nodup)
    (hcovers : ∀ i name, s.Covers command i name → s.world.relics = some i ∧ name = treasure)
    (hmission : t.missionComplete = true → s.world.relics.isSome = true) : t.Tidy where
  placed := hs.placed.effect h
  items_nodup := hnodup
  archive_found a ha := by
    rw [harchive] at ha
    have hcharted := hs.placed.charted
    exact exitNamed_of_extends hv hcharted.graph hcharted.downloads_lt (hs.archive_found a ha)
  clash i name hclash := by
    rw [harchive]
    have hrelics : s.world.relics = some i ∧ name = treasure →
        t.world.relics = some i ∧ name = treasure := by
      rintro ⟨hrelics, hname⟩
      exact ⟨relics_of_extends hv hs.placed.charted harchive hrelics, hname⟩
    rcases effect_clash hs h hclash with hclash | hnew
    · exact (hs.clash i name hclash).imp_right hrelics
    · exact .inr (hrelics (hcovers i name hnew))
  relics_isSome hcomplete := by
    obtain ⟨relics, hrelics⟩ := Option.isSome_iff_exists.1 (hmission hcomplete)
    rw [relics_of_extends hv hs.placed.charted harchive hrelics]
    rfl

theorem effect (hs : s.Tidy) (h : Effect s command t) : t.Tidy := by
  have heffect := h
  have hcharted := hs.placed.charted
  cases h with
  | shows | renews | warns | finds => exact hs
  | goes => exact hs.of_world_eq (hs.placed.effect heffect) rfl rfl
  | makes =>
      refine hs.of_extends heffect (extends_createDirectory _ _ _ _) rfl ?_ nofun hs.relics_isSome
      intro i
      rw [items_createDirectory hs.placed.current_lt]
      exact hs.items_nodup i
  | @adds name =>
      have hr := addFile_relists s.world s.current name ""
      exact hs.of_extends heffect (.of_directories_eq hr.directories) hr.archive
        (hr.items_nodup (listItem_nodup (hs.items_nodup _)) hs.items_nodup) nofun hs.relics_isSome
  | drops _ _ hworld =>
      have hr := removeFile_relists hworld
      exact hs.of_extends heffect (.of_directories_eq hr.directories) hr.archive
        (hr.items_nodup ((hs.items_nodup _).erase _) hs.items_nodup) nofun hs.relics_isSome
  | renames _ _ hreturn _ _ hworld =>
      have hr := renameFile_relists hworld
      refine hs.of_extends heffect (.of_directories_eq hr.directories) hr.archive
        (hr.items_nodup ?_ hs.items_nodup) ?_ hs.relics_isSome
      · refine List.nodup_append.2
          ⟨((hs.items_nodup _).erase _).filter _, List.nodup_singleton _, ?_⟩
        intro a ha b hb hab
        have hne := (List.mem_filter.1 ha).2
        rw [hab, List.mem_singleton.1 hb] at hne
        simp at hne
      · intro i name hcovers
        cases hcovers with
        | returns h => exact absurd h hreturn
  | returns hreturn harchive hrelics hworld =>
      obtain ⟨between, hfirst, hlast⟩ := relocateFile_relists hworld
      have hdirectories := hlast.directories.trans hfirst.directories
      refine hs.of_extends heffect (.of_directories_eq hdirectories)
        (hlast.archive.trans hfirst.archive) ?_ ?_ ?_
      · have hnodup := hfirst.items_nodup ((hs.items_nodup _).erase _) hs.items_nodup
        exact hlast.items_nodup (listItem_nodup (hnodup _)) hnodup
      · intro i name hcovers
        cases hcovers with
        | returns _ _ hrelics => exact ⟨hrelics, rfl⟩
      · intro _
        rw [hrelics]
        rfl
  | @copies source target _ _ _ hvacant =>
      have hr := copyFile_relists s.world s.current source target
      refine hs.of_extends heffect (.of_directories_eq hr.directories) hr.archive
        (hr.items_nodup ?_ hs.items_nodup) nofun hs.relics_isSome
      refine List.nodup_append.2 ⟨hs.items_nodup _, List.nodup_singleton _, ?_⟩
      rintro a ha b hb rfl
      rw [List.mem_singleton.1 hb] at ha
      exact Location.hasItem_eq_false.1 hvacant.2 ha
  | extracts hhere hnone hname =>
      have hd := hcharted.downloads_lt
      have harchive := archive_extractArchive hnone
      refine ⟨hs.placed.effect heffect, items_nodup_extractArchive hd hnone hs.items_nodup,
        ?_, ?_, ?_⟩
      · intro a ha
        rw [harchive] at ha
        cases ha
        exact exitNamed_extractArchive hcharted.graph hd hnone
      · intro i name hclash
        rcases effect_clash hs heffect hclash with hold | hcovers
        · exact absurd hold (hs.not_clash hnone)
        · cases hcovers with
          | extracts _ _ _ hmade hmem _ =>
              refine .inl ⟨?_, hmem⟩
              rw [harchive, archiveDirectory, hmade]
      · intro hcomplete
        have hsome := hs.relics_isSome hcomplete
        rw [relics_eq_none hnone] at hsome
        cases hsome
  | restarts => exact start

theorem process (hs : s.Tidy) (line : String) : (s.process line).session.Tidy :=
  process_invariant (fun h hs => hs.of_sameGame h) (fun _ h hs => hs.effect h) hs

theorem after (lines : List String) : (Session.start.after lines).Tidy :=
  after_invariant (fun _ line _ hs => hs.process line) start

end Tidy

/-! ## The checks -/

/-- What is asked of a name before a file or a directory is made of it here. -/
structure Checked (s : Session) : Prop where
  mkdir : ∀ name, isReservedName name = false → s.hasExit name = false → s.hasItem name = true →
    s.mkdir name = .error (.fileInTheWay name)
  touch : ∀ name, isReservedName name = false → s.hasExit name = true →
    s.touch name = .error (.directoryInTheWay name)
  cp : ∀ source target, Text.hasChar source '/' = false → Text.hasChar target '/' = false →
    source ≠ target → s.hasItem source = true → s.hasItem target = false →
    s.hasExit target = true → s.cp source target = .error .crossDirectory
  mv : ∀ source target, Text.hasChar source '/' = false → source ≠ target →
    s.hasItem source = true → ¬ s.IsReturn source target → s.hasExit target = true →
    s.mv source target = .error .crossDirectory
  unzip : s.AtArchiveFile → s.world.archive = none → s.hasItem archiveName = true →
    s.unzip "archive.zip" = .error (.archiveFileInTheWay "archive.zip")

theorem checked (s : Session) : s.Checked where
  mkdir name hname hexit hitem := by simp [Session.mkdir, hname, hexit, hitem]
  touch name hname hexit := by simp [Session.touch, hname, hexit]
  cp source target hsource htarget hne hitem hfree hexit := by
    simp [Session.cp, hsource, htarget, hne, hitem, hfree, hexit]
  mv source target hslash hne hitem hreturn hexit := by
    rw [IsReturn] at hreturn
    simp [Session.mv, leavesDirectory, hslash, hne, hitem, hreturn, hexit]
  unzip hhere hnone hitem := by
    obtain ⟨hplace, hexit, hzip⟩ := hhere
    have hends : Text.endsWith "archive.zip" ".zip" = true := by decide
    simp [Session.unzip, hplace, hexit, hzip, hends, hnone, hitem]

/-! ## Lines that bring a clash -/

theorem clash_of_covers (hs : s.Tidy) (h : s.Covers command i name) :
    ∃ t, Effect s command t ∧ command.verb.redrawsScreen = false ∧
      t.world.Clash i name ∧ ¬ s.world.Clash i name := by
  cases h with
  | extracts hhere hnone hname hmade hmem hexit =>
      have hfree : archiveName ∉ (s.world.location LocationId.downloads).items := by
        rw [← hhere.1]
        exact Location.hasItem_eq_false.1 hname
      refine ⟨_, .extracts hhere hnone hname, rfl, ?_, ?_⟩
      · exact (clash_extractArchive hs.placed.charted hnone hfree).2 (.inr ⟨hmade, hmem, hexit⟩)
      · exact hs.not_clash hnone
  | @returns target _ hreturn hitem hrelics hexit hno =>
      have hvault : treasure ∈ (s.world.location LocationId.hiddenVault).items := by
        rw [← hreturn.2.1]
        exact Location.hasItem_iff.1 hitem
      obtain ⟨world, hworld⟩ := exists_relocateFile (j := i) hvault
      obtain ⟨between, hfirst, hlast⟩ := relocateFile_relists hworld
      obtain ⟨a, ha, hfound⟩ := relics_eq_some.1 hrelics
      have hi : i < between.size := by
        rw [size_congr hfirst.directories]
        have hlt := hs.placed.charted.archive_lt a ha
        exact hs.placed.charted.graph.lt_size_of_mem_exits hlt (exitNamed_eq_some hfound).1
      have harchive : s.world.archive.isSome = true := by
        rw [ha]
        rfl
      refine ⟨_, .returns hreturn harchive hrelics hworld, rfl, ⟨?_, ?_⟩, ?_⟩
      · rw [hlast.items_self hi]
        exact mem_listItem.2 (.inr rfl)
      · rw [hasExit_congr hlast.directories, hasExit_congr hfirst.directories]
        exact hexit
      · intro hclash
        exact hno hclash.item

/-- The line carries out a command that covers a directory. -/
def CoversOn (s : Session) (line : String) (i : LocationId) (name : String) : Prop :=
  ∃ command, Command.ofLine? line = some command ∧ s.Covers command i name

theorem Covers.history {first : List String} (h : s.Covers command i name) :
    Covers { s with history := first } command i name := by
  cases h with
  | extracts hhere hnone hname hmade hmem hexit =>
      exact .extracts hhere hnone hname hmade hmem hexit
  | returns hreturn hitem hrelics hexit hno => exact .returns hreturn hitem hrelics hexit hno

theorem process_clash_iff (hs : s.Tidy) (line : String) :
    ((s.process line).session.world.Clash i name ∧ ¬ s.world.Clash i name) ↔
      s.CoversOn line i name := by
  have hnoted : (s.noting (Text.trim line)).Tidy := hs.of_sameGame (sameGame_noting s _)
  constructor
  · rintro ⟨hclash, hno⟩
    rcases process_game s line with h | ⟨command, t, hcommand, h, ht⟩
    · rw [h.world] at hclash
      exact absurd hclash hno
    · rw [ht.world] at hclash
      rcases effect_clash hnoted h hclash with hold | hcovers
      · exact absurd hold hno
      · exact ⟨command, hcommand, hcovers.history⟩
  · rintro ⟨command, hcommand, hcovers⟩
    obtain ⟨t, h, hverb, hclash, hno⟩ := clash_of_covers hnoted hcovers.history
    rw [process_of_effect hcommand hverb h, (sameGame_graded t command true).world]
    exact ⟨hclash, hno⟩

/-! ## Runs -/

/-- No file has the name of a directory next to it. -/
def Unambiguous (s : Session) : Prop := ∀ i name, ¬ s.world.Clash i name

theorem unambiguous_iff (lines : List String) :
    (∀ first, first <+: lines → (start.after first).Unambiguous) ↔
      ∀ first line, first ++ [line] <+: lines →
        ∀ i name, ¬ (start.after first).CoversOn line i name := by
  constructor
  · intro hall first line hprefix i name hcovers
    have hclash := ((process_clash_iff (Tidy.after first) line).2 hcovers).1
    have hafter := hall (first ++ [line]) hprefix i name
    rw [after_append, after_cons, after_nil] at hafter
    exact hafter hclash
  · intro hall first
    induction first using List.reverseRecOn with
    | nil =>
        intro _ i name
        exact not_clash_start
    | append_singleton first line ih =>
        intro hprefix i name hclash
        have hbefore := ih ((List.prefix_append first [line]).trans hprefix) i name
        rw [after_append, after_cons, after_nil] at hclash
        have hcovers := (process_clash_iff (Tidy.after first) line).1 ⟨hclash, hbefore⟩
        exact hall first line hprefix i name hcovers

/-- **Where a name can stand for two things.**  In every game each command checks the names it is
given.  Only in the archive, for one of the scripted files, or in the relics, for the treasure, can
a file and a directory have one name.  A line brings such a clash exactly when it extracts the
archive into a directory that was there, with a directory of the file's name in it, or returns the
treasure to relics with a directory of its name; and names are unambiguous throughout a run exactly
when none of its lines does either. -/
theorem names_after (lines : List String) :
    let s := start.after lines
    s.Checked ∧
    (∀ i name, s.world.Clash i name →
      (s.world.archive = some i ∧ name ∈ archiveNames) ∨
        (s.world.relics = some i ∧ name = treasure)) ∧
    (∀ line i name, ((s.process line).session.world.Clash i name ∧ ¬ s.world.Clash i name) ↔
      s.CoversOn line i name) ∧
    ((∀ first, first <+: lines → (start.after first).Unambiguous) ↔
      ∀ first line, first ++ [line] <+: lines →
        ∀ i name, ¬ (start.after first).CoversOn line i name) := by
  intro s
  have hs : s.Tidy := Tidy.after lines
  refine ⟨checked s, hs.clash, ?_, unambiguous_iff lines⟩
  intro line i name
  exact process_clash_iff hs line

/-- A player who has put a directory `README.txt` into a directory `archive` cannot enter it once
the archive is extracted. -/
theorem clash_after_unzip :
    let s := start.after ["cd downloads", "mkdir archive", "cd archive", "mkdir README.txt",
      "cd ..", "unzip archive.zip", "cd archive"]
    s.world.Clash 5 "README.txt" ∧ s.cd "README.txt" = .error (.notADirectory "README.txt") := by
  refine ⟨⟨?_, ?_⟩, ?_⟩
  · decide +kernel
  · decide +kernel
  · decide +kernel

end ShellQuest.Session
