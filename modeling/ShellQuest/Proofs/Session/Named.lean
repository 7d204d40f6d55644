/-
# Names in every game

A command brings names into the world by its arguments alone, and each command that does so refuses
the reserved ones, though not by one check: `mkdir`, `touch` and `cp` ask whether the name is reserved,
and `mv` whether it leads out of the directory.  So what holds of the words of the lines that are not
reserved, and of the scripted names, holds of every name in the world (`named_after`).  The words of a
line can stand as names, so names are well formed, and with what keeps the exits of a directory apart
this makes them unambiguous (`names_wellFormed`).
-/
import ShellQuest.Proofs.Session.Footprint
import ShellQuest.Proofs.Session.Names
import ShellQuest.Proofs.World.Named

namespace ShellQuest

namespace Session

open World

variable {s t : Session} {command : Command} {line : String} {lines : List String}

/-! ## Commands that make directories -/

/-- What a command does to the directories: nothing, or it makes one where the player stands, or it
extracts the archive, or it starts over. -/
theorem directories_of_effect (h : Effect s command t) :
    t.world.directories = s.world.directories ∨
    (∃ name, command = ⟨.mkdir, [name]⟩ ∧ isReservedName name = false ∧ s.Vacant name ∧
      t.world = (s.world.createDirectory s.current name (s.directoryDescription name)).1) ∨
    (s.world.archive = none ∧ t.world = s.world.extractArchive.1) ∨
    t = start := by
  cases h with
  | shows | goes | renews | warns | finds => exact .inl rfl
  | makes hname hvacant => exact .inr (.inl ⟨_, rfl, hname, hvacant, rfl⟩)
  | adds => exact .inl (addFile_relists _ _ _ _).directories
  | drops _ _ h => exact .inl (removeFile_relists h).directories
  | renames _ _ _ _ _ h => exact .inl (renameFile_relists h).directories
  | returns _ _ _ h =>
      obtain ⟨u, hu, hr⟩ := relocateFile_relists h
      exact .inl (hr.directories.trans hu.directories)
  | copies => exact .inl (copyFile_relists _ _ _ _).directories
  | extracts _ h => exact .inr (.inr (.inl ⟨h, rfl⟩))
  | restarts => exact .inr (.inr (.inr rfl))

theorem signposted_of_effect (hs : s.Placed) (hw : s.world.Signposted) (h : Effect s command t) :
    t.world.Signposted := by
  have hgraph := hs.charted.graph
  rcases directories_of_effect h with h | ⟨name, -, -, hvacant, h⟩ | ⟨hnone, h⟩ | rfl
  · exact hw.of_directories_eq h
  · rw [h]
    exact hw.createDirectory hgraph hs.current_lt hvacant.1
  · rw [h]
    exact hw.extractArchive hgraph hs.charted.downloads_lt hnone
  · exact Signposted.seeded

/-- Only the name of a directory that is made comes into a key. -/
theorem keyed_of_effect {p : Char → Prop} (hp : Text.Graphic p) (hs : s.Placed)
    (hw : s.world.Keyed p) (h : Effect s command t)
    (hname : ∀ name, command = ⟨.mkdir, [name]⟩ → Text.All p name) : t.world.Keyed p := by
  rcases directories_of_effect h with h | ⟨name, hcommand, -, -, h⟩ | ⟨hnone, h⟩ | rfl
  · exact hw.of_directories_eq h
  · rw [h]
    exact hw.createDirectory hp hs.current_lt (hname name hcommand)
  · rw [h]
    exact hw.extractArchive hp hs.charted.downloads_lt hnone
  · exact Keyed.seeded hp

/-! ## Commands that bring names -/

theorem isReservedName_of_leavesDirectory {target : String} (h : s.leavesDirectory target = false) :
    isReservedName target = false := by
  simp only [leavesDirectory, Bool.or_eq_false_iff] at h
  obtain ⟨⟨⟨⟨hslash, hhome⟩, hdot⟩, hup⟩, -⟩ := h
  have htilde : (target == "~") = false := by
    rw [beq_eq_false_iff_ne]
    rintro rfl
    exact absurd hhome (by decide)
  simp only [isReservedName, hdot, hup, htilde, hslash, Bool.or_false]

/-- The names that a command brings are arguments that are not reserved. -/
theorem named_of_effect {P : String → Prop} (hs : s.Placed) (hw : s.world.Named P)
    (hscripted : ∀ name ∈ scriptedNames, P name)
    (hargs : ∀ arg ∈ command.args, isReservedName arg = false → P arg) (h : Effect s command t) :
    t.world.Named P := by
  cases h with
  | shows | goes | renews | warns | finds => exact hw
  | makes hname =>
      exact hw.createDirectory hs.current_lt (hargs _ List.mem_cons_self hname)
  | adds hname =>
      exact hw.relists_listItem (addFile_relists _ _ _ _) (hargs _ List.mem_cons_self hname)
  | drops _ _ hworld => exact hw.relists_erase (removeFile_relists hworld)
  | renames _ _ _ hleaves _ hworld =>
      have htarget := hargs _ (List.mem_cons_of_mem _ List.mem_cons_self)
        (isReservedName_of_leavesDirectory hleaves)
      refine hw.relists_concat (renameFile_relists hworld) ?_ htarget
      intro items item hitem
      exact List.mem_of_mem_erase (List.mem_filter.1 hitem).1
  | returns _ _ _ hworld =>
      have htreasure : P treasure := hw.item _ _ (mem_of_relocateFile hworld)
      obtain ⟨u, hu, hr⟩ := relocateFile_relists hworld
      exact (hw.relists_erase hu).relists_listItem hr htreasure
  | copies _ _ _ _ hname =>
      have htarget := hargs _ (List.mem_cons_of_mem _ List.mem_cons_self) hname
      exact hw.relists_concat (copyFile_relists _ _ _ _) (fun _ => List.Subset.refl _) htarget
  | extracts _ hnone => exact hw.extractArchive hs.charted.downloads_lt hscripted hnone
  | restarts => exact Named.seeded hscripted

theorem scripted_of_effect (hw : s.world.Scripted) (h : Effect s command t) : t.world.Scripted := by
  cases h with
  | shows | goes | renews | warns | finds | makes => exact hw
  | adds => exact hw.addFile _ _ List.mem_cons_self
  | drops _ _ hworld => exact hw.removeFile hworld
  | renames _ _ _ _ _ hworld => exact hw.renameFile hworld
  | returns _ _ _ hworld => exact hw.relocateFile hworld
  | copies => exact hw.copyFile _ _ _
  | extracts => exact hw.extractArchive
  | restarts => exact Scripted.seeded

/-! ## Every game -/

/-- A property of worlds that effects keep, where the player stands in the world, holds of the world
of every game. -/
theorem world_after {W : World → Prop} (hstart : W seeded)
    (heffect : ∀ {s t command}, ∀ line ∈ lines, Command.ofLine? line = some command → s.Placed →
      W s.world → Effect s command t → W t.world) : W (start.after lines).world := by
  have hafter : (start.after lines).Placed ∧ W (start.after lines).world := by
    apply after_invariant (P := fun s => s.Placed ∧ W s.world)
    · intro s line hline hs
      apply process_invariant (P := fun s => s.Placed ∧ W s.world)
      · intro s t h hs
        exact ⟨hs.1.of_sameGame h, h.world ▸ hs.2⟩
      · intro s command t hcommand h hs
        exact ⟨hs.1.effect h, heffect line hline hcommand hs.1 hs.2 h⟩
      · exact hs
    · exact ⟨Placed.start, hstart⟩
  exact hafter.2

theorem signposted_after (lines : List String) : (start.after lines).world.Signposted :=
  world_after Signposted.seeded fun _ _ _ hs hw h => signposted_of_effect hs hw h

theorem scripted_after (lines : List String) : (start.after lines).world.Scripted :=
  world_after Scripted.seeded fun _ _ _ _ hw h => scripted_of_effect hw h

theorem keyed_after {p : Char → Prop} (hp : Text.Graphic p)
    (hlines : ∀ line ∈ lines, ∀ word ∈ Text.words line, Text.All p word) :
    (start.after lines).world.Keyed p := by
  refine world_after (Keyed.seeded hp) fun line hline hcommand hs hw h => ?_
  refine keyed_of_effect hp hs hw h fun name hname => ?_
  subst hname
  exact hlines line hline name (Command.mem_words_of_mem_args hcommand List.mem_cons_self)

/-- A property of the scripted names and of the words of all lines holds of the names of the world;
the words that are reserved need not have it. -/
theorem named_after {P : String → Prop} (hscripted : ∀ name ∈ scriptedNames, P name)
    (hlines : ∀ line ∈ lines, ∀ word ∈ Text.words line, isReservedName word = false → P word) :
    (start.after lines).world.Named P := by
  refine world_after (Named.seeded hscripted) fun line hline hcommand hs hw h => ?_
  refine named_of_effect hs hw hscripted (fun arg harg => ?_) h
  exact hlines line hline arg (Command.mem_words_of_mem_args hcommand harg)

theorem controlFree_of_mem_scriptedNames : ∀ name ∈ scriptedNames, Text.ControlFree name := by
  decide +kernel

theorem spelled_after {p : Char → Prop} (hp : Text.Plain p)
    (hlines : ∀ line ∈ lines, ∀ word ∈ Text.words line, Text.All p word) :
    (start.after lines).world.Spelled p := by
  refine .of_scripted hp (named_after ?_ fun line hline word hword _ => hlines line hline word hword)
    (scripted_after lines)
  exact fun name hname => (controlFree_of_mem_scriptedNames name hname).all (Text.graphic_of_plain hp)

/-! ## Names that are well formed -/

/-- A text that can name a file or a directory: a word without a slash that is none of the names of
places. -/
structure IsName (name : String) : Prop where
  ne_empty : name ≠ ""
  notBlank : ∀ c ∈ name.toList, Text.isBlank c = false
  noSlash : '/' ∉ name.toList
  ne_here : name ≠ "."
  ne_up : name ≠ ".."
  ne_home : name ≠ "~"

theorem isName_iff {name : String} :
    IsName name ↔ Text.IsWord name ∧ isReservedName name = false := by
  have hempty : name.toList ≠ [] ↔ name ≠ "" := by rw [ne_eq, ne_eq, String.toList_eq_nil_iff]
  have hreserved : isReservedName name = false ↔
      name ≠ "." ∧ name ≠ ".." ∧ name ≠ "~" ∧ '/' ∉ name.toList := by
    simp [isReservedName, Text.hasChar, and_assoc]
  rw [Text.IsWord, hempty, hreserved]
  constructor
  · rintro ⟨hne, hblank, hslash, hhere, hup, hhome⟩
    exact ⟨⟨hne, hblank⟩, hhere, hup, hhome, hslash⟩
  · rintro ⟨⟨hne, hblank⟩, hhere, hup, hhome, hslash⟩
    exact ⟨hne, hblank, hslash, hhere, hup, hhome⟩

theorem isName_of_mem_scriptedNames : ∀ name ∈ scriptedNames, IsName name := by
  have hall : ∀ name ∈ scriptedNames, Text.IsWord name ∧ isReservedName name = false := by
    decide +kernel
  exact fun name hname => isName_iff.2 (hall name hname)

theorem named_isName_after (lines : List String) : (start.after lines).world.Named IsName :=
  named_after isName_of_mem_scriptedNames fun _ _ _ hword hreserved =>
    isName_iff.2 ⟨Text.isWord_of_mem_words hword, hreserved⟩

theorem oneLine_of_mem_words {word : String} (h : word ∈ Text.words line) :
    Text.All (· ≠ '\n') word := by
  rintro c hc rfl
  exact absurd ((Text.isWord_of_mem_words h).2 _ hc) (by decide)

/-! ## What is made of names -/

theorem listing_of_append {P : String → Prop} (hempty : P "")
    (happend : ∀ {s t}, P s → P t → P (s ++ t)) (hspace : P " ") (hitem : ∀ item ∈ s.here.items, P item)
    (hdirectory : ∀ i, P (Markup.directory (s.world.location i).name)) : P s.listing := by
  have hfiles : P (" ".intercalate s.here.items) :=
    Text.intercalate_of_append hempty happend hspace hitem
  have hdirectories : P (" ".intercalate
      ((s.world.childExits s.current).map fun l => Markup.directory l.name)) := by
    refine Text.intercalate_of_append hempty happend hspace fun shown hshown => ?_
    obtain ⟨l, hl, rfl⟩ := List.mem_map.1 hshown
    obtain ⟨i, -, rfl⟩ := List.mem_map.1 hl
    exact hdirectory i
  rw [listing]
  split
  · exact happend hfiles hdirectories
  · exact happend (happend hfiles hspace) hdirectories

/-! ## Where the player stands -/

theorem prompt_eq_iff (hname : s.here.name ≠ "~") :
    s.prompt = "~" ↔ s.current = LocationId.home := by
  rw [prompt]
  split
  · next h => exact iff_of_true rfl h
  · next h => exact iff_of_false hname h

theorem pwd_eq_iff (hs : s.Placed) : s.pwd = "~" ↔ s.current = LocationId.home := by
  rw [pwd, here, hs.charted.graph.id_eq s.current hs.current_lt]
  split
  · next h => exact iff_of_true rfl h
  · next h =>
    refine iff_of_false ?_ h
    intro heq
    have hfirst : (s!"/{s.here.name}").toList.head? = some '/' := by
      rw [String.toList_append]
      rfl
    rw [here, heq] at hfirst
    exact absurd hfirst (by decide)

theorem carriesOut_pwd (s : Session) (hcommand : Command.ofLine? line = some command)
    (hverb : command.verb = .pwd) : s.CarriesOut line command (.shows (s.noting (Text.trim line)) s.pwd) := by
  refine ⟨hcommand, perform_ok.2 ?_⟩
  rw [execute, hverb]
  rfl

/-- **Names stay well formed and unambiguous.**  In every game the files of a directory have different
names, and so have its exits, the way up among them; so a name finds the only exit that has it.  Every
name of a file or a directory is a word without a slash, and none of the names of places.  So the prompt
and the output of `pwd` are `~` exactly where the player stands at home. -/
theorem names_wellFormed (lines : List String) :
    let s := start.after lines
    (∀ i < s.world.size,
      (s.world.location i).items.Nodup ∧
      ((s.world.location i).exits.map fun e => (s.world.location e).name).Nodup ∧
      (∀ name e, s.world.exitNamed i name = some e ↔
        e ∈ (s.world.location i).exits ∧ (s.world.location e).name = name) ∧
      (∀ item ∈ (s.world.location i).items, IsName item) ∧
      IsName (s.world.location i).name) ∧
    (s.prompt = "~" ↔ s.current = LocationId.home) ∧
    (∀ line command, Command.ofLine? line = some command → command.verb = .pwd →
      ∃ done, s.CarriesOut line command done ∧
        (done.output = "~" ↔ s.current = LocationId.home)) := by
  intro s
  have hs : s.Tidy := Tidy.after lines
  have hsigns : s.world.Signposted := signposted_after lines
  have hnamed : s.world.Named IsName := named_isName_after lines
  refine ⟨?_, ?_, ?_⟩
  · intro i hi
    exact ⟨hs.items_nodup i, hsigns i hi, fun _ _ => hsigns.exitNamed_iff hi, hnamed.item i,
      hnamed.directory i hi⟩
  · exact prompt_eq_iff (hnamed.directory s.current hs.placed.current_lt).ne_home
  · intro line command hcommand hverb
    exact ⟨_, carriesOut_pwd s hcommand hverb, pwd_eq_iff hs.placed⟩

end Session

end ShellQuest
