/-
# Plans

What a player can still bring about, whatever was done before.  A plan is a list of lines without a
reset; what it may cost is known in advance, as nothing is lost on the way: the directories stay,
so does the archive, and the mission once it is over.  The five directories of the lessons and the
archive can be walked to from everywhere, for no file bears the name of a directory on the way.
-/
import ShellQuest.Proofs.Session.Names

namespace ShellQuest.Session

open World

/-- Some lines, none of which resets the game, take `s` to `t`. -/
def Leads (s t : Session) : Prop :=
  ∃ more, (∀ line ∈ more, Command.resets line = false) ∧ s.after more = t

/-- The session once the command is typed in its written form. -/
def play (s : Session) (command : Command) : Session := (s.process command.written).session

variable {s t u : Session} {command : Command} {line name : String} {i j : LocationId}

/-! ## What no line loses -/

namespace Leads

theorem refl (s : Session) : s.Leads s := ⟨[], nofun, rfl⟩

theorem trans (hst : s.Leads t) (htu : t.Leads u) : s.Leads u := by
  obtain ⟨first, hfirst, rfl⟩ := hst
  obtain ⟨second, hsecond, rfl⟩ := htu
  refine ⟨first ++ second, ?_, after_append s first second⟩
  intro line hline
  rcases List.mem_append.1 hline with hline | hline
  · exact hfirst line hline
  · exact hsecond line hline

theorem play (s : Session) (hcommand : command.Plain) : s.Leads (s.play command) := by
  refine ⟨[command.written], ?_, ?_⟩
  · intro line hline
    rw [List.mem_singleton.1 hline]
    exact hcommand.resets_eq_false
  · rw [after_cons, after_nil, Session.play]

theorem invariant {P : Session → Prop}
    (hstep : ∀ s line, Command.resets line = false → P s → P (s.process line).session)
    (h : s.Leads t) (hs : P s) : P t := by
  obtain ⟨more, hmore, rfl⟩ := h
  exact after_invariant (fun s line hline hs => hstep s line (hmore line hline) hs) hs

/-- What a game keeps through every effect but a reset, a plan keeps. -/
theorem game_invariant {P : Session → Prop} (hgame : ∀ {s t}, SameGame t s → P s → P t)
    (heffect : ∀ {s command t}, Effect s command t → command.verb ≠ .reset → P s → P t)
    (h : s.Leads t) (hs : P s) : P t := by
  refine h.invariant ?_ hs
  intro s line hline hs
  refine process_invariant hgame ?_ hs
  intro s command t hcommand h
  exact heffect h (verb_ne_reset hline hcommand)

theorem tidy (h : s.Leads t) (hs : s.Tidy) : t.Tidy :=
  h.invariant (fun _ line _ hs => hs.process line) hs

end Leads

theorem missionComplete_of_effect (h : Effect s command t) (hverb : command.verb ≠ .reset)
    (hs : s.missionComplete = true) : t.missionComplete = true := by
  cases h with
  | restarts => exact absurd rfl hverb
  | returns => rfl
  | _ => exact hs

theorem Leads.missionComplete (h : s.Leads t) (hs : s.missionComplete = true) :
    t.missionComplete = true := by
  refine h.game_invariant (P := fun s => s.missionComplete = true) ?_ missionComplete_of_effect hs
  intro s t hgame hs
  rw [hgame.missionComplete]
  exact hs

theorem play_of_effect (hcommand : command.Plain)
    (h : Effect (s.noting (Text.trim command.written)) command t) :
    s.play command = t.graded command true :=
  process_of_effect hcommand.ofLine?_written hcommand.2.2 h

theorem sameGame_play (hcommand : command.Plain)
    (h : Effect (s.noting (Text.trim command.written)) command t) :
    SameGame (s.play command) t :=
  sameGame_of_effect hcommand.ofLine?_written hcommand.2.2 h

/-! ## Ways through the world -/

/-- A name that can be typed and given to a directory, and that is not the name of a file which can
lie next to a directory of its name. -/
def WayName (name : String) : Prop :=
  Text.IsWord name ∧ isReservedName name = false ∧ name ∉ treasure :: archiveNames

instance (name : String) : Decidable (WayName name) := inferInstanceAs (Decidable (_ ∧ _))

/-- Only the scripted files and the treasure can lie next to a directory of their name. -/
theorem Tidy.not_mem_items (hs : s.Tidy) (hexit : s.world.hasExit i name = true)
    (hname : WayName name) : name ∉ (s.world.location i).items := by
  intro hitem
  rcases hs.clash i name ⟨hitem, hexit⟩ with ⟨-, hmem⟩ | ⟨-, rfl⟩
  · exact hname.2.2 (List.mem_cons_of_mem _ hmem)
  · exact hname.2.2 List.mem_cons_self

theorem Tidy.destination_of_exitNamed (hs : s.Tidy) (hname : WayName name)
    (hexit : s.world.exitNamed s.current name = some j)
    (hdown : (s.world.location s.current).parent ≠ some j) : s.destination name = .ok j := by
  have hitem : (s.world.location s.current).hasItem name = false :=
    Location.hasItem_eq_false.2 (hs.not_mem_items (hasExit_of_exitNamed hexit) hname)
  rw [← hs.placed.charted.graph.parentOf_eq hs.placed.current_lt] at hdown
  have hreserved := hname.2.1
  simp only [isReservedName, Bool.or_eq_false_iff, beq_eq_false_iff_ne] at hreserved
  obtain ⟨⟨⟨-, hup⟩, hhome⟩, hslash⟩ := hreserved
  rw [destination, if_neg (by simp [hslash])]
  unfold step
  simp [hhome, hup, hitem, hexit, hdown]

theorem sameGame_goes (hword : Text.IsWord name) (h : s.destination name = .ok j) :
    SameGame (s.play ⟨.cd, [name]⟩) { s with current := j } := by
  have hcommand : Command.Plain ⟨.cd, [name]⟩ := .of_word (by decide) rfl hword
  exact (sameGame_play hcommand (.goes (s := s.noting _) h)).trans ⟨rfl, rfl, rfl⟩

/-- A plan that only walks takes the player to `i`. -/
def WalksTo (s : Session) (i : LocationId) : Prop :=
  ∃ t, s.Leads t ∧ t.world = s.world ∧ t.current = i

theorem WalksTo.play (hword : Text.IsWord name) (h : s.destination name = .ok j) : s.WalksTo j := by
  have hgame := sameGame_goes hword h
  refine ⟨s.play ⟨.cd, [name]⟩, ?_, hgame.world, hgame.current⟩
  exact .play s (.of_word (by decide) rfl hword)

theorem walksTo_home (s : Session) : s.WalksTo LocationId.home := by
  have hword : Text.IsWord "~" := by decide
  exact .play hword rfl

theorem WalksTo.below (h : s.WalksTo i) (hs : s.Tidy) (hname : WayName name)
    (hexit : s.world.exitNamed i name = some j)
    (hdown : (s.world.location i).parent ≠ some j) : s.WalksTo j := by
  obtain ⟨t, hleads, hworld, rfl⟩ := h
  rw [← hworld] at hexit hdown
  have hnext := (hleads.tidy hs).destination_of_exitNamed hname hexit hdown
  obtain ⟨u, hplay, hsame, hcurrent⟩ := WalksTo.play hname.1 hnext
  exact ⟨u, hleads.trans hplay, hsame.trans hworld, hcurrent⟩

theorem walksTo_downloads (hs : s.Tidy) : s.WalksTo LocationId.downloads := by
  have hcharted := hs.placed.charted
  have hname : WayName "downloads" := by decide
  refine (walksTo_home s).below hs hname ?_ ?_
  · exact hcharted.exitNamed_seeded (by decide) (by decide)
  · rw [hcharted.graph.parent_home]
    simp

theorem walksTo_hiddenVault (hs : s.Tidy) : s.WalksTo LocationId.hiddenVault := by
  have hcharted := hs.placed.charted
  have hprojects : s.WalksTo LocationId.projects := by
    have hname : WayName "projects" := by decide
    refine (walksTo_home s).below hs hname ?_ ?_
    · exact hcharted.exitNamed_seeded (by decide) (by decide)
    · rw [hcharted.graph.parent_home]
      simp
  have hname : WayName "hidden_vault" := by decide
  refine hprojects.below hs hname ?_ ?_
  · exact hcharted.exitNamed_seeded (by decide) (by decide)
  · rw [hcharted.seeded_parent (by decide)]
    decide

theorem walksTo_archive (hs : s.Tidy) (h : s.world.archive = some i) : s.WalksTo i := by
  have hcharted := hs.placed.charted
  refine (walksTo_downloads hs).below hs (by decide) (hs.archive_found i h) ?_
  rw [hcharted.seeded_parent (by decide)]
  intro hhome
  have hi : 5 ≤ i := hcharted.five_le_archive h
  have hzero : LocationId.home = i := Option.some.inj hhome
  rw [← hzero] at hi
  exact absurd hi (by decide)

end ShellQuest.Session
