/-
# A game with colours and without

Two runs of a game that differ only in whether colours are on go through the same sessions; what they
show differs by the markup.  Stripping a text as a whole and stripping its parts is the same only if no
sequence is cut in two, so this is kept of all that is shown with colours: `Bleached plain coloured` says
that `coloured` is put together from whole sequences and that `plain` is what stripping leaves of it.  It
holds of each text that the terminal shows and of texts put together from these, and hence of a game.
The one byte that a player must not type is the escape character.
-/
import ShellQuest.Proofs.Program.Game
import ShellQuest.Proofs.Session.Output
import ShellQuest.Proofs.Text.Utf8

namespace ShellQuest

open Markup (Coloured Ink Marked ink_ne_escape)
open Text (All)

/-! ## Texts with and without markup -/

/-- `coloured` is put together from whole sequences and other characters, and `plain` is what is left of
it without the sequences. -/
structure Bleached (plain coloured : String) : Prop where
  marked : Marked (· ≠ '\x1b') Markup.sequences coloured.toList
  eq_strip : plain = Markup.strip coloured

namespace Bleached

variable {plain coloured plain' coloured' t : String}

theorem append (h : Bleached plain coloured) (h' : Bleached plain' coloured') :
    Bleached (plain ++ plain') (coloured ++ coloured') where
  marked := by
    rw [String.toList_append]
    exact h.marked.append h'.marked
  eq_strip := by
    rw [h.eq_strip, h'.eq_strip]
    simp only [Markup.strip, String.toList_append, h.marked.visible_append, String.ofList_append]

theorem of_coloured (h : Coloured (· ≠ '\x1b') t) : Bleached (Markup.strip t) t :=
  ⟨h.mono (List.subset_append_left _ _), rfl⟩

theorem refl (h : All (· ≠ '\x1b') t) : Bleached t t where
  marked := Marked.of_all ink_ne_escape h
  eq_strip := by
    have hvisible : Markup.visible t.toList = t.toList :=
      Markup.visible_eq_self_iff.2 fun hopener => h _ (hopener.subset List.mem_cons_self) rfl
    rw [Markup.strip, hvisible, String.ofList_toList]

theorem clearScreen : Bleached "" Markup.clearScreen where
  marked := Session.marked_clearScreen
  eq_strip := by decide

end Bleached

namespace Terminal

variable {s : Session} {line : String} {r : Response} {lines : List (List UInt8)}

/-! ## What the terminal shows -/

theorem bleached_renderLine (g : GameSettings) {t : String} (h : Coloured (· ≠ '\x1b') t) :
    Bleached ({ g with color := false }.renderLine t) ({ g with color := true }.renderLine t) := by
  simp only [GameSettings.renderLine, GameSettings.render, Bool.false_eq_true, if_false, if_true]
  split
  · exact .refl (ink_ne_escape.fixed rfl rfl)
  · exact (Bleached.of_coloured h).append (.refl (ink_ne_escape.fixed rfl rfl))

theorem bleached_opening (g : GameSettings) :
    Bleached (opening { g with color := false }) (opening { g with color := true }) := by
  simp only [opening]
  split
  · exact bleached_renderLine g (ink_ne_escape.coloured_success (ink_ne_escape.fixed rfl rfl))
  · exact .refl (ink_ne_escape.fixed rfl rfl)

variable {p : Char → Prop}

theorem all_challenge (hp : Ink p) (q : LessonProgress) :
    All p q.challenge ∧ All p q.challengeHint := by
  rw [LessonProgress.challenge, LessonProgress.challengeHint]
  cases q.current with
  | none => exact ⟨hp.fixed rfl rfl, hp.fixed rfl rfl⟩
  | some l =>
      cases l with
      | unzipArchive => exact ⟨hp.fixed rfl rfl, .append (hp.fixed rfl rfl) (hp.fixed rfl rfl)⟩
      | _ => exact ⟨hp.fixed rfl rfl, hp.fixed rfl rfl⟩

theorem all_ask (hp : Ink p) (hs : s.world.Spelled p) : All p (ask s) := by
  obtain ⟨hchallenge, hhint⟩ := all_challenge hp s.lessons
  have hprompt : All p s.prompt := by
    rw [Session.prompt]
    split
    · exact hp.fixed rfl rfl
    · exact hs.directory s.current
  have hhinted : All p
      (if s.lessons.challengeHint.isEmpty then "" else s!" Hint: {s.lessons.challengeHint}") := by
    split
    · exact hp.fixed rfl rfl
    · exact .append (hp.fixed rfl rfl) hhint
  unfold ask
  refine .append (.append (.append (.append (.append (.append ?_ hchallenge) ?_) hhinted) ?_)
    hprompt) ?_
  · exact hp.fixed rfl rfl
  · exact hp.fixed rfl rfl
  · exact hp.fixed rfl rfl
  · exact hp.fixed rfl rfl

theorem belowWipe_clearScreen : belowWipe Markup.clearScreen = "" := by decide +kernel

theorem belowWipe_resetText : belowWipe Session.resetText = Session.restartText := by
  decide +kernel

theorem bleached_wiped (g : GameSettings) {t : String} (h : Coloured (· ≠ '\x1b') t) :
    Bleached ("" ++ { g with color := false }.renderLine t)
      (Markup.clearScreen ++ { g with color := true }.renderLine t) :=
  Bleached.clearScreen.append (bleached_renderLine g h)

/-- Whatever a line is answered with is shown without colours as it is with them, but for the markup. -/
theorem bleached_tell (g : GameSettings) (hs : s.world.Spelled (· ≠ '\x1b'))
    (hwords : ∀ word ∈ Text.words line, All (· ≠ '\x1b') word) (h : Session.Says s line r.result) :
    Bleached (tell { g with color := false } r) (tell { g with color := true } r) := by
  have hcases := h.coloured_or_wipes ink_ne_escape hs hwords
  generalize hresult : r.result = result at hcases
  simp only [tell, Response.clearsScreen, hresult]
  -- only for the two texts that wipe the screen is the terminal told to do so by itself
  rcases hcases with ⟨hcoloured, -⟩ | ⟨-, rfl | rfl⟩
  · rw [hcoloured.clearsScreen]
    exact bleached_renderLine g hcoloured
  · have hbelow : Coloured (· ≠ '\x1b') "" := ink_ne_escape.coloured (ink_ne_escape.fixed rfl rfl)
    simp only [Session.clearsScreen_clearScreen, belowWipe_clearScreen, if_true]
    exact bleached_wiped g hbelow
  · simp only [Session.clearsScreen_resetText, belowWipe_resetText, if_true]
    exact bleached_wiped g (Session.coloured_restartText ink_ne_escape)

/-! ## Games -/

/-- Two transcripts that differ only in the markup of what was shown. -/
structure Fades (dark bright : Transcript) : Prop where
  shown : Bleached dark.shown bright.shown
  events : dark.events = bright.events
  session : dark.session = bright.session
  ending : dark.ending = bright.ending

theorem Fades.preceded {dark bright : Transcript} {before before' : String} {events : List Event}
    (h : Fades dark bright) (hbefore : Bleached before before') :
    Fades (dark.preceded before events) (bright.preceded before' events) where
  shown := hbefore.append h.shown
  events := congrArg (events ++ ·) h.events
  session := h.session
  ending := h.ending

def escapeByte : UInt8 := 0x1b

theorem escapeByte_mem_bytes {t : String} : escapeByte ∈ Text.bytes t ↔ '\x1b' ∈ t.toList := by
  have hbyte : escapeByte = UInt8.ofNat 27 := rfl
  rw [hbyte, Text.ascii_mem_bytes (by decide)]
  constructor
  · rintro ⟨c, hc, hcode⟩
    obtain rfl : c = '\x1b' := Char.toNat_inj.1 hcode
    exact hc
  · intro h
    exact ⟨'\x1b', h, rfl⟩

theorem all_words_of_read {typed : List UInt8} (hread : String.fromUTF8? ⟨typed.toArray⟩ = some line)
    (htyped : escapeByte ∉ typed) : ∀ word ∈ Text.words line, All (· ≠ '\x1b') word := by
  have hbytes : Text.bytes line = typed := Text.fromUTF8?_eq_some.1 hread
  rw [← hbytes, escapeByte_mem_bytes] at htyped
  exact fun word hword => (Text.all_ne_iff.2 htyped).of_mem_words hword

/-- By induction over what is still to be typed: all that was played so far is free of escape
characters, and so is the world. -/
theorem fades_playLines (g : GameSettings) {earlier : List String}
    (hearlier : ∀ line ∈ earlier, ∀ word ∈ Text.words line, All (· ≠ '\x1b') word)
    (hlines : ∀ typed ∈ lines, escapeByte ∉ typed) :
    Fades (playLines { g with color := false } (Session.start.after earlier) lines)
      (playLines { g with color := true } (Session.start.after earlier) lines) := by
  induction lines generalizing earlier with
  | nil =>
      have hs := Session.spelled_after ink_ne_escape.plain hearlier
      exact ⟨.refl (all_ask ink_ne_escape hs), rfl, rfl, rfl⟩
  | cons typed rest ih =>
      obtain ⟨htyped, hrest⟩ := List.forall_mem_cons.1 hlines
      have hs := Session.spelled_after ink_ne_escape.plain hearlier
      have hask := Bleached.refl (all_ask ink_ne_escape hs)
      cases hread : String.fromUTF8? ⟨typed.toArray⟩ with
      | none =>
          rw [playLines_brokenOff hread, playLines_brokenOff hread]
          exact ⟨hask.append (.refl nofun), rfl, rfl, rfl⟩
      | some line =>
          have hwords := all_words_of_read hread htyped
          have hshown := hask.append (bleached_tell g hs hwords (Session.says_process _ line))
          cases hleaves : leaves line with
          | true =>
              rw [playLines_left hread hleaves, playLines_left hread hleaves]
              exact ⟨hshown, rfl, rfl, rfl⟩
          | false =>
              have hnext : ∀ line' ∈ earlier ++ [line], ∀ word ∈ Text.words line',
                  All (· ≠ '\x1b') word := by
                rw [List.forall_mem_append, List.forall_mem_singleton]
                exact ⟨hearlier, hwords⟩
              have hfades := ih hnext hrest
              rw [Session.after_append, Session.after_cons, Session.after_nil] at hfades
              rw [playLines_next hread hleaves, playLines_next hread hleaves]
              exact hfades.preceded hshown

theorem fades_play (g : GameSettings) {typed : List UInt8} (htyped : escapeByte ∉ typed) :
    Fades (play { g with color := false } typed) (play { g with color := true } typed) := by
  have hlines : ∀ line ∈ Text.lines typed, escapeByte ∉ line :=
    fun _ hline hmem => htyped (Text.mem_of_mem_lines hline hmem)
  have hearlier : ∀ line ∈ ([] : List String), ∀ word ∈ Text.words line, All (· ≠ '\x1b') word :=
    nofun
  have hgame := fades_playLines g hearlier hlines
  exact hgame.preceded (bleached_opening g)

end Terminal

namespace Program

/-! ## Runs -/

/-- **Turning colours off only takes the markup away.**  Two runs that play games, under settings that
differ only in whether there are colours, over the same text without an escape character: what is printed
without colours is what is printed with them, stripped of its markup, and the exit codes are the same. -/
theorem output_colorless {words words' : List String} {d d' : Disk} {call call' : Invocation}
    {settings : Settings} {t : String}
    (hdark : Plays words d call { settings with game.color := false })
    (hbright : Plays words' d' call' { settings with game.color := true })
    (ht : '\x1b' ∉ t.toList) (stamp stamp' : String) :
    let dark := run stamp words (Text.bytes t) d
    let bright := run stamp' words' (Text.bytes t) d'
    dark.output = Markup.strip bright.output ∧ dark.code = bright.code := by
  intro dark bright
  have hfades := Terminal.fades_play settings.game
    (mt Terminal.escapeByte_mem_bytes.1 ht)
  simp only [dark, bright, hdark.run_eq, hbright.run_eq, playing]
  exact ⟨hfades.shown.eq_strip, congrArg exitCode hfades.ending⟩

/-- A file with settings turns the colours off; without one they are on. -/
theorem output_colorless_ls :
    let call : Invocation := { task := .play, config := "config.toml", verbosity := 0, bind := none }
    let d : Disk := ⟨[(["config.toml"], "[game]\ncolor = false\n".toUTF8)]⟩
    Plays ["play"] d call { ({} : Settings) with game.color := false } ∧
      Plays ["play"] ⟨[]⟩ call { ({} : Settings) with game.color := true } ∧
      '\x1b' ∉ "ls\nreset\n".toList ∧
      (run "" ["play"] (Text.bytes "ls\nreset\n") d).output =
        Markup.strip (run "" ["play"] (Text.bytes "ls\nreset\n") ⟨[]⟩).output ∧
      (run "" ["play"] (Text.bytes "ls\nreset\n") d).code =
        (run "" ["play"] (Text.bytes "ls\nreset\n") ⟨[]⟩).code := by
  intro call d
  have hdark : Plays ["play"] d call { ({} : Settings) with game.color := false } :=
    ⟨rfl, rfl, by decide +kernel⟩
  have hbright : Plays ["play"] ⟨[]⟩ call { ({} : Settings) with game.color := true } :=
    ⟨rfl, rfl, by decide +kernel⟩
  have ht : '\x1b' ∉ "ls\nreset\n".toList := by decide
  exact ⟨hdark, hbright, ht, output_colorless hdark hbright ht "" ""⟩

end Program

end ShellQuest
