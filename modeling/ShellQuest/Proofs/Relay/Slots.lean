/-
# Slots

The hall counts the slots that are taken, and its tally counts the games that are open; nothing ties
either count to the games that go on but the steps themselves.  A step of a client ends the game of
this client or of nobody, and both counts go down by what it ends (`frees_update`); only a client
that finds a slot free lets them go up (`Counted.enter`).  So both are the number of games that go on,
after every step (`counted_run`), and whoever was admitted gives back one slot, once
(`givenBack_goOn`).
-/
import ShellQuest.Proofs.Relay.Isolation
import ShellQuest.Proofs.Tally

namespace ShellQuest

theorem Tally.countAll_sessions (t : Tally) (events : List Event) :
    (t.countAll events).active = t.active ∧ (t.countAll events).opened = t.opened := by
  rw [countAll_eq]
  exact ⟨rfl, rfl⟩

namespace Relay

open Text (lineFeed IsUtf8)

/-! ## How a game ends while its client stays -/

namespace Connection

variable {limit : Nat} {c : Connection}

/-- Some frame that these bytes complete is no text, or is cut at the cap. -/
def Breaks (limit : Nat) (c : Connection) (bytes : List UInt8) : Prop :=
  ∃ frame ∈ c.completed limit bytes, ¬ IsUtf8 frame ∨
    (frame.getLast? ≠ some lineFeed ∧ frame.length = frameCap limit)

theorem breaks_iff {bytes : List UInt8} : c.Breaks limit bytes ↔
    ∃ frame ∈ c.completed limit bytes, (Frame.ofBytes limit frame).isFatal = true := by
  simp only [Breaks, Frame.isFatal_iff]

theorem isSome_ending_receiveAll (hopen : c.ending = none) (bytes : List UInt8) :
    (c.receiveAll limit bytes).ending.isSome = true ↔ c.Breaks limit bytes := by
  rw [breaks_iff]
  induction bytes generalizing c with
  | nil =>
      rw [completed, receiveAll, List.foldl_nil, hopen]
      simp
  | cons byte bytes ih =>
      rw [← List.singleton_append, receiveAll_append, completed_append]
      by_cases hlast : byte = lineFeed ∨ (c.pending.push byte).size = frameCap limit
      · obtain ⟨hframes, hstate⟩ := takes_last hopen hlast
        have hready : Ready { c with pending := #[] } := ⟨hopen, rfl⟩
        have htake := takeFrame_eq limit { c with pending := #[] } (c.pending.push byte).toList
        rw [Array.toArray_toList] at htake
        rw [hframes, hstate, htake]
        generalize (c.pending.push byte).toList = frame
        by_cases hfatal : (Frame.ofBytes limit frame).isFatal = true
        · -- nothing is completed after a fatal frame
          have hended : (take limit { c with pending := #[] }
              (Frame.ofBytes limit frame)).ending.isSome = true := isSome_ending_take hfatal
          obtain ⟨hnone, hsame⟩ := takes_of_ended limit hended bytes
          rw [hnone, hsame, List.append_nil]
          exact ⟨fun _ => ⟨frame, List.mem_singleton.2 rfl, hfatal⟩, fun _ => hended⟩
        · have hnext : Ready (take limit { c with pending := #[] } (Frame.ofBytes limit frame)) :=
            ready_take hready (Bool.eq_false_iff.2 hfatal)
          rw [ih hnext.open_]
          simp only [List.mem_append, List.mem_singleton, or_and_right, exists_or, exists_eq_left,
            or_iff_right hfatal]
      · obtain ⟨hframes, hstate⟩ := takes_byte limit hopen hlast
        rw [hframes, hstate, List.nil_append]
        exact ih hopen

end Connection

/-! ## Counts -/

namespace Guest

def isAdmitted : Guest → Bool
  | admitted _ => true
  | refused => false

def isOver : Guest → Bool
  | admitted c => c.ending.isSome
  | refused => false

end Guest

/-- The client whose step it is, if that client has come before. -/
def HallStep.client? : HallStep → Option Nat
  | enter => none
  | send n _ => some n
  | leave n => some n

namespace Hall

variable {r : HallRules} {h h' : Hall} {n k : Nat} {c : Connection}
  {f : Connection → Connection}

/-- How many games go on. -/
def playing (h : Hall) : Nat := h.guests.countP Guest.isPlaying

def admissions (h : Hall) : Nat := h.guests.countP Guest.isAdmitted

/-- The slots that are taken and the games that are counted as open are those that go on, and there
are no more of them than slots. -/
structure Counted (r : HallRules) (h : Hall) : Prop where
  taken : h.taken = h.playing
  active : h.tally.active = h.playing
  opened : h.tally.opened = h.admissions
  bound : h.playing ≤ r.slots

/-- From `h` to `h'`, the number of games that ended is `k`, and nobody came. -/
structure Frees (h h' : Hall) (k : Nat) : Prop where
  taken : h'.taken = h.taken - k
  active : h'.tally.active = h.tally.active - k
  opened : h'.tally.opened = h.tally.opened
  playing : h'.playing + k = h.playing
  admissions : h'.admissions = h.admissions

theorem Frees.refl (h : Hall) : Frees h h 0 := ⟨rfl, rfl, rfl, rfl, rfl⟩

theorem Counted.of_frees (hc : Counted r h) (hf : Frees h h' k) : Counted r h' := by
  obtain ⟨htaken, hactive, hopened, hplaying, hadmissions⟩ := hf
  constructor
  · rw [htaken, hc.taken]
    omega
  · rw [hactive, hc.active]
    omega
  · rw [hopened, hc.opened, hadmissions]
  · have hbound := hc.bound
    omega

theorem Counted.taken_of_frees (hc : Counted r h) (hf : Frees h h' k) : h'.taken + k = h.taken := by
  have htaken := hf.taken
  have hplaying := hf.playing
  rw [hc.taken] at htaken ⊢
  omega

/-! ## One step -/

theorem update_of_fixed {g : Guest} (hg : h.guests[n]? = some g) (hfix : g.update f = g) :
    h.update n f = h := by
  obtain ⟨hn, hget⟩ := List.getElem?_eq_some_iff.1 hg
  have hset : h.guests.set n g = h.guests := by
    rw [← hget]
    exact List.set_getElem_self hn
  rw [update, hg]
  simp only [hfix, hset, List.drop_length, Bool.and_not_self, Bool.false_eq_true, if_false]
  rfl

theorem update_of_none (hn : h.guests[n]? = none) : h.update n f = h := by
  rw [update, hn]

/-- A client that plays goes on with another connection, or its game is over. -/
theorem countP_isPlaying_set (hg : h.guests[n]? = some (.admitted c)) (hopen : c.ending = none)
    (d : Connection) :
    (h.guests.set n (.admitted d)).countP Guest.isPlaying + (if d.ending.isSome then 1 else 0) =
      h.playing := by
  obtain ⟨hn, hget⟩ := List.getElem?_eq_some_iff.1 hg
  have hplays : h.guests[n].isPlaying = true := by
    rw [hget, Guest.isPlaying, hopen]
    rfl
  have hsome : 0 < h.playing := List.countP_pos_iff.2 ⟨_, List.getElem_mem hn, hplays⟩
  rw [List.countP_set hn, if_pos hplays, ← playing, Guest.isPlaying]
  cases d.ending with
  | none => exact Nat.sub_add_cancel hsome
  | some _ => exact Nat.sub_add_cancel hsome

theorem countP_isAdmitted_set (hg : h.guests[n]? = some (.admitted c)) (d : Connection) :
    (h.guests.set n (.admitted d)).countP Guest.isAdmitted = h.admissions := by
  obtain ⟨hn, hget⟩ := List.getElem?_eq_some_iff.1 hg
  have hadmitted : h.guests[n].isAdmitted = true := by
    rw [hget]
    rfl
  have hsome : 0 < h.admissions := List.countP_pos_iff.2 ⟨_, List.getElem_mem hn, hadmitted⟩
  rw [List.countP_set hn, if_pos hadmitted, ← admissions]
  exact Nat.sub_add_cancel hsome

/-- A step of a client that plays ends its game and no other, or none. -/
theorem frees_update (hg : h.guests[n]? = some (.admitted c)) (hopen : c.ending = none)
    (f : Connection → Connection) :
    Frees h (h.update n f) (if (f c).ending.isSome then 1 else 0) := by
  have hplaying := countP_isPlaying_set hg hopen (f c)
  have hadmissions := countP_isAdmitted_set hg (f c)
  obtain ⟨hactive, hopened⟩ :=
    Tally.countAll_sessions h.tally ((f c).events.drop c.events.length)
  rw [update, hg]
  simp only [Guest.update, Guest.events, Guest.isPlaying, hopen, Option.isNone_none, Bool.true_and]
  cases hending : (f c).ending with
  | none =>
      rw [hending] at hplaying
      exact ⟨rfl, hactive, hopened, hplaying, hadmissions⟩
  | some e =>
      rw [hending] at hplaying
      exact ⟨rfl, congrArg (· - 1) hactive, hopened, hplaying, hadmissions⟩

/-- Whether a slot is free, as a number. -/
def free (r : HallRules) (h : Hall) : Nat := if h.taken < r.slots then 1 else 0

theorem counts_enter (r : HallRules) (h : Hall) :
    (h.enter r).taken = h.taken + h.free r ∧
      (h.enter r).tally.active = h.tally.active + h.free r ∧
      (h.enter r).tally.opened = h.tally.opened + h.free r := by
  rw [enter, free]
  split
  · exact ⟨rfl, rfl, rfl⟩
  · exact ⟨rfl, rfl, rfl⟩

theorem guests_count_enter (r : HallRules) (h : Hall) :
    (h.enter r).playing = h.playing + h.free r ∧
      (h.enter r).admissions = h.admissions + h.free r := by
  rw [playing, admissions, guests_enter, List.countP_append, List.countP_append, free]
  split
  · exact ⟨rfl, rfl⟩
  · exact ⟨rfl, rfl⟩

theorem Counted.enter (hc : Counted r h) : Counted r (h.enter r) := by
  obtain ⟨htaken, hactive, hopened⟩ := counts_enter r h
  obtain ⟨hplaying, hadmissions⟩ := guests_count_enter r h
  constructor
  · rw [htaken, hplaying, hc.taken]
  · rw [hactive, hplaying, hc.active]
  · rw [hopened, hadmissions, hc.opened]
  · have hbound := hc.bound
    have hfree : h.playing + h.free r ≤ r.slots := by
      rw [free, hc.taken]
      split
      · next hless => exact hless
      · exact hbound
    rw [hplaying]
    exact hfree

/-- Whether the game of the client `n` is over, as a number. -/
def gamesOver (h : Hall) (n : Nat) : Nat := if h.guests[n]?.any Guest.isOver then 1 else 0

/-- A step of a client changes its connection, which stays as it is once it has ended. -/
theorem exists_update {s : HallStep} (hs : s.client? = some n) (r : HallRules) (h : Hall) :
    ∃ f, h.step r s = h.update n f ∧ ∀ c, c.ending.isSome = true → f c = c := by
  cases s with
  | enter => cases hs
  | send m bytes =>
      cases hs
      exact ⟨_, rfl, fun c hended => (Connection.takes_of_ended r.limit hended bytes).state_eq⟩
  | leave m =>
      cases hs
      exact ⟨_, rfl, fun c hended => Connection.hangUp_of_ended hended⟩

/-- What a step of a client frees is what it ends of the game of this client. -/
theorem frees_step {s : HallStep} (hs : s.client? = some n) (r : HallRules) (h : Hall) :
    ∃ k, Frees h (h.step r s) k ∧ k + h.gamesOver n = (h.step r s).gamesOver n := by
  obtain ⟨f, hstep, hkeeps⟩ := exists_update hs r h
  rw [hstep]
  cases hguest : h.guests[n]? with
  | none =>
      rw [update_of_none hguest]
      exact ⟨0, Frees.refl h, Nat.zero_add _⟩
  | some g =>
      cases g with
      | refused =>
          rw [update_of_fixed hguest rfl]
          exact ⟨0, Frees.refl h, Nat.zero_add _⟩
      | admitted c =>
          by_cases hended : c.ending.isSome = true
          · have hfix : (Guest.admitted c).update f = .admitted c :=
              congrArg Guest.admitted (hkeeps c hended)
            rw [update_of_fixed hguest hfix]
            exact ⟨0, Frees.refl h, Nat.zero_add _⟩
          · have hopen : c.ending = none := by simpa using hended
            refine ⟨_, frees_update hguest hopen f, ?_⟩
            rw [gamesOver, gamesOver, guests_update, List.getElem?_modify_eq, hguest]
            simp only [Option.any_some, Guest.isOver, hopen, Option.map_eq_map, Option.map_some,
              Guest.update]
            exact Nat.add_zero _

theorem gamesOver_step {s : HallStep} (hs : s.client? ≠ some n) (r : HallRules) (h : Hall) :
    (h.step r s).gamesOver n = h.gamesOver n := by
  cases s with
  | enter =>
      have hnew : (if h.taken < r.slots then Guest.admitted Connection.start
          else .refused).isOver = false := by
        split
        · rfl
        · rfl
      rw [step, gamesOver, gamesOver, guests_enter]
      rcases Nat.lt_trichotomy n h.guests.length with hbefore | hnext | hafter
      · rw [List.getElem?_append_left hbefore]
      · rw [hnext, List.getElem?_concat_length, Option.any_some, hnew,
          List.getElem?_eq_none (Nat.le_refl _)]
        rfl
      · rw [List.getElem?_eq_none (Nat.le_of_lt hafter), List.getElem?_eq_none]
        rw [List.length_append]
        exact hafter
  | send m bytes =>
      have hm : m ≠ n := fun hm => hs (congrArg some hm)
      rw [step, send, gamesOver, gamesOver, guests_update, List.getElem?_modify_ne _ _ hm]
  | leave m =>
      have hm : m ≠ n := fun hm => hs (congrArg some hm)
      rw [step, leave, gamesOver, gamesOver, guests_update, List.getElem?_modify_ne _ _ hm]

/-! ## A whole run -/

theorem Counted.step (hc : Counted r h) (s : HallStep) : Counted r (h.step r s) := by
  cases hs : s.client? with
  | none =>
      cases s with
      | enter => exact hc.enter
      | send | leave => cases hs
  | some n =>
      obtain ⟨k, hfrees, -⟩ := frees_step hs r h
      exact hc.of_frees hfrees

theorem Counted.goOn (hc : Counted r h) (steps : List HallStep) : Counted r (h.goOn r steps) := by
  induction steps generalizing h with
  | nil => exact hc
  | cons s steps ih => exact ih (hc.step s)

theorem counted_start (r : HallRules) : Counted r start := ⟨rfl, rfl, rfl, Nat.zero_le _⟩

theorem counted_run (r : HallRules) (steps : List HallStep) : Counted r (run r steps) :=
  (counted_start r).goOn steps

-- the one slot is free again when the client that has it leaves, and not when the refused one does
example : (run ⟨1, 128⟩ [.enter, .enter, .leave 1, .enter, .leave 0, .enter]).guests.map
    Guest.isAdmitted = [true, false, false, true] := by
  decide

/-- How many slots the steps of the client `n` give back. -/
def givenBack (r : HallRules) (n : Nat) : Hall → List HallStep → Nat
  | _, [] => 0
  | h, s :: steps =>
      (if s.client? = some n then h.taken - (h.step r s).taken else 0) +
        givenBack r n (h.step r s) steps

/-- A client gives back one slot, when its game ends. -/
theorem givenBack_goOn (hc : Counted r h) (n : Nat) (steps : List HallStep) :
    givenBack r n h steps + h.gamesOver n = (h.goOn r steps).gamesOver n := by
  induction steps generalizing h with
  | nil => exact Nat.zero_add _
  | cons s steps ih =>
      have hrest : givenBack r n (h.step r s) steps + (h.step r s).gamesOver n =
          (h.goOn r (s :: steps)).gamesOver n := ih (hc.step s)
      rw [givenBack]
      by_cases hs : s.client? = some n
      · obtain ⟨k, hfrees, hover⟩ := frees_step hs r h
        have htaken := hc.taken_of_frees hfrees
        rw [if_pos hs]
        omega
      · have hover := gamesOver_step hs r h
        rw [if_neg hs]
        omega

theorem step_of_not_playing {s : HallStep} {g : Guest} (hs : s.client? = some n) (r : HallRules)
    (hg : h.guests[n]? = some g) (hplays : g.isPlaying = false) : h.step r s = h := by
  obtain ⟨f, hstep, hkeeps⟩ := exists_update hs r h
  rw [hstep]
  apply update_of_fixed hg
  cases g with
  | refused => rfl
  | admitted c =>
      rw [Guest.isPlaying, Option.isNone_eq_false_iff] at hplays
      exact congrArg Guest.admitted (hkeeps c hplays)

/-- **Slots are neither exceeded nor lost.**  After every run, the games that go on are no more than
the slots, and they are the slots that are taken and the games that the tally has as active; as
opened it has as many as clients were admitted.  A client is admitted exactly if fewer games go on
than there are slots.  If it is not, neither its coming nor anything that it does changes a count.  A
client that plays gives its slot back when it hangs up, and when a frame is no text or is cut at the
cap, and not before; and over the whole run, each client whose game is over has given back one slot,
and all others none. -/
theorem slots_kept (r : HallRules) (steps : List HallStep) :
    ((run r steps).playing ≤ r.slots ∧ (run r steps).tally.active = (run r steps).playing ∧
        (run r steps).taken = (run r steps).playing ∧
        (run r steps).tally.opened = (run r steps).admissions) ∧
      ((run r steps).enter r).guests = (run r steps).guests ++
        [if (run r steps).playing < r.slots then .admitted Connection.start else .refused] ∧
      (r.slots ≤ (run r steps).playing →
        ((run r steps).enter r).playing = (run r steps).playing ∧
          ((run r steps).enter r).taken = (run r steps).taken ∧
          ((run r steps).enter r).tally = (run r steps).tally) ∧
      (∀ s n g, HallStep.client? s = some n → (run r steps).guests[n]? = some g →
        g.isPlaying = false → (run r steps).step r s = run r steps) ∧
      (∀ n c, (run r steps).guests[n]? = some (.admitted c) → c.ending = none →
        ((run r steps).leave r n).taken + 1 = (run r steps).taken ∧
          ∀ bytes,
            (c.Breaks r.limit bytes →
              ((run r steps).send r n bytes).taken + 1 = (run r steps).taken) ∧
            (¬ c.Breaks r.limit bytes →
              ((run r steps).send r n bytes).taken = (run r steps).taken)) ∧
      ∀ n, givenBack r n start steps =
        if (run r steps).guests[n]?.any Guest.isOver then 1 else 0 := by
  have hcounted := counted_run r steps
  have hgiven (n : Nat) : givenBack r n start steps = (run r steps).gamesOver n :=
    givenBack_goOn (counted_start r) n steps
  generalize run r steps = h at hcounted hgiven ⊢
  refine ⟨⟨hcounted.bound, hcounted.active, hcounted.taken, hcounted.opened⟩, ?_, ?_, ?_, ?_, ?_⟩
  · rw [guests_enter, hcounted.taken]
  · intro hfull
    have hnone : ¬ h.taken < r.slots := by
      rw [hcounted.taken]
      omega
    have hplaying := (guests_count_enter r h).1
    rw [free, if_neg hnone] at hplaying
    refine ⟨hplaying, ?_, ?_⟩
    · rw [enter, if_neg hnone]
    · rw [enter, if_neg hnone]
  · exact fun s n g hs hg hplays => step_of_not_playing hs r hg hplays
  · intro n c hg hopen
    have htaken (f : Connection → Connection) :
        (h.update n f).taken + (if (f c).ending.isSome then 1 else 0) = h.taken :=
      hcounted.taken_of_frees (frees_update hg hopen f)
    constructor
    · have hleft := htaken fun c => c.hangUp r.limit
      rwa [if_pos (Connection.isSome_ending_hangUp r.limit c)] at hleft
    · intro bytes
      have hsent := htaken fun c => c.receiveAll r.limit bytes
      have hends : (c.receiveAll r.limit bytes).ending.isSome = true ↔ c.Breaks r.limit bytes :=
        Connection.isSome_ending_receiveAll hopen bytes
      constructor
      · intro hbreaks
        rwa [if_pos (hends.2 hbreaks)] at hsent
      · intro hcalm
        rwa [if_neg (mt hends.1 hcalm)] at hsent
  · exact hgiven

end Hall

end Relay

end ShellQuest
