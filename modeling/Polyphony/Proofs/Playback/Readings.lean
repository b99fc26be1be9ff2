import Polyphony.Proofs.Playback.Interleaving
import Polyphony.Proofs.Renderer.Finish

namespace Polyphony

namespace Queue

variable {α : Type} (q : Queue α) (a : α)

@[simp] theorem capacity_offer : (q.offer a).capacity = q.capacity := by
  rw [offer, push?]
  split <;> rfl

/-- A queue that has been offered `xs` since it was empty holds the oldest of them. -/
theorem items_offer_of_take {n : ℕ} (hn : q.capacity = n) {xs : List α}
    (h : q.items = xs.take n) : (q.offer a).items = (xs ++ [a]).take n := by
  subst hn
  have hlength := congrArg List.length h
  rw [List.length_take] at hlength
  rw [offer, push?]
  split
  -- As long as there is room, nothing of `xs` has been lost.
  · rw [List.take_of_length_le (by simp; omega), Option.getD_some]
    rw [List.take_of_length_le (by omega)] at h
    simp only [h]
  · rw [List.take_append_of_le_length (by omega), Option.getD_none, h]

end Queue

theorem getLast?_flatMap {α : Type} {f : List α → List α} (hf : ∀ l, f l = [] ↔ l = [])
    (ls : List (List α)) :
    (ls.flatMap f).getLast? = (f ((ls.filter (!·.isEmpty)).getLastD [])).getLast? := by
  induction ls using List.reverseRecOn with
  | nil => simp [(hf []).mpr rfl]
  | append_singleton ls l ih =>
    rw [List.flatMap_append, List.flatMap_singleton, List.getLast?_append, List.filter_append]
    by_cases hl : l = []
    · subst hl
      simp [(hf []).mpr rfl, ih]
    · have hlast : ((f l).getLast?).isSome := by simp [hf, hl]
      simp [Option.or_of_isSome hlast, hl]

/-- A player and the readings that its callbacks have taken: for each turn those between it and
the turn before, and those since the last turn. -/
structure Watch where
  player : Player
  batches : List (List Reading)
  fresh : List Reading

namespace Watch

open Playback (readingCapacity)

def start (p : Player) : Watch := ⟨p, [], []⟩

def allBatches (w : Watch) : List (List Reading) := w.batches ++ [w.fresh]

def taken (w : Watch) : List Reading := w.allBatches.flatten

def newest (w : Watch) : List Reading := (w.allBatches.filter (!·.isEmpty)).getLastD []

/-- Of each batch, the console has got as many readings as the queue has places. -/
structure Faithful (w : Watch) : Prop where
  channels : w.player.channels ≠ 0
  capacity : w.player.playback.readings.capacity = readingCapacity
  waiting : w.player.playback.readings.items = w.fresh.take readingCapacity
  shown : w.player.console.reading =
    (w.batches.flatMap (·.take readingCapacity)).getLastD .start

variable {w : Watch}

theorem faithful_start (s : Session) (settings : List VoiceSettings) (rate : UInt32)
    {channels : ℕ} (hc : channels ≠ 0) (j : Journal) (d : Display) :
    (start (.start s settings rate channels j d)).Faithful :=
  ⟨hc, rfl, rfl, rfl⟩

theorem Faithful.reading_refresh (h : w.Faithful) : w.player.refresh.console.reading =
    (w.fresh.take readingCapacity).getLastD w.player.console.reading := by
  rw [← h.waiting]
  rfl

theorem Faithful.reading_refresh_eq (h : w.Faithful) : w.player.refresh.console.reading =
    (w.allBatches.flatMap (·.take readingCapacity)).getLastD .start := by
  rw [h.reading_refresh, h.shown, allBatches, List.flatMap_append, List.flatMap_singleton]
  simp only [List.getLastD_eq_getLast?, List.getLast?_append, Option.getD_or]

theorem Faithful.reading_refresh_newest (h : w.Faithful) : w.player.refresh.console.reading =
    (w.newest.take readingCapacity).getLastD .start := by
  have htake : ∀ l : List Reading, l.take readingCapacity = [] ↔ l = [] := by
    simp [readingCapacity]
  rw [h.reading_refresh_eq, List.getLastD_eq_getLast?, getLast?_flatMap htake, ← newest,
    ← List.getLastD_eq_getLast?]

theorem getLast?_taken (w : Watch) : w.taken.getLast? = w.newest.getLast? := by
  rw [taken, ← List.flatMap_id]
  exact getLast?_flatMap (fun _ ↦ Iff.rfl) w.allBatches

def follow (w : Watch) (p : Player) : Moment → Watch
  | .device (.callback _) => ⟨p, w.batches, w.fresh ++ [.ofRenderer p.playback.renderer]⟩
  | .turn => ⟨p, w.batches ++ [w.fresh], []⟩
  | .device (.failure _) | .input _ => { w with player := p }

theorem player_follow (w : Watch) (p : Player) (m : Moment) : (w.follow p m).player = p := by
  match m with
  | .device (.callback _) | .device (.failure _) | .input _ | .turn => rfl

section Run

variable [Elementary]

def meet (w : Watch) (m : Moment) : Except ArithmeticFault Watch :=
  (w.player.meet m).map fun p ↦ w.follow p m

def meetAll (w : Watch) (ms : List Moment) : Except ArithmeticFault Watch := ms.foldlM meet w

theorem Faithful.meet (h : w.Faithful) (m : Moment) :
    ∃ next, w.meet m = .ok next ∧ next.Faithful := by
  match m with
  | .device (.callback buffer) =>
    refine ⟨_, by rw [Watch.meet, Player.meet, Playback.callback_eq _ h.channels]; rfl, ?_⟩
    refine ⟨h.channels, ?_, ?_, h.shown⟩
    · exact (Queue.capacity_offer _ _).trans h.capacity
    · exact Queue.items_offer_of_take _ _ h.capacity h.waiting
  | .device (.failure text) => exact ⟨_, rfl, h.channels, h.capacity, h.waiting, h.shown⟩
  | .input i =>
    obtain ⟨_, _, _, hhandle⟩ := w.player.handle_frame i
    refine ⟨_, by rw [Watch.meet, Player.meet, hhandle]; rfl, ?_⟩
    exact ⟨h.channels, h.capacity, h.waiting, h.shown⟩
  | .turn => exact ⟨_, rfl, h.channels, h.capacity, rfl, h.reading_refresh_eq⟩

theorem Faithful.meetAll (h : w.Faithful) (ms : List Moment) :
    ∃ last, w.meetAll ms = .ok last ∧ last.Faithful := by
  induction ms generalizing w with
  | nil => exact ⟨w, rfl, h⟩
  | cons m ms ih =>
    obtain ⟨next, hnext, hfaithful⟩ := h.meet m
    obtain ⟨last, hlast, hlastFaithful⟩ := ih hfaithful
    refine ⟨last, ?_, hlastFaithful⟩
    rw [Watch.meetAll, List.foldlM_cons, hnext]
    exact hlast

theorem map_player_meetAll (w : Watch) (ms : List Moment) :
    (w.meetAll ms).map player = w.player.meetAll ms := by
  induction ms generalizing w with
  | nil => rfl
  | cons m ms ih =>
    rw [meetAll, Player.meetAll, List.foldlM_cons, List.foldlM_cons, meet]
    cases w.player.meet m with
    | error _ => rfl
    | ok p =>
      have hnext := ih (w.follow p m)
      rw [player_follow] at hnext
      exact hnext

theorem exists_watch_run {p : Player} {ts : List Turn} (h : (p.run ts).ending = .ongoing) :
    ∃ w, (start p).meetAll (ts.flatMap fun t ↦ .turn :: t.moments) = .ok w ∧
      w.player.refresh = (p.run ts).player := by
  obtain ⟨q, hq, hrefresh⟩ := Player.exists_meetAll_run h
  have hwatch := (start p).map_player_meetAll (ts.flatMap fun t ↦ .turn :: t.moments)
  obtain ⟨w, hw, rfl⟩ := ok_of_map (hwatch.trans hq)
  exact ⟨w, hw, hrefresh⟩

/-- A turn shows the newest reading that found room in the queue, which is the newest one of all
unless there were more of them between two turns than there is room for. A run that goes on is one
of the ways in which moments can follow each other. -/
theorem turn_shows_latest (s : Session) (settings : List VoiceSettings) (rate : UInt32)
    {channels : ℕ} (hc : channels ≠ 0) (j : Journal) (d : Display) (ms : List Moment) :
    let p := Player.start s settings rate channels j d
    (∃ w, (start p).meetAll ms = .ok w ∧ p.meetAll ms = .ok w.player ∧
      w.player.refresh.console.reading = (w.newest.take readingCapacity).getLastD .start ∧
      (w.newest.length ≤ readingCapacity →
        ∀ r ∈ w.taken.getLast?, w.player.refresh.console.reading = r)) ∧
    ∀ ts, (p.run ts).ending = .ongoing →
      ∃ w, (start p).meetAll (ts.flatMap fun t ↦ .turn :: t.moments) = .ok w ∧
        w.player.refresh = (p.run ts).player := by
  intro p
  refine ⟨?_, fun ts hts ↦ exists_watch_run hts⟩
  obtain ⟨w, hw, h⟩ := (faithful_start s settings rate hc j d).meetAll ms
  have hplayer := (start p).map_player_meetAll ms
  rw [hw] at hplayer
  refine ⟨w, hw, hplayer.symm, h.reading_refresh_newest, ?_⟩
  intro hroom r hr
  rw [getLast?_taken] at hr
  rw [h.reading_refresh_newest, List.take_of_length_le hroom, List.getLastD_eq_getLast?, hr]
  rfl

structure Ticked (p : Player) (k : ℕ) (w : Watch) : Prop where
  channels : w.player.channels = 1
  control : w.player.playback.control.items = []
  renderer : w.player.playback.renderer = (p.playback.renderer.block k).2
  batches : w.batches = []
  fresh : w.fresh =
    (List.range k).map fun i ↦ .ofRenderer (p.playback.renderer.block (i + 1)).2

theorem Ticked.meet {p : Player} {k : ℕ} (h : Ticked p k w) (x : Float32) :
    ∃ next, w.meet (.device (.callback #[x])) = .ok next ∧ Ticked p (k + 1) next := by
  have hc : w.player.channels ≠ 0 := by
    rw [h.channels]
    decide
  have hnext : (w.player.playback.obeyed.block (#[x].size / w.player.channels)).2 =
      (p.playback.renderer.block (k + 1)).2 := by
    rw [Playback.obeyed, h.control, h.renderer, h.channels, Nat.div_one, Renderer.block_append]
    rfl
  refine ⟨_, by rw [Watch.meet, Player.meet, Playback.callback_eq _ hc]; rfl, ?_⟩
  refine ⟨h.channels, rfl, hnext, h.batches, ?_⟩
  rw [List.range_succ, List.map_append, ← h.fresh, List.map_singleton, ← hnext]
  rfl

theorem exists_ticked {p : Player} (hc : p.channels = 1)
    (hcontrol : p.playback.control.items = []) (x : Float32) (k : ℕ) :
    ∃ w, (start p).meetAll (.replicate k (.device (.callback #[x]))) = .ok w ∧ Ticked p k w := by
  induction k with
  | zero => exact ⟨start p, rfl, hc, hcontrol, by rw [Renderer.block_zero]; rfl, rfl, rfl⟩
  | succ k ih =>
    obtain ⟨w, hw, hticked⟩ := ih
    obtain ⟨next, hnext, hnextTicked⟩ := hticked.meet x
    refine ⟨next, ?_, hnextTicked⟩
    rw [List.replicate_succ', meetAll, List.foldlM_append, ← meetAll, hw]
    exact (bind_pure (w.meet _)).trans hnext

end Run

def slow : Player :=
  .start Renderer.callSession [{ melody := "C4/4 G4/2", bpm := 120 }] 100 1 ⟨none, []⟩ {}

def interlude : List Moment :=
  [.turn, .device (.callback #[9.0]), .input (.key (.char ' ') .press),
    .device (.callback #[9.0, 9.0]), .turn, .device (.callback #[])]

theorem turn_of_slow : 1 ≠ 0 ∧
    (∃ w, (start slow).meetAll interlude = .ok w ∧ slow.meetAll interlude = .ok w.player ∧
      w.player.refresh.console.reading = (w.newest.take readingCapacity).getLastD .start ∧
      (w.newest.length ≤ readingCapacity →
        ∀ r ∈ w.taken.getLast?, w.player.refresh.console.reading = r)) ∧
    ∀ ts, (slow.run ts).ending = .ongoing →
      ∃ w, (start slow).meetAll (ts.flatMap fun t ↦ .turn :: t.moments) = .ok w ∧
        w.player.refresh = (slow.run ts).player :=
  ⟨by decide, turn_shows_latest _ _ _ (by decide) _ _ _⟩

/-- The 65th callback since the last turn leaves no reading, and the turn shows the 64th. -/
theorem turn_shows_stale : ∃ w,
    (start slow).meetAll (.replicate 65 (.device (.callback #[0.0]))) = .ok w ∧
      ∃ r ∈ w.taken.getLast?, w.player.refresh.console.reading ≠ r := by
  have hfaithful : (start slow).Faithful := faithful_start _ _ _ (by decide) _ _
  obtain ⟨w, hw, h⟩ := exists_ticked (p := slow) rfl rfl 0.0 65
  obtain ⟨w', hw', hlast⟩ := hfaithful.meetAll (.replicate 65 (.device (.callback #[0.0])))
  obtain rfl : w = w' := Except.ok.inj (hw.symm.trans hw')
  have hlatest : w.taken.getLast? =
      some (.ofRenderer (slow.playback.renderer.block 65).2) := by
    rw [taken, allBatches, h.batches, h.fresh, List.range_succ]
    simp
  have hshown : w.player.refresh.console.reading =
      .ofRenderer (slow.playback.renderer.block 64).2 := by
    have htake : (List.range 65).take readingCapacity = List.range 63 ++ [63] := rfl
    rw [hlast.reading_refresh, h.fresh, ← List.map_take, htake]
    simp
  refine ⟨w, hw, _, hlatest, ?_⟩
  rw [hshown]
  intro heq
  have htime := congrArg Reading.time heq
  simp only [Reading.ofRenderer, Renderer.time_block] at htime
  revert htime
  decide

end Watch

end Polyphony
