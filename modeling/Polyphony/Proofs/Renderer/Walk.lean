import Mathlib.Data.List.TakeWhile
import Polyphony.Proofs.Renderer.Clock
import Polyphony.Proofs.Renderer.Frames

namespace Polyphony

open Number

namespace Entry

structure Timed (e : Entry) : Prop where
  start : ¬ e.startTime.isNaN
  finish : ¬ e.finishTime.isNaN

end Entry

namespace Renderer

variable {rate : Float}

theorem le_clockAt_mono (h : Positive rate) {x : Float} (hx : ¬ x.isNaN) {j k : ℕ} (hjk : j ≤ k)
    (hle : x ≤ clockAt rate j) : x ≤ clockAt rate k := by
  rw [le_iff hx (clockAt_isNaN h _)] at hle ⊢
  exact hle.trans (level_clockAt_mono h hjk)

theorem clockAt_le_mono (h : Positive rate) {x : Float} (hx : ¬ x.isNaN) {j k : ℕ} (hjk : j ≤ k)
    (hle : clockAt rate k ≤ x) : clockAt rate j ≤ x := by
  rw [le_iff (clockAt_isNaN h _) hx] at hle ⊢
  exact (level_clockAt_mono h hjk).trans hle

theorem not_lt_clockAt (h : Positive rate) {x : Float} (hx : ¬ x.isNaN) (k : ℕ) :
    ¬ x < clockAt rate k ↔ clockAt rate k ≤ x := by
  rw [lt_iff hx (clockAt_isNaN h _), le_iff (clockAt_isNaN h _) hx, not_lt]

def soundedLast (rate : Float) (e : Entry) : ℕ → Bool
  | 0 => false
  | k + 1 => e.isSounding (clockAt rate k)

/-- In how many of the first `k` samples an entry sounds. -/
def soundings (rate : Float) (e : Entry) (k : ℕ) : ℕ :=
  (List.range k).countP fun j ↦
    e.startTime ≤ Float.ofNat j / rate && Float.ofNat j / rate ≤ e.finishTime

theorem soundings_succ (rate : Float) (e : Entry) (k : ℕ) : soundings rate e (k + 1) =
    soundings rate e k + if e.isSounding (clockAt rate k) then 1 else 0 := by
  rw [soundings, List.range_succ, List.countP_append, List.countP_singleton]
  rfl

theorem isSounding_iff {e : Entry} {t : Float} :
    e.isSounding t ↔ e.startTime ≤ t ∧ t ≤ e.finishTime := by
  simp [Entry.isSounding]

theorem soundings_eq_zero {e : Entry} {k : ℕ}
    (h : ∀ j < k, ¬ e.startTime ≤ clockAt rate j) : soundings rate e k = 0 := by
  rw [soundings, List.countP_eq_zero]
  intro j hj hs
  rw [Bool.and_eq_true, decide_eq_true_eq] at hs
  exact h j (List.mem_range.mp hj) hs.1

theorem soundedLast_of_started (h : Positive rate) {e : Entry} (he : e.Timed) {j k : ℕ}
    (hj : j < k) (hs : e.startTime ≤ clockAt rate j) (hf : clockAt rate k ≤ e.finishTime) :
    soundedLast rate e k := by
  obtain ⟨k, rfl⟩ : ∃ n, k = n + 1 := ⟨k - 1, by omega⟩
  rw [soundedLast, isSounding_iff]
  exact ⟨le_clockAt_mono h he.start (by omega) hs, clockAt_le_mono h he.finish k.le_succ hf⟩

theorem started_of_soundedLast {e : Entry} {k : ℕ} (hs : soundedLast rate e k) :
    ∃ j < k, e.startTime ≤ clockAt rate j := by
  cases k with
  | zero => simp [soundedLast] at hs
  | succ k => exact ⟨k, k.lt_succ_self, (isSounding_iff.mp hs).1⟩

def Ordered (events : Array Event) : Prop :=
  events.toList.Pairwise fun d e ↦ level d.entry.startTime ≤ level e.entry.startTime

def later (r : Renderer) (t : Float) : List (Event × ℕ) :=
  (r.numbered.drop r.cursor).dropWhile fun x ↦ x.1.entry.startTime ≤ t

theorem drop_cursor (r : Renderer) (t : Float) :
    r.numbered.drop r.cursor = r.due t ++ r.later t :=
  List.takeWhile_append_dropWhile.symm

theorem numbered_split (r : Renderer) (t : Float) :
    r.numbered = r.numbered.take r.cursor ++ r.due t ++ r.later t := by
  rw [List.append_assoc, ← drop_cursor, List.take_append_drop]

theorem started_le_of_mem_due {r : Renderer} {t : Float} {x : Event × ℕ} (h : x ∈ r.due t) :
    x.1.entry.startTime ≤ t := by
  simpa using List.mem_takeWhile_imp h

theorem not_started_of_mem_later {r : Renderer} (ho : Ordered r.events)
    (ht : ∀ e ∈ r.events, e.entry.Timed) {k : ℕ} (h : Positive rate) {x : Event × ℕ}
    (hx : x ∈ r.later (clockAt rate k)) : ¬ x.1.entry.startTime ≤ clockAt rate k := by
  have hsub : (r.later (clockAt rate k)).Sublist r.numbered :=
    (List.dropWhile_sublist _).trans (List.drop_sublist _ _)
  have hmem {y : Event × ℕ} (hy : y ∈ r.later (clockAt rate k)) : y.1 ∈ r.events :=
    Array.mem_of_getElem? (mem_numbered.mp (hsub.mem hy))
  have hpair : (r.later (clockAt rate k)).Pairwise
      fun x y ↦ level x.1.entry.startTime ≤ level y.1.entry.startTime := by
    refine List.Pairwise.sublist hsub ?_
    rw [← List.pairwise_map (R := fun d e : Event ↦
      level d.entry.startTime ≤ level e.entry.startTime), numbered, List.zipIdx_map_fst]
    exact ho
  have hhead := List.head?_dropWhile_not (fun x : Event × ℕ ↦
    decide (x.1.entry.startTime ≤ clockAt rate k)) (r.numbered.drop r.cursor)
  rw [← later] at hhead
  cases hl : r.later (clockAt rate k) with
  | nil => simp [hl] at hx
  | cons y ys =>
    rw [hl] at hpair hx hmem hhead
    have hy : ¬ y.1.entry.startTime ≤ clockAt rate k := by simpa using hhead
    rcases List.mem_cons.mp hx with rfl | hxs
    · exact hy
    · have hle := List.rel_of_pairwise_cons hpair hxs
      rw [le_iff (ht _ (hmem hx)).start (clockAt_isNaN h k)]
      rw [le_iff (ht _ (hmem List.mem_cons_self)).start (clockAt_isNaN h k)] at hy
      omega

theorem lt_of_mem_take_numbered {r : Renderer} {c : ℕ} {x : Event × ℕ}
    (h : x ∈ r.numbered.take c) : x.2 < c := by
  obtain ⟨j, hj, rfl⟩ := List.mem_take_iff_getElem.mp h
  simp only [numbered, List.getElem_zipIdx]
  omega

theorem le_of_mem_drop_numbered {r : Renderer} {c : ℕ} {x : Event × ℕ}
    (h : x ∈ r.numbered.drop c) : c ≤ x.2 := by
  obtain ⟨j, hj, rfl⟩ := List.mem_drop_iff_getElem.mp h
  simp only [numbered, List.getElem_zipIdx]
  omega

/-- The phase of an entry before sample `k`: it moves on with each sample that the entry is heard
in. -/
def phaseBefore (rate : Float) (e : Entry) (k : ℕ) : Float :=
  (fun p ↦ fraction (p + e.frequency * (1.0 / rate)))^[soundings rate e k] 0.0

theorem phaseBefore_succ {e : Entry} {k : ℕ} (h : e.isSounding (clockAt rate k)) :
    phaseBefore rate e (k + 1) = nextPhase e (1.0 / rate) (phaseBefore rate e k) := by
  rw [phaseBefore, soundings_succ, if_pos h, Function.iterate_succ_apply']
  rfl

theorem phaseBefore_of_not_started {e : Entry} {k : ℕ}
    (h : ∀ j < k, ¬ e.startTime ≤ clockAt rate j) : phaseBefore rate e k = 0.0 := by
  rw [phaseBefore, soundings_eq_zero h, Function.iterate_zero_apply]

def oscillators (rate : Float) (k : ℕ) (xs : List (Event × ℕ)) : List Oscillator :=
  xs.map fun x ↦ ⟨x.2, phaseBefore rate x.1.entry k⟩

/-- What the first `k` samples of a walk through the events leave behind. -/
structure Walked (r₀ : Renderer) (k : ℕ) (r : Renderer) : Prop where
  events : r.events = r₀.events
  sampleRate : r.sampleRate = r₀.sampleRate
  gain : r.gain = r₀.gain
  frames : r.frames = k
  cursor : ∀ x ∈ r₀.numbered, x.2 < r.cursor ↔
    ∃ j < k, x.1.entry.startTime ≤ clockAt r₀.sampleRate j
  active : r.active = oscillators r₀.sampleRate k
    (r₀.numbered.filter fun x ↦ soundedLast r₀.sampleRate x.1.entry k)

structure Fresh (r : Renderer) : Prop where
  rate : Positive r.sampleRate
  timed : ∀ e ∈ r.events, e.entry.Timed
  ordered : Ordered r.events
  cursor : r.cursor = 0
  active : r.active = []
  frames : r.frames = 0

theorem Fresh.walked {r : Renderer} (h : r.Fresh) : Walked r 0 r where
  events := rfl
  sampleRate := rfl
  gain := rfl
  frames := h.frames
  cursor x _ := by simp [h.cursor]
  active := by simp [h.active, soundedLast, oscillators]

variable {r₀ r : Renderer} {k : ℕ}

theorem Walked.numbered (h : Walked r₀ k r) : r.numbered = r₀.numbered := by
  rw [Renderer.numbered, h.events, Renderer.numbered]

theorem Walked.time (h : Walked r₀ k r) : r.time = clockAt r₀.sampleRate k := by
  rw [Renderer.time, h.sampleRate, h.frames]

theorem Fresh.timed_of_mem (h₀ : r₀.Fresh) {x : Event × ℕ} (hx : x ∈ r₀.numbered) :
    x.1.entry.Timed :=
  h₀.timed _ (Array.mem_of_getElem? (mem_numbered.mp hx))

theorem Fresh.alive_iff (h₀ : r₀.Fresh) {x : Event × ℕ} (hx : x ∈ r₀.numbered) (p : Float) :
    alive r₀.events (clockAt r₀.sampleRate k) ⟨x.2, p⟩ ↔
      clockAt r₀.sampleRate k ≤ x.1.entry.finishTime := by
  rw [← not_lt_clockAt h₀.rate (h₀.timed_of_mem hx).finish]
  simp [alive, mem_numbered.mp hx]

theorem filter_congr_oscillators {p : Oscillator → Bool} {q : Event × ℕ → Bool} {rate : Float}
    {k : ℕ} {xs : List (Event × ℕ)} (h : ∀ x ∈ xs, p ⟨x.2, phaseBefore rate x.1.entry k⟩ = q x) :
    (oscillators rate k xs).filter p = oscillators rate k (xs.filter q) := by
  rw [oscillators, List.filter_map]
  exact congrArg _ (List.filter_congr h)

/-- The events that have been started before: those that go on are those that sound. -/
theorem Walked.filter_active (h₀ : r₀.Fresh) (h : Walked r₀ k r) :
    r.active.filter (alive r₀.events (clockAt r₀.sampleRate k)) =
      oscillators r₀.sampleRate k ((r₀.numbered.take r.cursor).filter fun x ↦
        x.1.entry.isSounding (clockAt r₀.sampleRate k)) := by
  have htail : (r₀.numbered.drop r.cursor).filter
      (fun x ↦ soundedLast r₀.sampleRate x.1.entry k) = [] := by
    rw [List.filter_eq_nil_iff]
    intro x hx hs
    have hlt := (h.cursor x (List.mem_of_mem_drop hx)).mpr (started_of_soundedLast hs)
    exact absurd (le_of_mem_drop_numbered hx) hlt.not_ge
  rw [h.active, ← List.take_append_drop r.cursor r₀.numbered, List.filter_append, htail,
    List.append_nil, List.take_append_drop]
  rw [filter_congr_oscillators (q := fun x ↦ decide
    (clockAt r₀.sampleRate k ≤ x.1.entry.finishTime)), List.filter_filter]
  · congr 1
    refine List.filter_congr fun x hx ↦ ?_
    have hmem := List.mem_of_mem_take hx
    obtain ⟨j, hj, hle⟩ := (h.cursor x hmem).mp (lt_of_mem_take_numbered hx)
    have ht := h₀.timed_of_mem hmem
    rw [Bool.eq_iff_iff, Bool.and_eq_true, decide_eq_true_eq, isSounding_iff]
    constructor
    · rintro ⟨hf, -⟩
      exact ⟨le_clockAt_mono h₀.rate ht.start hj.le hle, hf⟩
    · rintro ⟨-, hf⟩
      exact ⟨hf, soundedLast_of_started h₀.rate ht hj hle hf⟩
  · intro x hx
    rw [Bool.eq_iff_iff, decide_eq_true_eq]
    exact h₀.alive_iff (List.mem_of_mem_take (List.mem_of_mem_filter hx)) _

theorem Walked.filter_due (h₀ : r₀.Fresh) (h : Walked r₀ k r) :
    ((r.due (clockAt r₀.sampleRate k)).map fun x ↦ ⟨x.2, 0.0⟩).filter
        (alive r₀.events (clockAt r₀.sampleRate k)) =
      oscillators r₀.sampleRate k ((r.due (clockAt r₀.sampleRate k)).filter fun x ↦
        x.1.entry.isSounding (clockAt r₀.sampleRate k)) := by
  have hmem {x : Event × ℕ} (hx : x ∈ r.due (clockAt r₀.sampleRate k)) :
      x ∈ r₀.numbered.drop r.cursor := by
    rw [← h.numbered]
    exact (List.takeWhile_sublist _).mem hx
  have hphase : (r.due (clockAt r₀.sampleRate k)).map (fun x ↦ (⟨x.2, 0.0⟩ : Oscillator)) =
      oscillators r₀.sampleRate k (r.due (clockAt r₀.sampleRate k)) := by
    refine List.map_congr_left fun x hx ↦ ?_
    rw [phaseBefore_of_not_started]
    intro j hj hle
    have hlt := (h.cursor x (List.mem_of_mem_drop (hmem hx))).mpr ⟨j, hj, hle⟩
    exact absurd (le_of_mem_drop_numbered (hmem hx)) hlt.not_ge
  rw [hphase]
  refine filter_congr_oscillators fun x hx ↦ ?_
  rw [Bool.eq_iff_iff, h₀.alive_iff (List.mem_of_mem_drop (hmem hx)), isSounding_iff]
  exact ⟨fun hf ↦ ⟨started_le_of_mem_due hx, hf⟩, And.right⟩

/-- Sample `k` is mixed from the events that sound at its time, each at the phase it has by then. -/
theorem Walked.voices (h₀ : r₀.Fresh) (h : Walked r₀ k r) :
    (r.started r.time).active.filter (alive r.events r.time) =
      oscillators r₀.sampleRate k (r₀.numbered.filter fun x ↦
        x.1.entry.isSounding (clockAt r₀.sampleRate k)) := by
  have hlater : (r.later (clockAt r₀.sampleRate k)).filter
      (fun x ↦ x.1.entry.isSounding (clockAt r₀.sampleRate k)) = [] := by
    rw [List.filter_eq_nil_iff]
    intro x hx hs
    exact not_started_of_mem_later (h.events ▸ h₀.ordered) (h.events ▸ h₀.timed) h₀.rate hx
      (isSounding_iff.mp hs).1
  have hsplit := r.numbered_split (clockAt r₀.sampleRate k)
  rw [h.numbered] at hsplit
  rw [h.time, h.events, started, List.filter_append, h.filter_active h₀, h.filter_due h₀]
  conv_rhs => rw [hsplit, List.filter_append, List.filter_append, hlater, List.append_nil]
  rw [oscillators, oscillators, oscillators, List.map_append]

theorem lt_of_mem_due {t : Float} {x : Event × ℕ} (h : x ∈ r.due t) :
    x.2 < r.cursor + (r.due t).length := by
  have hdue : r.due t = (r.numbered.drop r.cursor).take (r.due t).length := by
    rw [drop_cursor r t, List.take_left]
  rw [hdue, List.take_drop] at h
  exact lt_of_mem_take_numbered (List.mem_of_mem_drop h)

theorem le_of_mem_later {t : Float} {x : Event × ℕ} (h : x ∈ r.later t) :
    r.cursor + (r.due t).length ≤ x.2 := by
  have hlater : r.later t = r.numbered.drop (r.cursor + (r.due t).length) := by
    rw [← List.drop_drop, drop_cursor r t, List.drop_left]
  exact le_of_mem_drop_numbered (hlater ▸ h)

theorem Walked.cursor_succ (h₀ : r₀.Fresh) (h : Walked r₀ k r) {x : Event × ℕ}
    (hx : x ∈ r₀.numbered) :
    x.2 < r.cursor + (r.due (clockAt r₀.sampleRate k)).length ↔
      ∃ j < k + 1, x.1.entry.startTime ≤ clockAt r₀.sampleRate j := by
  have hsplit := r.numbered_split (clockAt r₀.sampleRate k)
  rw [h.numbered] at hsplit
  have hpart := hx
  rw [hsplit, List.mem_append, List.mem_append] at hpart
  rcases hpart with (htake | hdue) | hlater
  · have hlt := lt_of_mem_take_numbered htake
    obtain ⟨j, hj, hle⟩ := (h.cursor x hx).mp hlt
    exact ⟨fun _ ↦ ⟨j, hj.trans k.lt_succ_self, hle⟩, fun _ ↦ hlt.trans_le (Nat.le_add_right _ _)⟩
  · exact ⟨fun _ ↦ ⟨k, k.lt_succ_self, started_le_of_mem_due hdue⟩, fun _ ↦ lt_of_mem_due hdue⟩
  · have hge := le_of_mem_later hlater
    have hnot := not_started_of_mem_later (h.events ▸ h₀.ordered) (h.events ▸ h₀.timed) h₀.rate
      hlater
    refine ⟨fun hlt ↦ absurd hge hlt.not_ge, ?_⟩
    rintro ⟨j, hj, hle⟩
    have hk := le_clockAt_mono h₀.rate (h₀.timed_of_mem hx).start (Nat.le_of_lt_succ hj) hle
    exact absurd hk hnot

variable [Elementary]

theorem Walked.advance (h₀ : r₀.Fresh) (h : Walked r₀ k r) : Walked r₀ (k + 1) r.advance := by
  have hadv : r.advance = r.frame.2 := rfl
  rw [hadv, frame_eq]
  refine ⟨h.events, h.sampleRate, h.gain, congrArg (· + 1) h.frames, fun x hx ↦ ?_, ?_⟩
  · rw [← h.cursor_succ h₀ hx, ← h.time]
    rfl
  · simp only
    rw [h.voices h₀, oscillators, List.map_map, oscillators]
    refine List.map_congr_left fun x hx ↦ ?_
    obtain ⟨hmem, hs⟩ := List.mem_filter.mp hx
    rw [Function.comp_apply, advanced, h.events, mem_numbered.mp hmem, h.sampleRate,
      phaseBefore_succ hs]

theorem Fresh.walked_iterate (h₀ : r₀.Fresh) (k : ℕ) : Walked r₀ k (advance^[k] r₀) := by
  induction k with
  | zero => exact h₀.walked
  | succ k ih =>
    rw [Function.iterate_succ_apply']
    exact ih.advance h₀

end Renderer

end Polyphony
