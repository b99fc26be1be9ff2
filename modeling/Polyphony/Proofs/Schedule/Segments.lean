import Polyphony.Proofs.Schedule.Breakpoints

namespace Polyphony

open Floating

def Stage.ofSegment : ℕ → Stage
  | 0 => .attack
  | 1 => .decay
  | 2 => .sustain
  | _ => .release

namespace Envelope

def lastReached? (t : Float) : List Breakpoint → Option ℕ
  | [] => none
  | b :: rest =>
    match lastReached? t rest with
    | some i => some (i + 1)
    | none => if b.time ≤ t then some 0 else none

/-- The breakpoint from which the level at a time is drawn; none where there is silence. -/
def segment? (e : Envelope) (t : Float) : Option ℕ :=
  if t < e.startTime || e.finishTime < t then none
  else some ((lastReached? t e.toList).getD 0)

def levelFrom (e : Envelope) (t : Float) (i : ℕ) : Float32 :=
  match e.toList[i]?, e.toList[i + 1]? with
  | some a, some b => a.level + (b.level - a.level) * narrow ((t - a.time) / (b.time - a.time))
  | some a, none => a.level
  | none, _ => 0.0

/-- The level and the stage at a time belong to the segment that leaves breakpoint `i`. -/
structure DrawnFrom (e : Envelope) (t : Float) (i : ℕ) : Prop where
  lt : i < 5
  reached : ∀ j c, e.toList[j]? = some c → (c.time ≤ t ↔ j ≤ i)
  stage : e.stageAt t = .ofSegment i
  atEnd : i = 4 ↔ t == e.finishTime
  ahead : i < 4 → ∃ b c, e.toList[i]? = some b ∧ e.toList[i + 1]? = some c ∧
    b.time ≤ t ∧ t < c.time ∧ b.time < c.time ∧
    e.levelAt t = b.level + (c.level - b.level) * narrow ((t - b.time) / (c.time - b.time))

variable {e : Envelope} {t : Float} {bs : List Breakpoint} {i : ℕ}

theorem lastReached?_eq_none (h : lastReached? t bs = none) : ∀ b ∈ bs, ¬ b.time ≤ t := by
  induction bs with
  | nil => simp
  | cons b rest ih =>
    rw [lastReached?] at h
    cases hrest : lastReached? t rest with
    | some i => simp [hrest] at h
    | none =>
      rw [hrest] at h
      intro c hc
      rcases List.mem_cons.mp hc with rfl | hc
      · simpa using h
      · exact ih hrest c hc

theorem lastReached?_eq_some (h : lastReached? t bs = some i) :
    (∃ b, bs[i]? = some b ∧ b.time ≤ t) ∧
      ∀ j c, bs[j]? = some c → c.time ≤ t → j ≤ i := by
  induction bs generalizing i with
  | nil => cases h
  | cons b rest ih =>
    rw [lastReached?] at h
    cases hrest : lastReached? t rest with
    | some k =>
      rw [hrest] at h
      cases h
      obtain ⟨hreached, hlast⟩ := ih hrest
      refine ⟨hreached, fun j c hc hle ↦ ?_⟩
      cases j with
      | zero => exact Nat.zero_le _
      | succ j => exact Nat.succ_le_succ (hlast j c hc hle)
    | none =>
      simp only [hrest, Option.ite_none_right_eq_some, Option.some.injEq] at h
      obtain ⟨hb, rfl⟩ := h
      refine ⟨⟨b, rfl, hb⟩, fun j c hc hle ↦ ?_⟩
      cases j with
      | zero => exact le_rfl
      | succ j => exact absurd hle (lastReached?_eq_none hrest c (List.mem_of_getElem? hc))

theorem lastReached?_toList (e : Envelope) (t : Float) : lastReached? t e.toList =
    if e.finish.time ≤ t then some 4
    else if e.stop.time ≤ t then some 3
    else if e.settled.time ≤ t then some 2
    else if e.peak.time ≤ t then some 1
    else if e.start.time ≤ t then some 0
    else none := by
  simp only [toList, lastReached?]
  split_ifs <;> rfl

/-- Asking breakpoint by breakpoint is a search from the back. -/
theorem levelAt_eq (e : Envelope) (t : Float) :
    e.levelAt t = (e.segment? t).elim 0.0 (e.levelFrom t) := by
  rw [levelAt, segment?, startTime, finishTime]
  by_cases hout : (t < e.start.time || e.finish.time < t) = true
  · rw [if_pos hout, if_pos hout]
    rfl
  · rw [if_neg hout, if_neg hout, lastReached?_toList]
    split_ifs <;> rfl

theorem segment?_eq_none_iff :
    e.segment? t = none ↔ t < e.startTime ∨ e.finishTime < t := by
  rw [segment?, ite_eq_left_iff, Bool.or_eq_true, decide_eq_true_iff, decide_eq_true_iff]
  exact ⟨fun h ↦ not_imp_comm.mp h nofun, fun h hout ↦ absurd h hout⟩

theorem not_lt_iff_le {x : Float} (hx : ¬ x.isNaN) (ht : ¬ t.isNaN) : ¬ t < x ↔ x ≤ t := by
  rw [isNaN_iff, not_not] at hx ht
  rw [lt_iff_rat ht hx, le_iff_rat hx ht, not_lt]

theorem lastReached?_of_segment? (h : e.Ordered) (ht : ¬ t.isNaN) (hi : e.segment? t = some i) :
    lastReached? t e.toList = some i := by
  rw [segment?] at hi
  split_ifs at hi with hout
  cases hlast : lastReached? t e.toList with
  | some k =>
    rw [hlast] at hi
    exact hi
  | none =>
    have hmem : e.start ∈ e.toList := List.mem_cons_self
    have hstart := lastReached?_eq_none hlast e.start hmem
    rw [← not_lt_iff_le (h.numbers e.start hmem) ht, not_not] at hstart
    exact absurd (by simp [startTime, hstart]) hout

section Reached

variable (h : e.Ordered) (ht : ¬ t.isNaN) (hi : e.segment? t = some i)
include h ht hi

theorem reached_iff {j : ℕ} {c : Breakpoint} (hc : e.toList[j]? = some c) :
    c.time ≤ t ↔ j ≤ i := by
  obtain ⟨⟨b, hb, hle⟩, hlast⟩ := lastReached?_eq_some (lastReached?_of_segment? h ht hi)
  refine ⟨hlast j c hc, fun hji ↦ ?_⟩
  rcases hji.lt_or_eq with hlt | rfl
  · obtain ⟨hj, rfl⟩ := List.getElem?_eq_some_iff.mp hc
    obtain ⟨hi, rfl⟩ := List.getElem?_eq_some_iff.mp hb
    have hpair := List.pairwise_iff_getElem.mp h.inOrder j i (by simpa using hj)
      (by simpa using hi) hlt
    rw [List.getElem_map, List.getElem_map] at hpair
    exact Floating.le_trans hpair hle
  · rw [hb] at hc
    cases hc
    exact hle

theorem lt_iff_lt_segment {j : ℕ} {c : Breakpoint} (hc : e.toList[j]? = some c) :
    t < c.time ↔ i < j := by
  rw [← not_le, ← reached_iff h ht hi hc,
    ← not_lt_iff_le (h.numbers c (List.mem_of_getElem? hc)) ht, not_not]

theorem stageAt_of_segment? : e.stageAt t = .ofSegment i := by
  have hin : ¬ (t < e.startTime ∨ e.finishTime < t) := by
    rw [← segment?_eq_none_iff, hi]
    nofun
  have hpeak := lt_iff_lt_segment h ht hi (show e.toList[1]? = some e.peak from rfl)
  have hsettled := lt_iff_lt_segment h ht hi (show e.toList[2]? = some e.settled from rfl)
  have hstop := lt_iff_lt_segment h ht hi (show e.toList[3]? = some e.stop from rfl)
  rw [stageAt, if_neg (by simpa [startTime, finishTime] using hin), if_congr hpeak rfl rfl,
    if_congr hsettled rfl rfl, if_congr hstop rfl rfl]
  match i with
  | 0 => rfl
  | 1 => rfl
  | 2 => rfl
  | i + 3 => simp [Stage.ofSegment]

theorem segment_lt : i < 5 := by
  obtain ⟨⟨b, hb, -⟩, -⟩ := lastReached?_eq_some (lastReached?_of_segment? h ht hi)
  exact (List.getElem?_eq_some_iff.mp hb).1

theorem segment_eq_last_iff : i = 4 ↔ t == e.finishTime := by
  have hlast : e.toList[4]? = some e.finish := rfl
  have hnumber := h.numbers e.finish (List.mem_of_getElem? hlast)
  have hle : e.finish.time ≤ t ↔ i = 4 := by
    have hlt := segment_lt h ht hi
    rw [reached_iff h ht hi hlast]
    omega
  have hin : ¬ e.finishTime < t := by
    intro hlt
    rw [segment?_eq_none_iff.mpr (.inr hlt)] at hi
    cases hi
  rw [isNaN_iff, not_not] at hnumber
  have ht' : IsNumber t := by rwa [isNaN_iff, not_not] at ht
  rw [finishTime, lt_iff_rat hnumber ht', not_lt] at hin
  rw [← hle, finishTime, beq_iff_rat ht' hnumber, le_iff_rat hnumber ht']
  exact ⟨hin.antisymm, Eq.ge⟩

theorem segment_ahead (hlt : i < 4) : ∃ b c, e.toList[i]? = some b ∧ e.toList[i + 1]? = some c ∧
    b.time ≤ t ∧ t < c.time ∧ b.time < c.time ∧
    e.levelAt t = b.level + (c.level - b.level) * narrow ((t - b.time) / (c.time - b.time)) := by
  have hsize : e.toList.length = 5 := rfl
  have hb := List.getElem?_eq_getElem (l := e.toList) (show i < e.toList.length by omega)
  have hc := List.getElem?_eq_getElem (l := e.toList) (show i + 1 < e.toList.length by omega)
  have hreached := (reached_iff h ht hi hb).mpr le_rfl
  have hahead := (lt_iff_lt_segment h ht hi hc).mpr (Nat.lt_succ_self i)
  refine ⟨_, _, hb, hc, hreached, hahead, lt_of_le_of_lt hreached hahead, ?_⟩
  rw [levelAt_eq, hi, Option.elim_some, levelFrom, hb, hc]

end Reached

theorem stageAt_eq_idle_iff (h : e.Ordered) (ht : ¬ t.isNaN) :
    e.stageAt t = .idle ↔ e.segment? t = none := by
  constructor
  · intro hidle
    cases hi : e.segment? t with
    | none => rfl
    | some i =>
      rw [stageAt_of_segment? h ht hi] at hidle
      match i with
      | 0 | 1 | 2 | i + 3 => cases hidle
  · intro hnone
    rw [segment?_eq_none_iff] at hnone
    rw [stageAt, if_pos (by simpa [startTime, finishTime] using hnone)]

/-- The level and the stage at a time come from the same segment: the one that leaves the last
breakpoint reached. Outside of the breakpoints there are silence and idleness. -/
theorem level_and_stage_agree (h : e.Ordered) (ht : ¬ t.isNaN) :
    e.levelAt t = (e.segment? t).elim 0.0 (e.levelFrom t) ∧
      (e.segment? t = none ↔ t < e.startTime ∨ e.finishTime < t) ∧
      (e.stageAt t = .idle ↔ e.segment? t = none) ∧
      ∀ i, e.segment? t = some i → e.DrawnFrom t i := by
  refine ⟨levelAt_eq e t, segment?_eq_none_iff, stageAt_eq_idle_iff h ht, fun i hi ↦ ?_⟩
  exact
    { lt := segment_lt h ht hi
      reached := fun j c ↦ reached_iff h ht hi
      stage := stageAt_of_segment? h ht hi
      atEnd := segment_eq_last_iff h ht hi
      ahead := segment_ahead h ht hi }

/-- A note that begins at full level, decays beyond its end and is not released: breakpoints
coincide at both ends. -/
def plucked : Envelope := forNote 0.0 1.0 (.ofShares 0.0 2.0 0.5 0.0)

theorem plucked_agree : plucked.Ordered ∧ ¬ (0.0 : Float).isNaN ∧
    plucked.levelAt 0.0 = (plucked.segment? 0.0).elim 0.0 (plucked.levelFrom 0.0) ∧
    (plucked.segment? 0.0 = none ↔ 0.0 < plucked.startTime ∨ plucked.finishTime < 0.0) ∧
    (plucked.stageAt 0.0 = .idle ↔ plucked.segment? 0.0 = none) ∧
    ∀ i, plucked.segment? 0.0 = some i → plucked.DrawnFrom 0.0 i := by
  have hordered : plucked.Ordered :=
    ordered_of_le (by decide) (by decide) (by decide) (by decide)
  have hnumber : ¬ (0.0 : Float).isNaN := by decide
  exact ⟨hordered, hnumber, level_and_stage_agree hordered hnumber⟩

end Envelope

end Polyphony
