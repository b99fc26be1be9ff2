import Polyphony.Proofs.Number.Propagation
import Polyphony.Proofs.Schedule.Level

namespace Polyphony

open Floating

theorem share_eq (x : Float) : share x = if x.isFinite && 0.0 < x then x else 0.0 := by
  have hzero : (0.0 : Float).isNaN = false := by decide
  rw [share, larger, hzero]
  by_cases hx : x.isFinite <;> simp [hx]

theorem share_spec (x : Float) : Finite (share x) ∧ 0 ≤ rat (share x) := by
  have hzero := within_zero
  rw [share_eq]
  split_ifs with h
  · rw [Bool.and_eq_true, decide_eq_true_iff] at h
    obtain ⟨hfinite, hpos⟩ := positive_iff.mp ⟨h.1, h.2⟩
    exact ⟨hfinite, hpos.le⟩
  · exact ⟨hzero.finite, hzero.lower⟩

namespace Adsr

theorem within_sustain (attack decay sustain release : Float) :
    Within 0 1 (ofShares attack decay sustain release).sustain := by
  obtain ⟨hfinite, hnonneg⟩ := share_spec sustain
  obtain ⟨hone, -, hle⟩ := smaller_spec hfinite.isNumber rat_one.1.isNumber
  rw [ofShares]
  rcases hone with h | h
  · rw [h] at hle ⊢
    rw [le_iff_rat hfinite.isNumber rat_one.1.isNumber, rat_one.2] at hle
    exact ⟨hfinite, hnonneg, hle⟩
  · rw [h]
    exact within_one.mono zero_le_one le_rfl

theorem sustain_ofShares (attack decay sustain release : Float) :
    (ofShares attack decay sustain release).sustain =
      if sustain.isFinite && 0.0 < sustain then smaller sustain 1.0 else 0.0 := by
  have hlow : smaller 0.0 1.0 = 0.0 := by decide
  rw [show (ofShares attack decay sustain release).sustain = smaller (share sustain) 1.0 from rfl,
    share_eq, apply_ite (smaller · 1.0), hlow]

end Adsr

namespace Envelope

structure Ordered (e : Envelope) : Prop where
  numbers : ∀ b ∈ e.toList, ¬ b.time.isNaN
  inOrder : (e.toList.map Breakpoint.time).Pairwise (· ≤ ·)

structure Outlines (e : Envelope) (start stop : Float) (level : Float32) : Prop where
  ordered : e.Ordered
  start_eq : e.start.time = start
  stop_eq : e.stop.time = stop
  peak_le : e.peak.time ≤ stop
  settled_le : e.settled.time ≤ stop
  le_finish : stop ≤ e.finish.time
  levels : e.toList.map Breakpoint.level = [0.0, 1.0, level, level, releaseFloor]

theorem ordered_of_le {e : Envelope} (h₁ : e.start.time ≤ e.peak.time)
    (h₂ : e.peak.time ≤ e.settled.time) (h₃ : e.settled.time ≤ e.stop.time)
    (h₄ : e.stop.time ≤ e.finish.time) : e.Ordered := by
  have hnumber {x : Float} (hx : IsNumber x) : ¬ x.isNaN := fun h ↦ isNaN_iff.mp h hx
  refine ⟨?_, ?_⟩
  · simp only [toList, List.forall_mem_cons]
    exact ⟨hnumber (isNumber_of_le h₁).1, hnumber (isNumber_of_le h₂).1,
      hnumber (isNumber_of_le h₃).1, hnumber (isNumber_of_le h₄).1,
      hnumber (isNumber_of_le h₄).2, by simp⟩
  · have : Trans (α := Float) (· ≤ ·) (· ≤ ·) (· ≤ ·) := ⟨Floating.le_trans⟩
    refine List.IsChain.pairwise ?_
    simp only [toList, List.map_cons, List.map_nil, List.isChain_cons_cons]
    exact ⟨h₁, h₂, h₃, h₄, List.isChain_singleton _⟩

theorem between_smaller {x rise stop : Float} (hx : Finite x) (hstop : Finite stop)
    (hle : x ≤ stop) (hrise : IsNumber rise) (hnonneg : 0 ≤ rat rise) :
    x ≤ smaller (x + rise) stop ∧ smaller (x + rise) stop ≤ stop := by
  have hup := le_add_of_nonneg hx hrise hnonneg
  obtain ⟨hone, -, hcut⟩ := smaller_spec (isNumber_of_le hup).2 hstop.isNumber
  refine ⟨?_, hcut⟩
  rcases hone with h | h
  · rwa [h]
  · rwa [h]

/-- The ramps are cut one after the other: the second starts where the first has ended, so that
neither can pass `stop`, however long they are. -/
theorem outlines_forNote {start stop : Float} {adsr : Adsr} (hstart : Finite start)
    (hstop : Finite stop) (hle : start ≤ stop) (hlength : Finite (stop - start))
    (hattack : Finite adsr.attack ∧ 0 ≤ rat adsr.attack)
    (hdecay : Finite adsr.decay ∧ 0 ≤ rat adsr.decay)
    (hrelease : Finite adsr.release ∧ 0 ≤ rat adsr.release) :
    (forNote start stop adsr).Outlines start stop (narrow adsr.sustain) := by
  have hnonneg : 0 ≤ rat (stop - start) := by
    refine (roundsTo_sub hstop hstart).nonneg ?_
    rw [le_iff_rat hstart.isNumber hstop.isNumber] at hle
    linarith
  have hpart {x : Float} (hx : Finite x ∧ 0 ≤ rat x) :
      IsNumber ((stop - start) * x) ∧ 0 ≤ rat ((stop - start) * x) := by
    have hround := roundsTo_mul hlength hx.1
    exact ⟨hround.isNumber, hround.nonneg (mul_nonneg hnonneg hx.2)⟩
  obtain ⟨hrise, hpeak⟩ := between_smaller hstart hstop hle (hpart hattack).1 (hpart hattack).2
  have hpeak' := (within_of_le hstart hstop hrise hpeak).finite
  obtain ⟨hfall, hsettled⟩ :=
    between_smaller hpeak' hstop hpeak (hpart hdecay).1 (hpart hdecay).2
  have hfinish := le_add_of_nonneg hstop (hpart hrelease).1 (hpart hrelease).2
  exact
    { ordered := ordered_of_le hrise hfall hsettled hfinish
      start_eq := rfl
      stop_eq := rfl
      peak_le := hpeak
      settled_le := hsettled
      le_finish := hfinish
      levels := rfl }

/-- Whatever the shares, the breakpoints of a note are in order, with the ramps up and down inside
the note and the release behind it. -/
theorem forNote_in_order {start stop : Float} (hstart : start.isFinite) (hstop : stop.isFinite)
    (hle : start ≤ stop) (hlength : (stop - start).isFinite)
    (attack decay sustain release : Float) :
    let adsr := Adsr.ofShares attack decay sustain release
    (forNote start stop adsr).Outlines start stop (narrow adsr.sustain) ∧
      adsr.sustain = (if sustain.isFinite && 0.0 < sustain then smaller sustain 1.0 else 0.0) ∧
        0.0 ≤ narrow adsr.sustain ∧ narrow adsr.sustain ≤ 1.0 := by
  intro adsr
  have hlevel := within_narrow_of_nonneg (Adsr.within_sustain attack decay sustain release)
  refine ⟨?_, Adsr.sustain_ofShares attack decay sustain release, ?_, ?_⟩
  · exact outlines_forNote (isFinite_iff.mp hstart) (isFinite_iff.mp hstop) hle
      (isFinite_iff.mp hlength) (share_spec attack) (share_spec decay) (share_spec release)
  · rw [le_iff_rat within_zero_single.finite.isNumber hlevel.finite.isNumber]
    exact within_zero_single.upper.trans hlevel.lower
  · rw [le_iff_rat hlevel.finite.isNumber rat_one_single.1.isNumber, rat_one_single.2]
    exact hlevel.upper

/-- An attack and a release that are too long to be measured, and a decay that is no number. -/
theorem forNote_overlong :
    (1.0 : Float).isFinite ∧ (9.0 : Float).isFinite ∧ (1.0 : Float) ≤ 9.0 ∧
      (9.0 - 1.0 : Float).isFinite ∧
        let adsr := Adsr.ofShares 1e308 (0.0 / 0.0) 1.7 1e308
        (forNote 1.0 9.0 adsr).Outlines 1.0 9.0 (narrow adsr.sustain) ∧
          adsr.sustain =
            (if (1.7 : Float).isFinite && (0.0 : Float) < 1.7 then smaller 1.7 1.0 else 0.0) ∧
            0.0 ≤ narrow adsr.sustain ∧ narrow adsr.sustain ≤ 1.0 := by
  have hstart : (1.0 : Float).isFinite := by decide
  have hstop : (9.0 : Float).isFinite := by decide
  have hle : (1.0 : Float) ≤ 9.0 := by decide
  have hlength : (9.0 - 1.0 : Float).isFinite := by decide
  exact ⟨hstart, hstop, hle, hlength,
    forNote_in_order hstart hstop hle hlength 1e308 (0.0 / 0.0) 1.7 1e308⟩

end Envelope

end Polyphony
