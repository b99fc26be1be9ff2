import Polyphony.Proofs.Number.Single
import Polyphony.Proofs.Schedule.Bounds

namespace Polyphony

open Floating

structure Adsr.Shares (a : Adsr) : Prop where
  attack : Within 0 1 a.attack
  decay : Within 0 1 a.decay
  sustain : Within 0 1 a.sustain
  release : Within 0 1 a.release

theorem within_larger {l u : ℚ} {x y : Float} (hx : Within l u x) (hy : Within l u y) :
    Within l u (larger x y) := by
  rw [larger]
  split_ifs
  · exact hx
  · exact hy

theorem within_smaller {l u : ℚ} {x y : Float} (hx : Within l u x) (hy : Within l u y) :
    Within l u (smaller x y) := by
  rw [smaller]
  split_ifs
  · exact hx
  · exact hy

theorem within_share {x : Float} (hx : Within 0 1 x) : Within 0 1 (share x) := by
  have hzero := within_zero.mono le_rfl zero_le_one
  rw [share]
  split_ifs
  · exact within_larger hx hzero
  · exact hzero

theorem shares_of_inRange {s : VoiceSettings} (h : ∀ d, s.inRange d) : s.voice.adsr.Shares := by
  have hone := within_one.mono zero_le_one le_rfl
  have hrange {d : Dial} (hlow : (0.0 : Float) ≤ d.lowest) (hhigh : d.highest ≤ (1.0 : Float)) :
      Within 0 1 (s.value d) := by
    obtain ⟨hl, hu⟩ := VoiceSettings.inRange_iff.mp (h d)
    have hx := within_of_le within_zero.finite rat_one.1 (Floating.le_trans hlow hl)
      (Floating.le_trans hu hhigh)
    rwa [rat_zero, rat_one.2] at hx
  have hshare {d : Dial} (hlow : (0.0 : Float) ≤ d.lowest) (hhigh : d.highest ≤ (1.0 : Float)) :=
    within_share (hrange hlow hhigh)
  exact
    { attack := hshare (d := .attack) (by decide) (by decide)
      decay := hshare (d := .decay) (by decide) (by decide)
      sustain := within_smaller (hshare (d := .sustain) (by decide) (by decide)) hone
      release := hshare (d := .release) (by decide) (by decide) }

namespace Envelope

/-- The breakpoints are at times that are not out of bounds, with levels from silence to full. -/
def Bounded (e : Envelope) : Prop :=
  ∀ b ∈ e.toList, Within 0 (2 ^ 71) b.time ∧ Within 0 1 b.level

variable {e : Envelope} {t : Float}

theorem within_progress {x y : Float} (hx : Within 0 (2 ^ 71) x) (hy : Within 0 (2 ^ 71) y)
    (hxt : x ≤ t) (hty : t < y) : Within 0 1 ((t - x) / (y - x)) := by
  have ht := (within_of_le hx.finite hy.finite hxt (Floating.le_of_lt hty)).finite
  rw [le_iff_rat hx.finite.isNumber ht.isNumber] at hxt
  rw [lt_iff_rat ht.isNumber hy.finite.isNumber] at hty
  have hbound := becomes_binary64 (k := 71) (by decide)
  have hlower := hx.lower
  have hupper := hy.upper
  have hpart := roundsTo_sub ht hx.finite
  have hwhole := roundsTo_sub hy.finite hx.finite
  have hpart' := hpart.within becomes_zero hbound (by linarith) (by linarith)
  have hwhole' := hwhole.within becomes_zero hbound (by linarith) (by linarith)
  have hle := hpart.mono hwhole (by linarith)
  have hpos := sub_pos_of_lt hx.finite hy.finite (hxt.trans_lt hty)
  refine (roundsTo_div hpart'.finite hwhole'.finite hpos.ne').within becomes_zero becomes_one ?_ ?_
  · exact div_nonneg hpart'.lower hpos.le
  · exact (div_le_one hpos).mpr hle

/-- A line from one level to another, with room for what rounding may add. -/
theorem within_ramp {a b : Breakpoint} (ha : Within 0 (2 ^ 71) a.time ∧ Within 0 1 a.level)
    (hb : Within 0 (2 ^ 71) b.time ∧ Within 0 1 b.level) (hat : a.time ≤ t) (htb : t < b.time) :
    Within (-1) 2 (ramp a b t) := by
  have hone : Becomes .binary32 1 1 := becomes_natCast (m := 1) (by decide) (by decide)
  have htwo : Becomes .binary32 2 2 := becomes_natCast (m := 2) (by decide) (by decide)
  have hp := within_narrow_of_nonneg (within_progress ha.1 hb.1 hat htb)
  have hdiff : Within (-1) 1 (b.level - a.level) :=
    hb.2.sub ha.2 (by rw [zero_sub]; exact hone.neg) (by rw [sub_zero]; exact hone)
  have hmul : Within (-1) 1 ((b.level - a.level) * narrow ((t - a.time) / (b.time - a.time))) :=
    hdiff.mul_of_abs (hp.mono (by norm_num) le_rfl) (by rw [mul_one]; exact hone)
  refine ha.2.add hmul ?_ ?_
  · rw [zero_add]
    exact hone.neg
  · rw [one_add_one_eq_two]
    exact htwo

theorem Bounded.within_levelAt (h : e.Bounded) (ht : IsNumber t) : Within (-1) 2 (e.levelAt t) := by
  simp only [Bounded, toList, List.forall_mem_cons] at h
  obtain ⟨hstart, hpeak, hsettled, hstop, hfinish, -⟩ := h
  have hnot {x : Float} (hx : Within 0 (2 ^ 71) x) (hlt : ¬ x ≤ t) : t < x := by
    rw [le_iff_rat hx.finite.isNumber ht, not_le] at hlt
    exact (lt_iff_rat ht hx.finite.isNumber).mpr hlt
  have hle {x : Float} (hx : Within 0 (2 ^ 71) x) (hlt : ¬ t < x) : x ≤ t := by
    rw [lt_iff_rat ht hx.finite.isNumber, not_lt] at hlt
    exact (le_iff_rat hx.finite.isNumber ht).mpr hlt
  rw [levelAt]
  -- each ramp is entered at its first breakpoint, and left before the one that was refused above
  split_ifs with h₁ h₂ h₃ h₄ h₅
  · exact within_zero_single.mono (by norm_num) (by norm_num)
  · exact hfinish.2.mono (by norm_num) (by norm_num)
  · exact within_ramp hstop hfinish h₃ (hnot hfinish.1 h₂)
  · exact within_ramp hsettled hstop h₄ (hnot hstop.1 h₃)
  · exact within_ramp hpeak hsettled h₅ (hnot hsettled.1 h₄)
  · refine within_ramp hstart hpeak (hle hstart.1 ?_) (hnot hpeak.1 h₅)
    intro hlt
    exact h₁ (by simp [hlt])

theorem within_releaseFloor : Within 0 1 releaseFloor := by
  have h := within_of_le within_zero_single.finite rat_one_single.1
    (show (0.0 : Float32) ≤ releaseFloor by decide) (show releaseFloor ≤ 1.0 by decide)
  rw [rat_one_single.2] at h
  exact h.mono within_zero_single.lower le_rfl

theorem bounded_forNote {start stop : Float} {adsr : Adsr} (hstart : Within 0 (2 ^ 69) start)
    (hstop : Within 0 (2 ^ 69) stop) (hle : start ≤ stop) (ha : adsr.Shares) :
    (forNote start stop adsr).Bounded := by
  have hpow {k : ℕ} (hk : k ≤ 970) : Becomes .binary64 (2 ^ k) (2 ^ k) := becomes_binary64 hk
  have hlength : Within 0 (2 ^ 69) (stop - start) := by
    rw [le_iff_rat hstart.finite.isNumber hstop.finite.isNumber] at hle
    refine (roundsTo_sub hstop.finite hstart.finite).within becomes_zero (hpow (by decide)) ?_ ?_
    · linarith
    · linarith [hstart.lower, hstop.upper]
  -- a part of the note is no longer than the note, and a sum doubles the bound at most
  have hpart {x : Float} (hx : Within 0 1 x) : Within 0 (2 ^ 69) ((stop - start) * x) := by
    refine hlength.mul_of_nonneg hx ?_
    rw [mul_one]
    exact hpow (by decide)
  have hsum {x y : Float} {k : ℕ} (hk : k ≤ 969) (hx : Within 0 (2 ^ k) x)
      (hy : Within 0 (2 ^ k) y) : Within 0 (2 ^ (k + 1)) (x + y) := by
    refine hx.add_of_nonneg hy ?_
    rw [← two_mul, ← pow_succ']
    exact hpow (by omega)
  have hup {x : Float} {k : ℕ} (hk : k ≤ 71) (hx : Within 0 (2 ^ k) x) : Within 0 (2 ^ 71) x :=
    hx.mono le_rfl (pow_le_pow_right₀ (by norm_num) hk)
  have hlevel := within_narrow_of_nonneg ha.sustain
  have hzero := within_zero_single.mono le_rfl zero_le_one
  have hone := within_one_single.mono zero_le_one le_rfl
  have hstop70 := hstop.mono le_rfl (pow_le_pow_right₀ (by norm_num) (show 69 ≤ 70 by decide))
  have hpeak := within_smaller (hsum (by decide) hstart (hpart ha.attack)) hstop70
  have hlength70 := (hpart ha.decay).mono le_rfl
    (pow_le_pow_right₀ (by norm_num) (show 69 ≤ 70 by decide))
  have hsettled := within_smaller (hsum (by decide) hpeak hlength70) (hup (by decide) hstop70)
  have hfinish := hsum (by decide) hstop (hpart ha.release)
  simp only [Bounded, toList, List.forall_mem_cons]
  refine ⟨⟨hup (by decide) hstart, hzero⟩, ⟨hup (by decide) hpeak, hone⟩, ⟨hsettled, hlevel⟩,
    ⟨hup (by decide) hstop, hlevel⟩, ⟨hup (by decide) hfinish, within_releaseFloor⟩, by simp⟩

end Envelope

end Polyphony
