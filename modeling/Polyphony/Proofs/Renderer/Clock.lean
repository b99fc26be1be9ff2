import Polyphony.Proofs.Number.Arithmetic
import Polyphony.Renderer

namespace Polyphony.Renderer

open Magnitude Number

variable {rate : Float}

theorem clockAt_spec (h : Positive rate) (k : ℕ) :
    magnitude (clockAt rate k) ≤ infinity .binary64 ∧ sign (clockAt rate k) = .positive := by
  obtain ⟨hs, hpos⟩ := h.sign_magnitude
  obtain ⟨hk, hsk⟩ := nearest_float_ofNat k
  rcases hk.le_infinity.lt_or_eq with hlt | heq
  · obtain ⟨hn, hsn⟩ := nearest_float_div (isFinite_iff_lt.mpr hlt) h.finite hpos
    rw [hsk, hs] at hsn
    exact ⟨hn.le_infinity, hsn⟩
  · have hd := decodes_toModel (Float.ofNat k)
    rw [heq] at hd
    obtain ⟨hn, hsn⟩ := infinity_div hd (decodes_toModel rate) (isFinite_iff_lt.mp h.finite)
    rw [hsk, hs] at hsn
    exact ⟨hn.le, hsn⟩

theorem magnitude_clockAt_mono (h : Positive rate) {j k : ℕ} (hjk : j ≤ k) :
    magnitude (clockAt rate j) ≤ magnitude (clockAt rate k) := by
  obtain ⟨hs, hpos⟩ := h.sign_magnitude
  have hj := (nearest_float_ofNat j).1
  have hk := (nearest_float_ofNat k).1
  rcases hk.le_infinity.lt_or_eq with hlt | heq
  · have hle : magnitude (Float.ofNat j) ≤ magnitude (Float.ofNat k) :=
      hj.mono hk (by exact_mod_cast hjk)
    have hnj := (nearest_float_div (isFinite_iff_lt.mpr (hle.trans_lt hlt)) h.finite hpos).1
    have hnk := (nearest_float_div (isFinite_iff_lt.mpr hlt) h.finite hpos).1
    refine hnj.mono hnk ?_
    have hrate : 0 ≤ value .binary64 (magnitude rate) := by
      rw [← value_zero (F := .binary64)]
      exact value_strictMono.monotone (Nat.zero_le _)
    exact div_le_div_of_nonneg_right (value_strictMono.monotone hle) hrate
  · have hd := decodes_toModel (Float.ofNat k)
    rw [heq] at hd
    have hn := (infinity_div hd (decodes_toModel rate) (isFinite_iff_lt.mp h.finite)).1
    exact (clockAt_spec h j).1.trans hn.ge

/-- The time of a sample is a number, also where the samples are too many to be counted. -/
theorem clockAt_isNaN (h : Positive rate) (k : ℕ) : ¬ (clockAt rate k).isNaN := by
  rw [isNaN_iff_lt, not_lt]
  exact (clockAt_spec h k).1

theorem level_clockAt_mono (h : Positive rate) {j k : ℕ} (hjk : j ≤ k) :
    level (clockAt rate j) ≤ level (clockAt rate k) := by
  rw [level, level, (clockAt_spec h j).2, (clockAt_spec h k).2]
  exact Int.ofNat_le.mpr (magnitude_clockAt_mono h hjk)

end Polyphony.Renderer
