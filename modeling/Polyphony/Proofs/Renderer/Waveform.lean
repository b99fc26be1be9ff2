import Polyphony.Proofs.Number.Propagation
import Polyphony.Waveform

namespace Polyphony.Waveform

open Floating

section Constants

theorem rat_eight : Finite (8.0 : Float) ∧ rat (8.0 : Float) = 8 :=
  rat_of_unpack .positive (2 ^ 52) (-49) (by decide) rfl
    (by norm_num [Float.Model.UnpackedFloat.Sign.apply])

theorem rat_quarter : Finite (0.25 : Float) ∧ rat (0.25 : Float) = 1 / 4 :=
  rat_of_unpack .positive (2 ^ 52) (-54) (by decide) rfl
    (by norm_num [Float.Model.UnpackedFloat.Sign.apply])

theorem rat_three_quarters : Finite (0.75 : Float) ∧ rat (0.75 : Float) = 3 / 4 :=
  rat_of_unpack .positive (3 * 2 ^ 51) (-53) (by decide) rfl
    (by norm_num [Float.Model.UnpackedFloat.Sign.apply])

end Constants

variable {x y p : Float} {a b : ℚ} {l u : ℕ}

theorem within_scaled (hx : Finite x ∧ rat x = a) (hp : Finite p) (hl : l ≤ a * rat p)
    (hu : a * rat p ≤ u) (hlu : l ≤ u) (hcap : u ≤ 2 ^ 53) : Within l u (x * p) := by
  rw [← hx.2] at hl hu
  exact (roundsTo_mul hx.1 hp).within
    (becomes_natCast (F := .binary64) (hlu.trans hcap) (by decide))
    (becomes_natCast (F := .binary64) hcap (by decide)) hl hu

theorem within_difference (hx : Finite x) (hy : Finite y) (h : |rat x - rat y| ≤ 1) :
    Within (-1) 1 (x - y) :=
  (roundsTo_sub hx hy).within becomes_one.neg becomes_one (abs_le.mp h).1 (abs_le.mp h).2

/-- A multiple of the phase differs by at most 1 from what it is within 1 of, on either side. -/
theorem within_scaled_sub (hx : Finite x ∧ rat x = a) (hy : Finite y ∧ rat y = b) (hp : Finite p)
    (hl : l ≤ a * rat p) (hu : a * rat p ≤ u) (hlu : l ≤ u) (hcap : u ≤ 2 ^ 53)
    (hbelow : b ≤ l + 1) (habove : u ≤ b + 1) :
    Within (-1) 1 (x * p - y) ∧ Within (-1) 1 (y - x * p) := by
  have hrise := within_scaled hx hp hl hu hlu hcap
  have hlower := hrise.lower
  have hupper := hrise.upper
  have hnear : |rat (x * p) - rat y| ≤ 1 := by
    rw [hy.2]
    exact abs_le.mpr ⟨by linarith, by linarith⟩
  exact ⟨within_difference hrise.finite hy.1 hnear,
    within_difference hy.1 hrise.finite (by rwa [abs_sub_comm])⟩

theorem within_sawtooth (hp : Within 0 1 p) :
    Within (-1) 1 (if p < 0.5 then 2.0 * p else 2.0 * p - 2.0) := by
  have hlower := hp.lower
  have hupper := hp.upper
  split_ifs with h <;>
    rw [lt_iff_rat hp.finite.isNumber rat_half.1.isNumber, rat_half.2] at h
  · have hrise : Within (0 : ℕ) (1 : ℕ) (2.0 * p) :=
      within_scaled rat_two hp.finite (by push_cast; linarith) (by push_cast; linarith)
        (by decide) (by decide)
    exact hrise.mono (by norm_num) (by norm_num)
  · have hnear := within_scaled_sub (l := 1) (u := 2) rat_two rat_two hp.finite
      (by push_cast; linarith) (by push_cast; linarith) (by decide) (by decide) (by norm_num)
      (by norm_num)
    exact hnear.1

theorem within_triangle (hp : Within 0 1 p) :
    Within (-1) 1 (if p < 0.25 then 4.0 * p else if p < 0.75 then 2.0 - 4.0 * p
      else 4.0 * p - 4.0) := by
  have hlower := hp.lower
  have hupper := hp.upper
  have hquarter := lt_iff_rat hp.finite.isNumber rat_quarter.1.isNumber
  have hthree := lt_iff_rat hp.finite.isNumber rat_three_quarters.1.isNumber
  rw [rat_quarter.2] at hquarter
  rw [rat_three_quarters.2] at hthree
  simp only [hquarter, hthree]
  split_ifs with h₁ h₂
  · have hrise : Within (0 : ℕ) (1 : ℕ) (4.0 * p) :=
      within_scaled rat_four hp.finite (by push_cast; linarith) (by push_cast; linarith)
        (by decide) (by decide)
    exact hrise.mono (by norm_num) (by norm_num)
  · have hnear := within_scaled_sub (l := 1) (u := 3) rat_four rat_two hp.finite
      (by push_cast; linarith) (by push_cast; linarith) (by decide) (by decide) (by norm_num)
      (by norm_num)
    exact hnear.2
  · have hnear := within_scaled_sub (l := 3) (u := 4) rat_four rat_four hp.finite
      (by push_cast; linarith) (by push_cast; linarith) (by decide) (by decide) (by norm_num)
      (by norm_num)
    exact hnear.1

theorem within_square (p : Float) : Within (-1) 1 (if p < 0.5 then (1.0 : Float) else -1.0) := by
  split_ifs
  · exact within_one.mono (by norm_num) le_rfl
  · exact (Within.of_eq rat_minus_one).mono le_rfl (by norm_num)

theorem finite_turn_mul (hp : Within 0 1 p) : Finite (turn * p) := by
  have hturn := within_of_le within_zero.finite rat_eight.1 (show (0.0 : Float) ≤ turn by decide)
    (show turn ≤ 8.0 by decide)
  rw [rat_zero, rat_eight.2] at hturn
  have height : Becomes .binary64 (8 * 1) 8 := by
    rw [mul_one]
    exact becomes_natCast (m := 8) (by decide) (by decide)
  exact (hturn.mul_of_nonneg hp height).finite

variable [Elementary]

/-- A sine that stays between its extremes, and is undefined where its argument is. -/
structure TameSine : Prop where
  bounded : ∀ x : Float, x.isFinite → -1.0 ≤ Elementary.sin x ∧ Elementary.sin x ≤ 1.0
  undefined : ∀ x : Float, x.isNaN → (Elementary.sin x).isNaN

theorem TameSine.within (h : TameSine) (hx : Finite x) : Within (-1) 1 (Elementary.sin x) := by
  obtain ⟨hl, hu⟩ := h.bounded x (isFinite_iff.mpr hx)
  have hsin := within_of_le rat_minus_one.1 rat_one.1 hl hu
  rwa [rat_minus_one.2, rat_one.2] at hsin

theorem within_shape (hsin : TameSine) (hp : Within 0 1 p) (w : Waveform) :
    Within (-1) 1 (w.shape p) := by
  cases w with
  | sine => exact hsin.within (finite_turn_mul hp)
  | sawtooth => exact within_sawtooth hp
  | square => exact within_square p
  | triangle => exact within_triangle hp

theorem within_sample (hsin : TameSine) {w : Waveform} (h : w = .square ∨ Finite p) :
    Within (-1) 1 (w.sample p) := by
  rcases h with rfl | hp
  · exact within_narrow (within_square _)
  · exact within_narrow (within_shape hsin (within_withinCycle hp) w)

theorem not_isNumber_shape (hsin : TameSine) (hp : ¬ IsNumber p) {w : Waveform}
    (hw : w ≠ .square) : ¬ IsNumber (w.shape p) := by
  have hmul (x : Float) := not_isNumber_mul_right x hp
  have hlt := not_lt_of_not_isNumber hp
  cases w with
  | sine => exact isNaN_iff.mp (hsin.undefined _ (isNaN_iff.mpr (hmul turn)))
  | sawtooth =>
    rw [shape, if_neg (hlt _)]
    exact not_isNumber_sub_left (hmul _) _
  | square => exact absurd rfl hw
  | triangle =>
    rw [shape, if_neg (hlt _), if_neg (hlt _)]
    exact not_isNumber_sub_left (hmul _) _

theorem not_isNumber_sample (hsin : TameSine) {w : Waveform} (hw : w ≠ .square)
    (hp : ¬ Finite p) : ¬ IsNumber (w.sample p) :=
  not_isNumber_narrow (not_isNumber_shape hsin (not_isNumber_withinCycle hp) hw)

end Polyphony.Waveform
