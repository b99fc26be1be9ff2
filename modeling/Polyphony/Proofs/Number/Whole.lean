import Polyphony.Number.Whole
import Polyphony.Proofs.Number.Interval

namespace Polyphony.Floating

open Float.Model (UnpackedFloat)
open Float.Model.UnpackedFloat
open Magnitude

variable {x y : Float}

theorem rat_neg (hx : Finite x) : Finite (-x) ∧ rat (-x) = -rat x := by
  have h := rat_of_bits (x := -x) rfl (decodes x).neg hx
  rwa [signed_neg] at h

theorem rat_ofNat {n : ℕ} (h : n ≤ 2 ^ 53) :
    Finite (Float.ofNat n) ∧ rat (Float.ofNat n) = n := by
  obtain ⟨hnear, hsign⟩ := Number.nearest_float_ofNat n
  have hround : RoundsTo (n : ℚ) (Float.ofNat n) :=
    roundsTo_of_nearest (Nat.cast_nonneg n) hnear hsign
  exact hround.eq_rat (becomes_natCast (F := .binary64) h (by decide))

theorem rat_ofInt {i : ℤ} (h : i.natAbs ≤ 2 ^ 53) :
    Finite (Float.ofInt i) ∧ rat (Float.ofInt i) = i := by
  cases i with
  | ofNat n => exact rat_ofNat h
  | negSucc n =>
    have hsize := rat_ofNat (n := n + 1) h
    rw [Int.cast_negSucc, ← hsize.2]
    exact rat_neg hsize.1

theorem decodes_abs {s : Sign} {n : ℕ} {f : UnpackedFloat} (h : Decodes .binary64 s n f) :
    Decodes .binary64 .positive n f.abs := by
  cases h with
  | zero => exact .zero
  | finite hm h hn hc => exact .finite hm h hn hc
  | infinity => exact .infinity
  | notANumber hn => exact .notANumber hn

theorem rat_abs (hx : Finite x) : Finite x.abs ∧ rat x.abs = |rat x| := by
  have h := rat_of_bits (x := x.abs) rfl (decodes_abs (decodes x)) hx
  rwa [signed, ← abs_signed (sign x) (value_nonneg _)] at h

theorem isNegative_iff : isNegative x ↔ sign x = .negative := by
  have hpos := Number.sign_eq_positive_iff (x := x)
  rw [isNegative, decide_eq_true_iff, Nat.pow_eq, ← not_lt, ← hpos]
  change ¬ sign x = .positive ↔ _
  cases sign x <;> simp

theorem rat_withSign (hy : Finite y) :
    Finite (withSign x y) ∧ rat (withSign x y) = signed (sign x) (rat y) := by
  rw [withSign]
  by_cases h : isNegative x
  · rw [if_pos h, isNegative_iff.mp h]
    exact rat_neg hy
  · rw [if_neg h]
    cases hs : sign x with
    | positive => exact ⟨hy, rfl⟩
    | negative => exact absurd (isNegative_iff.mpr hs) h

theorem roundToInt_positive (m : ℕ) (e : ℤ) :
    roundToInt .positive m e = ⌊(m * 2 ^ e : ℚ)⌋₊ := by
  rw [roundToInt, decreaseExponent]
  simp only [shiftToExponent, Sign.apply, mantissa_shiftRight, mantissa_ofMantissaAndAccuracy,
    Nat.shiftLeft_eq]
  rw [Int.natCast_inj]
  rcases le_total 0 e with he | he
  · obtain ⟨k, rfl⟩ := Int.eq_ofNat_of_zero_le he
    have hfloor : ⌊(m * 2 ^ k : ℚ)⌋₊ = m * 2 ^ k := by
      exact_mod_cast Nat.floor_natCast (R := ℚ) (m * 2 ^ k)
    simp [hfloor]
  · obtain ⟨k, hk⟩ := Int.eq_ofNat_of_zero_le (neg_nonneg.mpr he)
    have hfloor : ⌊(m * 2 ^ e : ℚ)⌋₊ = m / 2 ^ k := by
      rw [show e = -(k : ℤ) by omega, zpow_neg, zpow_natCast, ← div_eq_mul_inv]
      exact_mod_cast Nat.floor_div_eq_div (K := ℚ) m (2 ^ k)
    rw [hfloor, show (e - 0).toNat = 0 by omega, show (0 - (e - (0 : ℕ))).toNat = k by omega,
      pow_zero, mul_one]

theorem toNat_ofNatClamp {n : ℕ} (h : n < 2 ^ 64) : (UInt64.ofNatClamp n).toNat = n := by
  rw [UInt64.ofNatClamp]
  split_ifs with hn
  · exact UInt64.toNat_ofNatLT
  · exact absurd h hn

theorem toNat_toUInt64 (hx : Finite x) (hnonneg : 0 ≤ rat x) (hlt : rat x < 2 ^ 64) :
    x.toUInt64.toNat = ⌊rat x⌋₊ := by
  have hfloor : ⌊rat x⌋₊ < 2 ^ 64 := by
    rw [Nat.floor_lt hnonneg]
    exact_mod_cast hlt
  have hint : x.toModel.unpack.toInt 0 (UInt64.size - 1) = ⌊rat x⌋₊ := by
    have hd := Number.decodes_toModel x
    rw [rat] at hnonneg ⊢
    change Decodes .binary64 (sign x) (code x) _ at hd
    rw [Finite] at hx
    generalize x.toModel.unpack = f, code x = n, sign x = s at *
    cases hd with
    | notANumber h => exact absurd hx (Nat.lt_asymm h)
    | infinity => exact absurd hx (lt_irrefl _)
    | zero => simp [toInt]
    | @finite _ m e hm hc hn hcode =>
      subst hcode
      have hval := signed_code s hc
      change 0 ≤ signed s (value .binary64 _) at hnonneg
      change _ = (⌊signed s (value .binary64 _)⌋₊ : ℤ)
      rw [hval] at hnonneg ⊢
      cases s with
      | positive => exact roundToInt_positive _ _
      | negative =>
        have hneg : ((Sign.apply .negative m : ℤ) : ℚ) * 2 ^ e < 0 :=
          mul_neg_of_neg_of_pos (by simpa [Sign.apply] using hm) (by positivity)
        exact absurd hnonneg hneg.not_ge
  rw [show x.toUInt64 = UInt64.ofNatClamp (x.toModel.unpack.toInt 0 (UInt64.size - 1)).toNat
    from rfl, hint, Int.toNat_natCast, toNat_ofNatClamp hfloor]

theorem signed_abs_rat (x : Float) : signed (sign x) |rat x| = rat x := by
  rw [rat, abs_signed _ (value_nonneg _)]

theorem rat_wholeFrom : Finite wholeFrom ∧ rat wholeFrom = 2 ^ 52 :=
  rat_of_unpack .positive (2 ^ 52) 0 (by decide) rfl (by norm_num [Sign.apply])

theorem abs_lt_wholeFrom_iff (hx : Finite x) : x.abs < wholeFrom ↔ |rat x| < 2 ^ 52 := by
  have habs := rat_abs hx
  rw [lt_iff_rat habs.1.isNumber rat_wholeFrom.1.isNumber, habs.2, rat_wholeFrom.2]

/-- Below `wholeFrom` the whole part goes through a word and back without loss. -/
theorem rat_floor (hx : Finite x) (hlt : |rat x| < 2 ^ 52) :
    Finite x.abs.toUInt64.toFloat ∧ rat x.abs.toUInt64.toFloat = ⌊|rat x|⌋₊ := by
  have habs := rat_abs hx
  have hnonneg : 0 ≤ rat x.abs := habs.2 ▸ abs_nonneg _
  have hfloor := toNat_toUInt64 habs.1 hnonneg (by rw [habs.2]; exact hlt.trans (by norm_num))
  rw [habs.2] at hfloor
  have hsmall : ⌊|rat x|⌋₊ ≤ 2 ^ 53 := by
    have h53 := (Nat.floor_le (abs_nonneg _)).trans
      (hlt.le.trans (show (2 : ℚ) ^ 52 ≤ 2 ^ 53 by norm_num))
    exact_mod_cast h53
  have hcut := roundsTo_toFloat x.abs.toUInt64
  rw [hfloor] at hcut
  exact hcut.eq_rat (becomes_natCast (F := .binary64) hsmall (by decide))

theorem within_fraction (hx : Finite x) : Within (-1) 1 (fraction x) := by
  have hone : Becomes .binary64 1 1 := becomes_one
  rw [fraction, wholePart]
  split_ifs with hlt
  · have hcut := rat_floor hx ((abs_lt_wholeFrom_iff hx).mp hlt)
    have hle := Nat.floor_le (abs_nonneg (rat x))
    have hgt := Nat.lt_floor_add_one |rat x|
    have hsigned := rat_withSign (x := x) hcut.1
    have hsub := roundsTo_sub hx hsigned.1
    rw [hsigned.2, hcut.2] at hsub
    nth_rewrite 1 [← signed_abs_rat x] at hsub
    refine hsub.within hone.neg hone ?_ ?_
    · cases sign x <;> simp only [signed] <;> linarith
    · cases sign x <;> simp only [signed] <;> linarith
  -- from there on nothing is cut off
  · have hsub := roundsTo_sub hx hx
    rw [sub_self] at hsub
    exact hsub.within hone.neg hone (by norm_num) (by norm_num)

theorem rat_minus_one : Finite (-1.0 : Float) ∧ rat (-1.0 : Float) = -1 :=
  rat_of_unpack .negative (2 ^ 52) (-52) (by decide) rfl (by norm_num [Sign.apply])

theorem within_withinCycle (hx : Finite x) : Within 0 1 (withinCycle x) := by
  have hzero : Finite (0.0 : Float) := isFinite_iff.mp (by decide)
  have hrest : Within (-1) 1 (if fraction x == 0.0 then withSign x 0.0 else fraction x) := by
    split_ifs
    · have h := rat_withSign (x := x) hzero
      rw [rat_zero, signed_zero] at h
      exact ⟨h.1, by rw [h.2]; norm_num, by rw [h.2]; norm_num⟩
    · exact within_fraction hx
  rw [withinCycle]
  generalize (if fraction x == 0.0 then withSign x 0.0 else fraction x) = rest at hrest ⊢
  split_ifs with hneg
  · rw [lt_iff_rat hrest.finite.isNumber isNumber_zero, rat_zero] at hneg
    have hadd := roundsTo_add hrest.finite rat_one.1
    rw [rat_one.2] at hadd
    have hlower := hrest.lower
    exact hadd.within becomes_zero becomes_one (by linarith) (by linarith)
  · rw [lt_iff_rat hrest.finite.isNumber isNumber_zero, rat_zero, not_lt] at hneg
    exact ⟨hrest.finite, hneg, hrest.upper⟩

end Polyphony.Floating
