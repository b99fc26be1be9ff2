import Polyphony.Number.Single
import Polyphony.Proofs.Number.Whole

namespace Polyphony

open Float.Model (Format UnpackedFloat)
open Float.Model.UnpackedFloat
open Magnitude

theorem nearestEven_le {a q d : ℕ} (hd : 0 < d) (h : a ≤ q * d) : nearestEven a d ≤ q := by
  have hdiv := Nat.div_add_mod' a d
  have hmod := Nat.mod_lt a hd
  have hle : a / d ≤ q := Nat.div_le_of_le_mul (by rwa [Nat.mul_comm])
  rcases hle.lt_or_eq with hlt | heq
  · have hstep : a / d % 2 ≤ 1 := by omega
    simp only [nearestEven]
    split_ifs <;> omega
  · rw [heq] at hdiv
    have hexact : a % d = 0 := by omega
    simp only [nearestEven, hexact, heq]
    rw [if_pos (by omega)]

theorem narrowMagnitude_le {n : ℕ} (h : n ≤ 0x3ff0000000000000) :
    narrowMagnitude n ≤ 0x3f800000 := by
  have hmod := Nat.mod_lt n (show 0 < 2 ^ 52 by norm_num)
  have hdiv := Nat.div_add_mod' n (2 ^ 52)
  have hlow {q d : ℕ} (hd : 0 < d) (hq : 2 ^ 53 ≤ q * d) :
      nearestEven (2 ^ 52 + n % 2 ^ 52) d ≤ q := by
    refine nearestEven_le hd (le_trans ?_ hq)
    omega
  simp only [narrowMagnitude, Nat.pow_eq]
  split_ifs with h₁ h₂ h₃ h₄
  · omega
  · omega
  · refine (min_le_left _ _).trans ?_
    rcases Nat.lt_or_ge (n / 2 ^ 52) 1023 with hlt | hge
    · have hround := hlow (q := 2 ^ 24) (d := 2 ^ 29) (by norm_num) (by norm_num)
      omega
    · have hround : nearestEven (2 ^ 52 + n % 2 ^ 52) (2 ^ 29) ≤ 2 ^ 23 :=
        nearestEven_le (by norm_num) (by omega)
      omega
  · exact Nat.zero_le _
  · have hpow : 2 ^ 30 ≤ 2 ^ (926 - n / 2 ^ 52) := Nat.pow_le_pow_right (by norm_num) (by omega)
    have hround := hlow (q := 2 ^ 23) (d := 2 ^ (926 - n / 2 ^ 52)) (by positivity) (by omega)
    omega

theorem narrowMagnitude_zero : narrowMagnitude 0 = 0 := by decide

namespace Floating

variable {x : Float}

theorem decodes_narrow (hlt : narrowMagnitude (code x) < 2 ^ 31) :
    ∃ f, bits (narrow x) = pack .binary32 f ∧
      Decodes .binary32 (sign x) (narrowMagnitude (code x)) f := by
  have hpos := Number.sign_eq_positive_iff (x := x)
  change sign x = .positive ↔ _ at hpos
  have hcode : code x = x.toBits.toNat % 2 ^ 63 := rfl
  -- `b` is the word that is written: the sign in its place and the magnitude below it
  obtain ⟨b, hb⟩ : ∃ b, b = (if 2 ^ 63 ≤ x.toBits.toNat then 2 ^ 31 else 0) +
    narrowMagnitude (code x) := ⟨_, rfl⟩
  have hbits : bits (narrow x) = pack .binary32 (unpack .binary32 (UInt32.ofNat b).toBitVec) := by
    rw [hb, hcode]
    rfl
  have hnat : (UInt32.ofNat b).toBitVec.toNat = b := by
    refine UInt32.toNat_ofNat_of_lt' ?_
    rw [hb, UInt32.size]
    split_ifs <;> omega
  have hsign : signOf (F := .binary32) (UInt32.ofNat b).toBitVec = sign x := by
    have hpos' := signOf_eq_positive_iff (F := .binary32) (UInt32.ofNat b).toBitVec
    have hiff : b < 2 ^ 31 ↔ x.toBits.toNat < 2 ^ 63 := by
      rw [hb]
      split_ifs <;> omega
    rw [hnat] at hpos'
    have hsame := hpos'.trans (hiff.trans hpos.symm)
    revert hsame
    generalize signOf (F := .binary32) (UInt32.ofNat b).toBitVec = s, sign x = t
    cases s <;> cases t <;> simp
  have hmag : codeOf (F := .binary32) (UInt32.ofNat b).toBitVec = narrowMagnitude (code x) := by
    have hmod : codeOf (F := .binary32) (UInt32.ofNat b).toBitVec = b % 2 ^ 31 :=
      congrArg (· % 2 ^ 31) hnat
    rw [hmod, hb]
    split_ifs <;> omega
  have hdecodes := decodes_unpack (F := .binary32) (UInt32.ofNat b).toBitVec
  rw [hsign, hmag] at hdecodes
  exact ⟨_, hbits, hdecodes⟩

theorem rat_narrow (h : narrowMagnitude (code x) < Magnitude.infinity .binary32) :
    Finite (narrow x) ∧ rat (narrow x) =
      signed (sign x) (value .binary32 (narrowMagnitude (code x))) := by
  obtain ⟨f, hbits, hf⟩ := decodes_narrow (h.trans (by decide))
  exact rat_of_bits hbits hf h

theorem value_one64 : value .binary64 0x3ff0000000000000 = 1 := by
  have h := rat_one.2
  rwa [rat, show code (1.0 : Float) = 0x3ff0000000000000 by decide,
    show sign (1.0 : Float) = .positive from rfl] at h

theorem value_one32 : value .binary32 0x3f800000 = 1 := by
  rw [value, show mantissa .binary32 0x3f800000 = 2 ^ 23 by decide,
    show exponent .binary32 0x3f800000 = -23 by decide]
  norm_num

theorem narrow_spec (hx : Within (-1) 1 x) : Finite (narrow x) ∧
    rat (narrow x) = signed (sign x) (value .binary32 (narrowMagnitude (code x))) ∧
      value .binary32 (narrowMagnitude (code x)) ≤ 1 := by
  have hone : code x ≤ 0x3ff0000000000000 := by
    rw [← (value_strictMono (F := .binary64)).le_iff_le, value_one64,
      ← abs_signed (sign x) (value_nonneg _)]
    exact abs_le.mpr ⟨hx.lower, hx.upper⟩
  have hle := narrowMagnitude_le hone
  have hrat := rat_narrow (hle.trans_lt (by decide))
  refine ⟨hrat.1, hrat.2, ?_⟩
  rw [← value_one32]
  exact value_strictMono.monotone hle

theorem within_narrow (hx : Within (-1) 1 x) : Within (-1) 1 (narrow x) := by
  obtain ⟨hfinite, hrat, hle⟩ := narrow_spec hx
  have habs : |rat (narrow x)| ≤ 1 := by
    rw [hrat, abs_signed _ (value_nonneg _)]
    exact hle
  exact ⟨hfinite, (abs_le.mp habs).1, (abs_le.mp habs).2⟩

theorem within_narrow_of_nonneg (hx : Within 0 1 x) : Within 0 1 (narrow x) := by
  have hall := within_narrow (hx.mono (by norm_num) le_rfl)
  refine ⟨hall.finite, ?_, hall.upper⟩
  obtain ⟨-, hrat, -⟩ := narrow_spec (hx.mono (by norm_num) le_rfl)
  rw [hrat]
  have hlower := hx.lower
  have hnonneg := value_nonneg (F := .binary64) (code x)
  cases hs : sign x with
  | positive => exact value_nonneg _
  | negative =>
    have hzero : code x = 0 := by
      rw [rat, hs, signed] at hlower
      have hvalue : value .binary64 (code x) = value .binary64 0 := by
        rw [value_zero]
        exact le_antisymm (neg_nonneg.mp hlower) hnonneg
      exact value_strictMono.injective hvalue
    rw [hzero, narrowMagnitude_zero, value_zero, signed_zero]

theorem rat_one_single : Finite (1.0 : Float32) ∧ rat (1.0 : Float32) = 1 :=
  rat_of_unpack .positive (2 ^ 23) (-23) (by decide) rfl (by norm_num [Sign.apply])

theorem rat_minus_one_single : Finite (-1.0 : Float32) ∧ rat (-1.0 : Float32) = -1 :=
  rat_of_unpack .negative (2 ^ 23) (-23) (by decide) rfl (by norm_num [Sign.apply])

theorem within_one_single : Within 1 1 (1.0 : Float32) := .of_eq rat_one_single

theorem within_zero_single : Within 0 0 (0.0 : Float32) := by
  have hzero : code (0.0 : Float32) = 0 := by decide
  refine .of_eq ⟨?_, rat_of_code_eq_zero hzero⟩
  rw [Finite, hzero]
  exact infinity_pos _

theorem roundsTo_ofNat (n : ℕ) : RoundsTo (n : ℚ) (Float32.ofNat n) := by
  rcases Nat.lt_or_ge n (2 ^ 23) with hlt | hge
  -- short numbers are converted as a word and scaled by one
  · have hfast : Float32.ofNat n = n.toUInt64.toFloat32 * Float32.ofBits 0x3F800000 :=
      (show Float32.ofNat n = Float32.ofScientific n false 0 from rfl).trans
        (dif_pos ⟨hlt, by decide⟩)
    have hn : n.toUInt64.toNat = n := UInt64.toNat_ofNat_of_lt' (by rw [UInt64.size]; omega)
    have hexact : Becomes .binary32 (n : ℚ) n :=
      becomes_natCast (F := .binary32) (hlt.le.trans (by decide)) (by decide)
    have hwhole : RoundsTo (n : ℚ) n.toUInt64.toFloat32 := by
      have hnear := nearest_ofNat (F := .binary32) (by decide) n.toUInt64.toNat
      have h : RoundsTo (n.toUInt64.toNat : ℚ) n.toUInt64.toFloat32 :=
        roundsTo_of_nearest (Nat.cast_nonneg _) hnear.1 hnear.2
      rwa [hn] at h
    have hrat := hwhole.eq_rat hexact
    have hunit : Finite (Float32.ofBits 0x3F800000) ∧ rat (Float32.ofBits 0x3F800000) = 1 :=
      rat_of_unpack .positive (2 ^ 23) (-23) (by decide) rfl (by norm_num [Sign.apply])
    have hmul := roundsTo_mul hrat.1 hunit.1
    rw [hrat.2, hunit.2, mul_one] at hmul
    rwa [hfast]
  · have hslow : Float32.ofNat n = .ofModel (.pack (ofScientific .binary32 n 0)) :=
      (show Float32.ofNat n = Float32.ofScientific n false 0 from rfl).trans (dif_neg (by omega))
    have hnear := nearest_ofScientific (F := .binary32) (by decide) (n := n) (by omega)
    rw [hslow]
    exact roundsTo_of_nearest (Nat.cast_nonneg _) hnear.1 hnear.2

/-- One part in a whole number, which may be too large to be counted. -/
theorem within_part {n : ℕ} (hn : 1 ≤ n) : Within 0 1 (1.0 / Float32.ofNat n) := by
  have hround := roundsTo_ofNat n
  rcases hround.nearest.le_infinity.lt_or_eq with hlt | heq
  · have hx : Finite (Float32.ofNat n) := hlt
    have hone : Becomes .binary32 1 1 := becomes_natCast (m := 1) (by decide) (by decide)
    have hge : 1 ≤ rat (Float32.ofNat n) := by
      have h := RoundsTo.mono (roundsTo_rat rat_one_single.1.isNumber) hround
        (by rw [rat_one_single.2]; exact_mod_cast hn)
      rwa [rat_one_single.2] at h
    have hpos : 0 < rat (Float32.ofNat n) := one_pos.trans_le hge
    have hdiv := roundsTo_div rat_one_single.1 hx hpos.ne'
    rw [rat_one_single.2] at hdiv
    refine hdiv.within becomes_zero hone (by positivity) ?_
    rwa [div_le_one hpos]
  -- what is too large is counted as infinite, and its part is zero
  · have hzero : code (1.0 / Float32.ofNat n) = 0 := code_div_infinity rat_one_single.1 heq
    have hrat := rat_of_code_eq_zero hzero
    refine ⟨?_, hrat.ge, hrat.le.trans zero_le_one⟩
    rw [Finite, hzero]
    exact infinity_pos _

theorem clip_in_range {x : Float32} (hx : IsNumber x) : -1.0 ≤ clip x ∧ clip x ≤ 1.0 := by
  have hminus := rat_minus_one_single
  have hone := rat_one_single
  rw [clip]
  split_ifs with hlow hhigh
  · refine ⟨le_refl hminus.1.isNumber, ?_⟩
    rw [le_iff_rat hminus.1.isNumber hone.1.isNumber, hminus.2, hone.2]
    norm_num
  · refine ⟨?_, le_refl hone.1.isNumber⟩
    rw [le_iff_rat hminus.1.isNumber hone.1.isNumber, hminus.2, hone.2]
    norm_num
  · rw [lt_iff_rat hx hminus.1.isNumber, not_lt] at hlow
    rw [lt_iff_rat hone.1.isNumber hx, not_lt] at hhigh
    exact ⟨(le_iff_rat hminus.1.isNumber hx).mpr hlow, (le_iff_rat hx hone.1.isNumber).mpr hhigh⟩

end Floating

end Polyphony
