import Polyphony.Proofs.Number.Propagation

namespace Polyphony.Magnitude

open Float.Model (Format)
open Float.Model.UnpackedFloat

variable {F : Format}

theorem exists_natCast_eq_value {n : ℕ} (h : 0 ≤ exponent F n) : ∃ k : ℕ, value F n = k := by
  obtain ⟨k, hk⟩ := Int.eq_ofNat_of_zero_le h
  exact ⟨mantissa F n * 2 ^ k, by rw [value, hk, zpow_natCast]; push_cast; rfl⟩

theorem exponent_nonneg_of_le {n : ℕ} (h : 2 ^ F.mantissaBitsWithoutImplicit ≤ value F n) :
    0 ≤ exponent F n := by
  by_contra hneg
  have hpow : (2 : ℚ) ^ exponent F n ≤ 2 ^ (-1 : ℤ) :=
    zpow_le_zpow_right₀ (by norm_num) (by omega)
  have hmant : (mantissa F n : ℚ) < 2 ^ (F.mantissaBitsWithoutImplicit + 1) := by
    exact_mod_cast (canonical_mantissa n).lt
  have hvalue : value F n < 2 ^ (F.mantissaBitsWithoutImplicit + 1) * 2 ^ (-1 : ℤ) :=
    mul_lt_mul hmant hpow (by positivity) (by positivity)
  rw [pow_succ, zpow_neg_one, mul_assoc, mul_inv_cancel₀ (by norm_num), mul_one] at hvalue
  exact absurd h hvalue.not_ge

end Polyphony.Magnitude

namespace Polyphony.Floating

open Float.Model (Format)
open Float.Model.UnpackedFloat
open Magnitude

theorem becomes_sub_floor {F : Format} {n : ℕ}
    (hF : F.mantissaBitsWithoutImplicit ≤ F.exponentBias) :
    Becomes F (value F n - ⌊value F n⌋₊) (value F n - ⌊value F n⌋₊) := by
  have hc := canonical_mantissa (F := F) n
  rcases le_total 0 (exponent F n) with he | he
  · obtain ⟨k, hk⟩ := exists_natCast_eq_value he
    rw [hk, Nat.floor_natCast, sub_self]
    exact becomes_zero
  -- behind the point stand the last places of the mantissa
  · obtain ⟨k, hk⟩ : ∃ k : ℕ, exponent F n = -k := by
      obtain ⟨k, hk⟩ := Int.eq_ofNat_of_zero_le (neg_nonneg.mpr he)
      exact ⟨k, neg_eq_iff_eq_neg.mp hk⟩
    have hvalue : value F n = mantissa F n / (2 ^ k : ℕ) := by
      rw [value, hk, zpow_neg, zpow_natCast, ← div_eq_mul_inv]
      push_cast
      rfl
    have hdiv : (mantissa F n : ℚ) = 2 ^ k * (mantissa F n / 2 ^ k : ℕ) +
        (mantissa F n % 2 ^ k : ℕ) := by
      exact_mod_cast (Nat.div_add_mod _ _).symm
    have hrest : value F n - ⌊value F n⌋₊ = (mantissa F n % 2 ^ k : ℕ) * 2 ^ exponent F n := by
      rw [hvalue, Nat.floor_div_eq_div, hk, zpow_neg, zpow_natCast]
      nth_rewrite 1 [hdiv]
      push_cast
      field_simp
      ring
    rw [hrest]
    exact becomes_mul_zpow ((Nat.mod_le _ _).trans_lt hc.lt) hc.min_le (by omega)

section Rising

variable {α : Type} [Add α] [Sub α] [Mul α] [Div α] [LE α] [LT α] [Floating α] {x y c : α}

/-- The code with the sign in front, which is in the order of the numbers. -/
def signedCode (x : α) : ℤ := (sign x).apply (code x)

theorem natAbs_signedCode (x : α) : (signedCode x).natAbs = code x := by
  rw [signedCode]
  cases sign x <;> simp [Sign.apply]

theorem le_iff_signedCode (hx : IsNumber x) (hy : IsNumber y) :
    x ≤ y ↔ signedCode x ≤ signedCode y :=
  (le_iff_rat hx hy).trans apply_le_apply_iff.symm

theorem signedCode_of_bits (hx : code x = infinity (format α))
    (h : bits y = pack (format α) (.infinity (sign x))) : signedCode y = signedCode x := by
  have hcode : code y = code x := by
    rw [code, h, hx]
    exact codeOf_packedInfinity (sign x)
  have hsign : sign y = sign x := by
    rw [sign, h]
    exact signOf_packedInfinity (sign x)
  rw [signedCode, hcode, hsign, signedCode]

theorem unpack_of_rat_pos (hc : Finite c) (hpos : 0 < rat c) :
    ∃ m e hm, unpack (format α) (bits c) = .finite .positive m e hm := by
  have hsign : sign c = .positive := (roundsTo_rat hc.isNumber).positive hpos
  have hcode : code c ≠ 0 := fun h ↦ hpos.ne' (rat_of_code_eq_zero h)
  have hd := decodes c
  rw [hsign] at hd
  rw [Finite] at hc
  generalize unpack (format α) (bits c) = f, code c = n at hd hc hcode
  cases hd with
  | zero => exact absurd rfl hcode
  | finite hm => exact ⟨_, _, hm, rfl⟩
  | infinity => exact absurd hc (lt_irrefl _)
  | notANumber h => exact absurd hc h.not_gt

/-- An operation that rounds a function that never falls, and that leaves infinity as it is. -/
structure Rising (f : α → α) (g : ℚ → ℚ) : Prop where
  mono : Monotone g
  rounds : ∀ x, Finite x → RoundsTo (g (rat x)) (f x)
  infinite : ∀ x, code x = infinity (format α) → signedCode (f x) = signedCode x

variable {f : α → α} {g : ℚ → ℚ}

theorem Rising.isNumber (h : Rising f g) (hx : IsNumber x) : IsNumber (f x) := by
  rcases hx.lt_or_eq with hlt | heq
  · exact (h.rounds x hlt).isNumber
  · rw [IsNumber, ← natAbs_signedCode, h.infinite x heq, natAbs_signedCode]
    exact hx

theorem Rising.le (h : Rising f g) (hxy : x ≤ y) : f x ≤ f y := by
  obtain ⟨hx, hy⟩ := isNumber_of_le hxy
  have hfx := h.isNumber hx
  have hfy := h.isNumber hy
  have hcodes := (le_iff_signedCode hx hy).mp hxy
  rw [le_iff_signedCode hfx hfy]
  rcases hx.lt_or_eq with hxf | hxi
  · rcases hy.lt_or_eq with hyf | hyi
    · exact Rounds.mono (h.rounds x hxf) (h.rounds y hyf) (h.mono ((le_iff_rat hx hy).mp hxy))
    -- an infinity above a finite number is the upper one, and nothing is above that
    · rw [h.infinite y hyi]
      rw [IsNumber, ← natAbs_signedCode] at hfx
      rw [← natAbs_signedCode] at hxf hyi
      omega
  · rw [h.infinite x hxi]
    rcases hy.lt_or_eq with hyf | hyi
    · rw [IsNumber, ← natAbs_signedCode] at hfy
      rw [← natAbs_signedCode] at hxi hyf
      omega
    · rwa [h.infinite y hyi]

theorem rising_mul_left (hc : Finite c) (hpos : 0 < rat c) : Rising (c * ·) (rat c * ·) where
  mono _ _ h := mul_le_mul_of_nonneg_left h hpos.le
  rounds _ hx := roundsTo_mul hc hx
  infinite x hx := by
    obtain ⟨m, e, hm, hunpack⟩ := unpack_of_rat_pos hc hpos
    refine signedCode_of_bits hx ?_
    rw [bits_mul, hunpack, unpack_of_infinite hx]
    cases sign x <;> rfl

theorem rising_mul_right (hc : Finite c) (hpos : 0 < rat c) : Rising (· * c) (· * rat c) where
  mono _ _ h := mul_le_mul_of_nonneg_right h hpos.le
  rounds _ hx := roundsTo_mul hx hc
  infinite x hx := by
    obtain ⟨m, e, hm, hunpack⟩ := unpack_of_rat_pos hc hpos
    refine signedCode_of_bits hx ?_
    rw [bits_mul, hunpack, unpack_of_infinite hx]
    cases sign x <;> rfl

theorem rising_div (hc : Finite c) (hpos : 0 < rat c) : Rising (· / c) (· / rat c) where
  mono _ _ h := div_le_div_of_nonneg_right h hpos.le
  rounds _ hx := roundsTo_div hx hc hpos.ne'
  infinite x hx := by
    obtain ⟨m, e, hm, hunpack⟩ := unpack_of_rat_pos hc hpos
    refine signedCode_of_bits hx ?_
    rw [bits_div, hunpack, unpack_of_infinite hx]
    cases sign x <;> rfl

end Rising

def nearestInt (v : ℚ) : ℤ :=
  if v < 0 then -⌊-v + 1 / 2⌋₊ else ⌊v + 1 / 2⌋₊

theorem nearestInt_mono : Monotone nearestInt := by
  intro v w h
  rw [nearestInt, nearestInt]
  split_ifs with hv hw hw
  · have hfloor := Nat.floor_mono (show -w + 1 / 2 ≤ -v + 1 / 2 by linarith)
    omega
  · omega
  · linarith
  · have hfloor := Nat.floor_mono (show v + 1 / 2 ≤ w + 1 / 2 by linarith)
    omega

theorem nearestInt_signed (s : Sign) {v : ℚ} (hv : 0 ≤ v) :
    (nearestInt (signed s v) : ℚ) = signed s ⌊v + 1 / 2⌋₊ := by
  rw [nearestInt]
  cases s with
  | positive => simp [signed, hv]
  | negative =>
    rcases hv.lt_or_eq with hlt | rfl
    · simp [signed, hlt]
    · norm_num [signed]

variable {x : Float}

/-- Below `wholeFrom` what is cut off is known exactly. -/
theorem rat_sub_floor (hx : Finite x) (hlt : |rat x| < 2 ^ 52) :
    Finite (x.abs - x.abs.toUInt64.toFloat) ∧
      rat (x.abs - x.abs.toUInt64.toFloat) = |rat x| - ⌊|rat x|⌋₊ := by
  have habs := rat_abs hx
  have hbelow := rat_floor hx hlt
  have hsub := roundsTo_sub habs.1 hbelow.1
  rw [habs.2, hbelow.2] at hsub
  refine hsub.eq_rat ?_
  rw [rat, abs_signed _ (value_nonneg _)]
  exact becomes_sub_floor (F := .binary64) (by decide)

theorem rat_roundedUp (hx : Finite x) (hlt : |rat x| < 2 ^ 52) (y : Float)
    (hy : y = x.abs.toUInt64.toFloat) :
    Finite (if 0.5 ≤ x.abs - y then y + 1.0 else y) ∧
      rat (if 0.5 ≤ x.abs - y then y + 1.0 else y) = ⌊|rat x| + 1 / 2⌋₊ := by
  have hbelow := rat_floor hx hlt
  have hrest := rat_sub_floor hx hlt
  rw [← hy] at hbelow hrest
  have hle := Nat.floor_le (abs_nonneg (rat x))
  have hgt := Nat.lt_floor_add_one |rat x|
  have hreaches : 0.5 ≤ x.abs - y ↔ 1 / 2 ≤ |rat x| - ⌊|rat x|⌋₊ := by
    rw [le_iff_rat rat_half.1.isNumber hrest.1.isNumber, rat_half.2, hrest.2]
  split_ifs with hhalf <;> rw [hreaches] at hhalf
  · have hfloor : ⌊|rat x| + 1 / 2⌋₊ = ⌊|rat x|⌋₊ + 1 := by
      rw [Nat.floor_eq_iff (by positivity)]
      push_cast
      constructor <;> linarith
    have hadd := roundsTo_add hbelow.1 rat_one.1
    rw [hbelow.2, rat_one.2, ← Nat.cast_add_one] at hadd
    rw [hfloor]
    refine hadd.eq_rat (becomes_natCast (F := .binary64) ?_ (by decide))
    have hsmall : ((⌊|rat x|⌋₊ + 1 : ℕ) : ℚ) ≤ (2 ^ 53 : ℕ) := by
      push_cast
      linarith
    exact_mod_cast hsmall
  · have hfloor : ⌊|rat x| + 1 / 2⌋₊ = ⌊|rat x|⌋₊ := by
      rw [Nat.floor_eq_iff (by positivity)]
      constructor <;> linarith
    rw [hfloor]
    exact hbelow

theorem rat_nearestWhole (hx : Finite x) :
    Finite (nearestWhole x) ∧ rat (nearestWhole x) = nearestInt (rat x) := by
  have hint := nearestInt_signed (sign x) (abs_nonneg (rat x))
  rw [signed_abs_rat] at hint
  rw [nearestWhole, hint]
  split_ifs with hlt
  · rw [abs_lt_wholeFrom_iff hx] at hlt
    obtain ⟨hfinite, hrat⟩ := rat_roundedUp hx hlt _ rfl
    rw [← hrat]
    exact rat_withSign hfinite
  · rw [abs_lt_wholeFrom_iff hx, not_lt] at hlt
    obtain ⟨k, hk⟩ : ∃ k : ℕ, |rat x| = k := by
      rw [rat, abs_signed _ (value_nonneg _)] at hlt ⊢
      exact exists_natCast_eq_value (exponent_nonneg_of_le (F := .binary64) hlt)
    have hfloor : ⌊(k : ℚ) + 1 / 2⌋₊ = k := by
      rw [Nat.floor_eq_iff (by positivity)]
      constructor <;> linarith
    rw [hk, hfloor, ← hk, signed_abs_rat]
    exact ⟨hx, rfl⟩

theorem rising_nearestWhole : Rising nearestWhole fun v ↦ nearestInt v where
  mono _ _ h := Int.cast_le.mpr (nearestInt_mono h)
  rounds x hx := by
    obtain ⟨hfinite, hrat⟩ := rat_nearestWhole hx
    rw [← hrat]
    exact roundsTo_rat hfinite.isNumber
  infinite x hx := by
    rw [nearestWhole, if_neg (not_abs_lt_wholeFrom hx)]

end Polyphony.Floating
