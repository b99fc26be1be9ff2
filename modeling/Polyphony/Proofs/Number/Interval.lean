import Polyphony.Proofs.Number.Floating

namespace Polyphony.Floating

open Float.Model (Format UnpackedFloat)
open Float.Model.UnpackedFloat (Sign pack)
open Magnitude

section Exact

variable {F : Format}

theorem code_lt_infinity {n : ℕ} {e : ℤ} (hn : n < 2 ^ (F.mantissaBitsWithoutImplicit + 1))
    (hmin : F.minExponent ≤ e) (he : e ≤ F.exponentBias - F.mantissaBitsWithoutImplicit) :
    Magnitude.code F n e < infinity F := by
  have hbias := minExponent_eq F
  have hcap := two_pow_exponentBits F
  have hexp : (e - F.minExponent).toNat + 2 ≤ 2 ^ F.exponentBits - 1 := by omega
  have hmul := Nat.mul_le_mul_right (2 ^ F.mantissaBitsWithoutImplicit) hexp
  rw [Nat.add_mul] at hmul
  rw [pow_succ] at hn
  rw [Magnitude.code, infinity]
  omega

/-- A mantissa that fits the format is kept at every exponent, if need be after a shift. -/
theorem becomes_mul_zpow {m : ℕ} {e : ℤ}
    (hm : m < 2 ^ (F.mantissaBitsWithoutImplicit + 1)) (hmin : F.minExponent ≤ e)
    (he : e ≤ F.exponentBias - F.mantissaBitsWithoutImplicit) :
    Becomes F (m * 2 ^ e) (m * 2 ^ e) := by
  rcases Nat.eq_zero_or_pos m with rfl | hpos
  · simpa using becomes_zero
  have hlog : m.log2 ≤ F.mantissaBitsWithoutImplicit :=
    Nat.lt_succ_iff.mp ((Nat.log2_lt hpos.ne').mpr hm)
  -- it is shifted up to its full width, or down to the least exponent
  obtain ⟨j, hj⟩ : ∃ j : ℕ, j = min (F.mantissaBitsWithoutImplicit - m.log2)
    (e - F.minExponent).toNat := ⟨_, rfl⟩
  have hfit : m * 2 ^ j < 2 ^ (F.mantissaBitsWithoutImplicit + 1) := by
    refine (Nat.mul_lt_mul_of_pos_right Nat.lt_log2_self (by positivity)).trans_le ?_
    rw [← pow_add]
    exact Nat.pow_le_pow_right (by decide) (by omega)
  have hc : Canonical F (m * 2 ^ j) (e - j) := by
    refine ⟨hfit, by omega, ?_⟩
    rcases le_total (F.mantissaBitsWithoutImplicit - m.log2) (e - F.minExponent).toNat with h | h
    · refine .inr ?_
      rw [hj, min_eq_left h, ← Nat.add_sub_cancel' hlog, pow_add, Nat.add_sub_cancel' hlog]
      exact Nat.mul_le_mul_right _ (Nat.log2_self_le hpos.ne')
    · exact .inl (by omega)
  have h := becomes_signed .positive (code_lt_infinity hfit hc.min_le (by omega))
  have hval : ((m * 2 ^ j : ℕ) : ℚ) * 2 ^ (e - j) = m * 2 ^ e := by
    rw [zpow_sub₀ (by norm_num), zpow_natCast]
    push_cast
    field_simp
  rwa [signed, value_code hc, hval] at h

theorem becomes_natCast_mul {m k : ℕ} (hm : m ≤ 2 ^ (F.mantissaBitsWithoutImplicit + 1))
    (hk : k + F.mantissaBitsWithoutImplicit + 1 ≤ F.exponentBias) :
    Becomes F (m * 2 ^ k) (m * 2 ^ k) := by
  have hmin := minExponent_eq F
  rcases hm.lt_or_eq with hlt | rfl
  · have h := becomes_mul_zpow (F := F) (e := k) hlt (by omega) (by omega)
    rwa [zpow_natCast] at h
  · have hpow : ((2 ^ (F.mantissaBitsWithoutImplicit + 1) : ℕ) : ℚ) * 2 ^ k =
        2 ^ ((k + F.mantissaBitsWithoutImplicit + 1 : ℕ) : ℤ) := by
      rw [zpow_natCast]
      push_cast
      ring
    rw [hpow]
    refine becomes_two_pow_self (by push_cast; omega) (code_lt_infinity ?_ ?_ ?_)
    · exact Nat.pow_lt_pow_right (by decide) (Nat.lt_succ_self _)
    · push_cast
      omega
    · push_cast
      omega

theorem becomes_natCast {m : ℕ} (hm : m ≤ 2 ^ (F.mantissaBitsWithoutImplicit + 1))
    (hF : F.mantissaBitsWithoutImplicit + 1 ≤ F.exponentBias) : Becomes F m m := by
  have h := becomes_natCast_mul (k := 0) hm (by omega)
  rwa [pow_zero, mul_one] at h

theorem becomes_pow {k : ℕ} (hk : k + F.mantissaBitsWithoutImplicit + 1 ≤ F.exponentBias) :
    Becomes F (2 ^ k) (2 ^ k) := by
  have h := becomes_natCast_mul (m := 1) (F := F) Nat.one_le_two_pow hk
  rwa [Nat.cast_one, one_mul] at h

theorem value_one : value F 1 = 2 ^ F.minExponent := by
  have hc : Canonical F 1 F.minExponent :=
    ⟨Nat.one_lt_two_pow (Nat.succ_ne_zero _), le_rfl, .inl rfl⟩
  have hcode : Magnitude.code F 1 F.minExponent = 1 := by
    rw [Magnitude.code, sub_self, Int.toNat_zero, Nat.zero_mul]
  have h := value_code hc
  rwa [hcode, Nat.cast_one, one_mul] at h

theorem exists_signed_eq (s : Sign) (n : ℕ) :
    ∃ i : ℤ, signed s (value F n) = i * 2 ^ F.minExponent := by
  have hc := canonical_mantissa (F := F) n
  obtain ⟨k, hk⟩ : ∃ k : ℕ, exponent F n = k + F.minExponent :=
    ⟨(exponent F n - F.minExponent).toNat, by have := hc.min_le; omega⟩
  refine ⟨s.apply (mantissa F n) * 2 ^ k, ?_⟩
  rw [← code_mantissa (F := F) n, signed_code s hc, code_mantissa, hk,
    zpow_add₀ (by norm_num), zpow_natCast]
  push_cast
  ring

end Exact

variable {α : Type} [Add α] [Sub α] [Mul α] [Div α] [LE α] [LT α] [Floating α]
variable {x y : α} {l l' u u' a b v : ℚ}

theorem RoundsTo.eq_rat (h : RoundsTo v x) (hv : Becomes (format α) v v) :
    Finite x ∧ rat x = v := by
  have hx := h.within hv hv le_rfl le_rfl
  exact ⟨hx.finite, le_antisymm hx.upper hx.lower⟩

/-- Two numbers that differ have a difference that is not rounded away. -/
theorem sub_pos_of_lt (hx : Finite x) (hy : Finite y) (h : rat x < rat y) :
    0 < rat (y - x) := by
  obtain ⟨i, hi⟩ := exists_signed_eq (F := format α) (sign x) (code x)
  obtain ⟨j, hj⟩ := exists_signed_eq (F := format α) (sign y) (code y)
  have hgrid : (0 : ℚ) < 2 ^ (format α).minExponent := by positivity
  -- the difference is at least one step of the grid, and that step is a number
  have hgap : signed .positive (value (format α) 1) ≤ rat y - rat x := by
    rw [rat, rat, hi, hj] at h ⊢
    have hij : i + 1 ≤ j := by
      have hlt := lt_of_mul_lt_mul_right h hgrid.le
      exact_mod_cast hlt
    have hcast : (i : ℚ) + 1 ≤ j := by exact_mod_cast hij
    rw [signed, value_one, ← sub_mul]
    exact le_mul_of_one_le_left hgrid.le (by linarith)
  have hle := Rounds.mono (rounds_signed .positive (infinity_pos _)) (roundsTo_sub hy hx) hgap
  have hrat := (apply_le_apply_iff (F := format α)).mp hle
  rw [signed, value_one] at hrat
  exact hgrid.trans_le hrat

theorem roundsTo_of_nearest (hv : 0 ≤ v) (hn : Nearest (format α) v (code x))
    (hs : sign x = .positive) : RoundsTo v x := by
  rw [RoundsTo, hs]
  exact hn.rounds hv .positive

theorem rat_of_bits {s : Sign} {n : ℕ} {f : UnpackedFloat} (hx : bits x = pack (format α) f)
    (hf : Decodes (format α) s n f) (hn : n < infinity (format α)) :
    Finite x ∧ rat x = signed s (value (format α) n) := by
  have h := rounds_pack wide hf hn
  rw [← hx] at h
  exact RoundsTo.eq_rat h (becomes_signed s hn)

namespace Within

theorem of_eq (h : Finite x ∧ rat x = v) : Within v v x := ⟨h.1, h.2.ge, h.2.le⟩

theorem mono (h : Within l u x) (hl : l' ≤ l) (hu : u ≤ u') : Within l' u' x :=
  ⟨h.finite, hl.trans h.lower, h.upper.trans hu⟩

theorem add (hx : Within l u x) (hy : Within l' u' y) (ha : Becomes (format α) (l + l') a)
    (hb : Becomes (format α) (u + u') b) : Within a b (x + y) :=
  (roundsTo_add hx.finite hy.finite).within ha hb (add_le_add hx.lower hy.lower)
    (add_le_add hx.upper hy.upper)

theorem sub (hx : Within l u x) (hy : Within l' u' y) (ha : Becomes (format α) (l - u') a)
    (hb : Becomes (format α) (u - l') b) : Within a b (x - y) :=
  (roundsTo_sub hx.finite hy.finite).within ha hb (sub_le_sub hx.lower hy.upper)
    (sub_le_sub hx.upper hy.lower)

theorem add_of_nonneg (hx : Within 0 u x) (hy : Within 0 u' y)
    (hb : Becomes (format α) (u + u') b) : Within 0 b (x + y) := by
  refine hx.add hy ?_ hb
  rw [add_zero]
  exact becomes_zero

theorem mul_of_nonneg (hx : Within 0 u x) (hy : Within 0 u' y)
    (hb : Becomes (format α) (u * u') b) : Within 0 b (x * y) := by
  refine (roundsTo_mul hx.finite hy.finite).within becomes_zero hb ?_ ?_
  · exact mul_nonneg hx.lower hy.lower
  · exact mul_le_mul hx.upper hy.upper hy.lower (hx.lower.trans hx.upper)

theorem div_of_nonneg (hx : Within 0 u x) (hy : Within l' u' y) (hl' : 0 < l')
    (hb : Becomes (format α) (u / l') b) : Within 0 b (x / y) := by
  have hpos := hl'.trans_le hy.lower
  refine (roundsTo_div hx.finite hy.finite hpos.ne').within becomes_zero hb ?_ ?_
  · exact div_nonneg hx.lower hpos.le
  · exact div_le_div₀ (hx.lower.trans hx.upper) hx.upper hl' hy.lower

theorem mul_of_abs (hx : Within (-u) u x) (hy : Within (-u') u' y)
    (hb : Becomes (format α) (u * u') b) : Within (-b) b (x * y) := by
  have hx' := abs_le.mpr ⟨hx.lower, hx.upper⟩
  have hy' := abs_le.mpr ⟨hy.lower, hy.upper⟩
  have habs : |rat x * rat y| ≤ u * u' := by
    rw [abs_mul]
    exact mul_le_mul hx' hy' (abs_nonneg _) ((abs_nonneg _).trans hx')
  exact (roundsTo_mul hx.finite hy.finite).within hb.neg hb (abs_le.mp habs).1 (abs_le.mp habs).2

end Within

theorem roundsTo_toFloat (n : UInt64) : RoundsTo (n.toNat : ℚ) n.toFloat :=
  roundsTo_of_nearest (Nat.cast_nonneg _) (Number.nearest_toFloat n).1 (Number.nearest_toFloat n).2

theorem within_toFloat {n : UInt64} (hl : Becomes .binary64 l l) (hu : Becomes .binary64 u u)
    (h₁ : l ≤ n.toNat) (h₂ : n.toNat ≤ u) : Within l u n.toFloat :=
  (roundsTo_toFloat n).within hl hu h₁ h₂

theorem becomes_binary64 {k : ℕ} (hk : k ≤ 970) : Becomes .binary64 (2 ^ k) (2 ^ k) :=
  becomes_pow (F := .binary64) (show k + 52 + 1 ≤ 1023 by omega)

theorem becomes_one : Becomes .binary64 1 1 := by simpa using becomes_binary64 (k := 0) (by decide)

theorem roundsTo_uint32 (n : UInt32) : RoundsTo (n.toNat : ℚ) n.toFloat := by
  have h := nearest_ofNat (F := .binary64) (by decide) n.toNat
  exact roundsTo_of_nearest (Nat.cast_nonneg _) h.1 h.2

theorem positive_uint32 {n : UInt32} (h : n ≠ 0) : Number.Positive n.toFloat := by
  have hlow : (1 : ℚ) ≤ n.toNat := by
    have hpos : n.toNat ≠ 0 := fun hn ↦ h (UInt32.toNat_inj.mp hn)
    exact_mod_cast Nat.one_le_iff_ne_zero.mpr hpos
  have hhigh : (n.toNat : ℚ) ≤ 2 ^ 32 := by exact_mod_cast n.toNat_lt.le
  have hx := (roundsTo_uint32 n).within becomes_one (becomes_binary64 (by decide)) hlow hhigh
  exact positive_iff.mpr ⟨hx.finite, lt_of_lt_of_le zero_lt_one hx.lower⟩

theorem rat_half : Finite (0.5 : Float) ∧ rat (0.5 : Float) = 1 / 2 :=
  rat_of_unpack .positive (2 ^ 52) (-53) (by decide) rfl (by norm_num [Sign.apply])

theorem rat_one : Finite (1.0 : Float) ∧ rat (1.0 : Float) = 1 :=
  rat_of_unpack .positive (2 ^ 52) (-52) (by decide) rfl (by norm_num [Sign.apply])

theorem rat_two : Finite (2.0 : Float) ∧ rat (2.0 : Float) = 2 :=
  rat_of_unpack .positive (2 ^ 52) (-51) (by decide) rfl (by norm_num [Sign.apply])

theorem rat_four : Finite (4.0 : Float) ∧ rat (4.0 : Float) = 4 :=
  rat_of_unpack .positive (2 ^ 52) (-50) (by decide) rfl (by norm_num [Sign.apply])

theorem within_zero : Within 0 0 (0.0 : Float) := .of_eq ⟨isFinite_iff.mp (by decide), rat_zero⟩

theorem within_one : Within 1 1 (1.0 : Float) := .of_eq rat_one

theorem finite_add {x y : Float} (hx : Finite x) (hy : Within (-1) 1 y) : Finite (y + x) := by
  -- the largest number is so far from the next that one more is rounded away
  have hlast : Canonical .binary64 (2 ^ 53 - 1) 971 :=
    ⟨by decide, by decide, .inr (by decide)⟩
  have hcode : Magnitude.code .binary64 (2 ^ 53 - 1) 971 + 1 = infinity .binary64 := by decide
  have hv := value_code hlast
  have hs := value_code_succ hlast
  have hgap : (2 : ℚ) ^ (2 : ℤ) ≤ 2 ^ (971 : ℤ) := zpow_le_zpow_right₀ (by norm_num) (by norm_num)
  generalize Magnitude.code .binary64 (2 ^ 53 - 1) 971 = n at hcode hv hs
  generalize (2 : ℚ) ^ (971 : ℤ) = g at hv hs hgap
  have hn : n < infinity .binary64 := by omega
  have hnonneg := value_nonneg (F := .binary64) n
  have hlarge : Becomes .binary64 (value .binary64 n + 1) (value .binary64 n) := by
    refine ⟨.positive, n, hn, ?_, rfl⟩
    refine (nearest_of_lt_midpoint hn (by linarith) ?_).rounds (by linarith) .positive
    rw [Magnitude.midpoint, hv, hs]
    push_cast
    linarith
  have habs : |rat x| ≤ value .binary64 n := by
    rw [rat, abs_signed _ (value_nonneg _)]
    exact value_strictMono.monotone (Nat.le_of_lt_succ (hx.trans_eq hcode.symm))
  obtain ⟨hl, hu⟩ := abs_le.mp habs
  have hround := (roundsTo_add hy.finite hx).within hlarge.neg hlarge
    (by linarith [hy.lower]) (by linarith [hy.upper])
  exact hround.finite

end Polyphony.Floating
