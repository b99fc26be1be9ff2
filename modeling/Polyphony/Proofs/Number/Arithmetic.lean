import Polyphony.Proofs.Number.Nearest
import Polyphony.Proofs.Number.Order

namespace Polyphony.Magnitude

open Float.Model (Format UnpackedFloat totalExponent)
open Float.Model.UnpackedFloat

variable {F : Format}

theorem log2_mul_two_pow {m : ℕ} (hm : m ≠ 0) (k : ℕ) : (m * 2 ^ k).log2 = m.log2 + k := by
  have h2 : 0 < 2 ^ k := by positivity
  rw [Nat.log2_eq_iff (Nat.mul_ne_zero hm h2.ne'), pow_add, Nat.add_right_comm, pow_add]
  exact ⟨Nat.mul_le_mul_right _ (Nat.log2_self_le hm),
    Nat.mul_lt_mul_of_pos_right Nat.lt_log2_self h2⟩

theorem nearest_shifted (hb : 1 < F.exponentBits) (s : Sign) {m : ℕ} (e : ℤ) (k : ℕ)
    (hm : m ≠ 0) (hk : e - k ≤ F.targetExponent (totalExponent m e)) :
    Nearest F (m * 2 ^ e) (codeOf (pack F
      (roundWithAccuracy F s (m * 2 ^ k) (e - k) .exact))) ∧
      signOf (pack F (roundWithAccuracy F s (m * 2 ^ k) (e - k) .exact)) = s := by
  have htotal : totalExponent (m * 2 ^ k) (e - k) = totalExponent m e := by
    rw [totalExponent, totalExponent, log2_mul_two_pow hm]
    omega
  refine nearest_roundWithAccuracy hb s (.inl (by positivity)) (htotal ▸ hk) ?_
  convert reads_exact (m * 2 ^ k) using 1
  rw [zpow_sub₀ (by norm_num), zpow_natCast]
  push_cast
  field_simp

theorem nearest_round (hb : 1 < F.exponentBits) (s : Sign) {m : ℕ} (e : ℤ) (hm : m ≠ 0) :
    Nearest F (m * 2 ^ e) (codeOf (pack F (UnpackedFloat.round F s m e))) ∧
      signOf (pack F (UnpackedFloat.round F s m e)) = s := by
  simp only [UnpackedFloat.round, decreaseExponent, Nat.shiftLeft_eq]
  exact nearest_shifted hb s e _ hm (by omega)

theorem nearest_ofNat (hb : 1 < F.exponentBits) (n : ℕ) :
    Nearest F n (codeOf (pack F (ofNat F n))) ∧
      signOf (pack F (ofNat F n)) = .positive := by
  rcases Nat.eq_zero_or_pos n with rfl | hn
  · have h := nearest_value (Nat.zero_le (infinity F))
    rw [value_zero] at h
    have hz : ofNat F 0 = .zero .positive := rfl
    rw [hz]
    simpa [pack, packedZero] using h
  · have hr : ofNat F n = UnpackedFloat.round F .positive n 0 := by
      have hpos := compare_gt_iff_gt.mpr (Int.natCast_pos.mpr hn)
      rw [ofNat, ofInt, UnpackedFloat.normalize, hpos, Int.toNat_natCast]
    have h := nearest_round hb .positive 0 hn.ne'
    rwa [zpow_zero, mul_one, ← hr] at h

theorem ofScientific_zero {n : ℕ} (hn : n ≠ 0) : ofScientific F n 0 =
    roundWithAccuracy F .positive (n * 2 ^ F.mantissaBits) (0 - F.mantissaBits) .exact := by
  have hpow : (0 : ℤ) < 2 ^ F.exponentBits := by positivity
  have hm : n <<< F.mantissaBits * 10 ^ (0 : ℤ).toNat = n * 2 ^ F.mantissaBits := by
    rw [Nat.shiftLeft_eq, Int.toNat_zero, Nat.pow_zero, Nat.mul_one]
  rw [ofScientific, dif_neg hn, if_neg (by omega), if_neg (by omega), if_pos le_rfl, mul, hm,
    add_zero, zero_sub]
  rfl

theorem nearest_ofScientific (hb : 1 < F.exponentBits) {n : ℕ} (hn : n ≠ 0) :
    Nearest F n (codeOf (pack F (ofScientific F n 0))) ∧
      signOf (pack F (ofScientific F n 0)) = .positive := by
  have htarget : (0 : ℤ) - F.mantissaBits ≤ F.targetExponent (totalExponent n 0) := by
    refine le_max_of_le_left ?_
    rw [totalExponent]
    omega
  have hr := nearest_shifted hb .positive 0 F.mantissaBits hn htarget
  rw [zpow_zero, mul_one] at hr
  rw [ofScientific_zero hn]
  exact hr

theorem reads_divCore {m₁ m₂ : ℕ} (e₁ e₂ : ℤ) (h₂ : 0 < m₂) :
    let q := divCore F m₁ e₁ m₂ e₂
    Reads (m₁ * 2 ^ e₁ / (m₂ * 2 ^ e₂) / 2 ^ q.2.1) (.ofMantissaAndAccuracy q.1 q.2.2) := by
  intro q
  obtain ⟨k, hk⟩ : ∃ k : ℕ, (e₁ - e₂ - q.2.1).toNat = k := ⟨_, rfl⟩
  have hle : q.2.1 ≤ e₁ - e₂ := min_le_left _ _
  have hq : q.1 = m₁ * 2 ^ k / m₂ := by
    rw [← hk, ← Nat.shiftLeft_eq]
    rfl
  have hacc : q.2.2 = accuracyOfFraction (m₁ * 2 ^ k % m₂) m₂ := by
    rw [← hk, ← Nat.shiftLeft_eq]
    rfl
  have hdiv : ((m₂ * (m₁ * 2 ^ k / m₂) + m₁ * 2 ^ k % m₂ : ℕ) : ℚ) = m₁ * 2 ^ k := by
    rw [Nat.div_add_mod]
    push_cast
    rfl
  have hpow : (2 : ℚ) ^ e₁ = 2 ^ k * 2 ^ q.2.1 * 2 ^ e₂ := by
    rw [← zpow_natCast, ← zpow_add₀ (by norm_num), ← zpow_add₀ (by norm_num)]
    congr 1
    omega
  rw [hacc, hq]
  convert reads_fraction (Nat.mod_lt (m₁ * 2 ^ k) h₂) using 1
  have hm₂ : (m₂ : ℚ) ≠ 0 := by exact_mod_cast h₂.ne'
  push_cast at hdiv
  rw [hpow]
  field_simp
  linarith

/-- The quotient has a bit to spare, so that rounding it does not lose any. -/
theorem divCore_le_target {m₁ m₂ : ℕ} (e₁ e₂ : ℤ) (h₁ : 0 < m₁) (h₂ : 0 < m₂) :
    let q := divCore F m₁ e₁ m₂ e₂
    (q.1 ≠ 0 ∨ q.2.1 ≤ F.minExponent) ∧ q.2.1 ≤ F.targetExponent (totalExponent q.1 q.2.1) := by
  intro q
  obtain ⟨k, hk⟩ : ∃ k : ℕ, (e₁ - e₂ - q.2.1).toNat = k := ⟨_, rfl⟩
  have hle : q.2.1 ≤ e₁ - e₂ := min_le_left _ _
  have hle' : q.2.1 ≤ F.targetExponent (totalExponent m₁ e₁ - totalExponent m₂ e₂) :=
    min_le_right _ _
  have hq : q.1 = m₁ * 2 ^ k / m₂ := by
    rw [← hk, ← Nat.shiftLeft_eq]
    rfl
  rcases le_or_gt q.2.1 F.minExponent with hmin | hmin
  · exact ⟨.inr hmin, hmin.trans (le_max_right _ _)⟩
  · simp only [Format.targetExponent, totalExponent, Format.mantissaBits] at hle' ⊢
    have hbits : F.mantissaBitsWithoutImplicit + (m₂.log2 + 1) ≤ m₁.log2 + k := by omega
    have hfull : 2 ^ F.mantissaBitsWithoutImplicit ≤ q.1 := by
      rw [hq, Nat.le_div_iff_mul_le h₂]
      calc 2 ^ F.mantissaBitsWithoutImplicit * m₂
          ≤ 2 ^ F.mantissaBitsWithoutImplicit * 2 ^ (m₂.log2 + 1) :=
            Nat.mul_le_mul_left _ Nat.lt_log2_self.le
        _ ≤ 2 ^ m₁.log2 * 2 ^ k := by
            rw [← pow_add, ← pow_add]
            exact Nat.pow_le_pow_right (by decide) hbits
        _ ≤ m₁ * 2 ^ k := Nat.mul_le_mul_right _ (Nat.log2_self_le h₁.ne')
    have hne : q.1 ≠ 0 := by
      have : 0 < 2 ^ F.mantissaBitsWithoutImplicit := by positivity
      omega
    have hlog := (Nat.le_log2 hne).mpr hfull
    exact ⟨.inl hne, by omega⟩

theorem nearest_div (hb : 1 < F.exponentBits) {s t : Sign} {m n : ℕ} {f g : UnpackedFloat}
    (hf : Decodes F s m f) (hg : Decodes F t n g) (hm : m < infinity F) (hn : 0 < n)
    (hn' : n < infinity F) :
    Nearest F (value F m / value F n) (codeOf (pack F (div F f g))) ∧
      signOf (pack F (div F f g)) = s / t := by
  cases hg with
  | zero => omega
  | notANumber h => omega
  | infinity => omega
  | finite h₂ hc' _ hcode =>
    subst hcode
    cases hf with
    | notANumber h => omega
    | infinity => omega
    | zero =>
      have h := nearest_value (Nat.zero_le (infinity F))
      rw [value_zero] at h ⊢
      rw [zero_div, div]
      simpa [pack, packedZero] using h
    | finite h₁ hc _ hcode =>
      subst hcode
      rw [value_code hc, value_code hc']
      obtain ⟨hq, hle⟩ := divCore_le_target (F := F) _ _ h₁ h₂
      exact nearest_roundWithAccuracy hb _ hq hle (reads_divCore _ _ h₂)

theorem infinity_div {s t : Sign} {n : ℕ} {f g : UnpackedFloat}
    (hf : Decodes F s (infinity F) f) (hg : Decodes F t n g) (hn : n < infinity F) :
    codeOf (pack F (div F f g)) = infinity F ∧
      signOf (pack F (div F f g)) = s / t := by
  have hinf := infinity_pos F
  generalize hm : infinity F = m at hf
  have hfi : f = .infinity s := by
    cases hf with
    | zero => omega
    | finite _ _ h => omega
    | infinity => rfl
    | notANumber h => omega
  subst hfi hm
  cases hg with
  | infinity => omega
  | notANumber h => omega
  | zero => simp [div, pack]
  | finite => simp [div, pack]

theorem Canonical.add_le_target {m₁ m₂ : ℕ} {e₁ e₂ : ℤ} (h₁ : Canonical F m₁ e₁)
    (h₂ : Canonical F m₂ e₂) (hm₁ : 0 < m₁) (hm₂ : 0 < m₂) :
    e₁ + e₂ ≤ F.targetExponent (totalExponent (m₁ * m₂) (e₁ + e₂)) := by
  have hmin := minExponent_eq F
  have hp := F.hm
  rw [Format.targetExponent, totalExponent, Format.mantissaBits]
  have hlog (h : 2 ^ F.mantissaBitsWithoutImplicit ≤ m₁ * m₂) :=
    (Nat.le_log2 (Nat.mul_pos hm₁ hm₂).ne').mpr h
  rcases h₁.full with he₁ | hfull
  · rcases h₂.full with he₂ | hfull
    · omega
    · have := hlog (hfull.trans (Nat.le_mul_of_pos_left _ hm₁))
      omega
  · have := hlog (hfull.trans (Nat.le_mul_of_pos_right _ hm₂))
    omega

theorem nearest_mul (hb : 1 < F.exponentBits) {s t : Sign} {m n : ℕ} {f g : UnpackedFloat}
    (hf : Decodes F s m f) (hg : Decodes F t n g) (hm : m < infinity F)
    (hn : n < infinity F) :
    Nearest F (value F m * value F n) (codeOf (pack F (mul F f g))) ∧
      signOf (pack F (mul F f g)) = s * t := by
  have hzero := nearest_value (Nat.zero_le (infinity F))
  rw [value_zero] at hzero
  cases hf with
  | notANumber h => omega
  | infinity => omega
  | zero =>
    rw [value_zero, zero_mul]
    cases hg with
    | notANumber h => omega
    | infinity => omega
    | zero => simpa [mul, pack, packedZero] using hzero
    | finite => simpa [mul, pack, packedZero] using hzero
  | finite h₁ hc _ hcode =>
    cases hg with
    | notANumber h => omega
    | infinity => omega
    | zero =>
      rw [value_zero, mul_zero]
      simpa [mul, pack, packedZero] using hzero
    | finite h₂ hc' _ hcode' =>
      subst hcode hcode'
      rw [value_code hc, value_code hc']
      refine nearest_roundWithAccuracy hb _ (.inl (Nat.mul_pos h₁ h₂).ne')
        (hc.add_le_target hc' h₁ h₂) ?_
      convert reads_exact _ using 1
      rw [zpow_add₀ (by norm_num)]
      push_cast
      field_simp

end Polyphony.Magnitude

namespace Polyphony.Number

open Magnitude
open Float.Model (Format totalExponent)
open Float.Model.UnpackedFloat

theorem nearest_float_mul {x y : Float} (hx : x.isFinite) (hy : y.isFinite) :
    Nearest .binary64 (value .binary64 (magnitude x) * value .binary64 (magnitude y))
      (magnitude (x * y)) ∧ sign (x * y) = sign x * sign y :=
  nearest_mul (by decide) (decodes_toModel x) (decodes_toModel y) (isFinite_iff_lt.mp hx)
    (isFinite_iff_lt.mp hy)

theorem nearest_float_div {x y : Float} (hx : x.isFinite) (hy : y.isFinite)
    (hpos : 0 < magnitude y) :
    Nearest .binary64 (value .binary64 (magnitude x) / value .binary64 (magnitude y))
      (magnitude (x / y)) ∧ sign (x / y) = sign x / sign y :=
  nearest_div (by decide) (decodes_toModel x) (decodes_toModel y) (isFinite_iff_lt.mp hx) hpos
    (isFinite_iff_lt.mp hy)

theorem nearest_toFloat (n : UInt64) :
    Nearest .binary64 n.toNat (magnitude n.toFloat) ∧ sign n.toFloat = .positive :=
  nearest_ofNat (by decide) n.toNat

theorem isFinite_toFloat (n : UInt64) : n.toFloat.isFinite := by
  have hc : Canonical .binary64 (2 ^ 52) 12 := ⟨by decide, by decide, .inr (by decide)⟩
  have hv := value_code hc
  have hle : code .binary64 (2 ^ 52) 12 < infinity .binary64 := by decide
  have hn : (n.toNat : ℚ) ≤ value .binary64 (code .binary64 (2 ^ 52) 12) := by
    have h : (n.toNat : ℚ) ≤ 2 ^ 64 := by exact_mod_cast n.toNat_lt.le
    rw [hv]
    norm_num at h ⊢
    exact h
  rw [isFinite_iff_lt]
  exact ((nearest_toFloat n).1.mono (nearest_value hle.le) hn).trans_lt hle

theorem magnitude_one : magnitude (Float.ofBits 0x3FF0000000000000) = 0x3FF0000000000000 := by
  decide

theorem ofNat_eq_of_lt {n : ℕ} (h : n < 2 ^ 53) :
    Float.ofNat n = n.toUInt64.toFloat * Float.ofBits 0x3FF0000000000000 :=
  (show Float.ofNat n = Float.ofScientific n false 0 from rfl).trans (dif_pos ⟨h, by decide⟩)

theorem ofNat_eq_of_le {n : ℕ} (h : 2 ^ 53 ≤ n) :
    Float.ofNat n = .ofModel (.pack (ofScientific .binary64 n 0)) :=
  (show Float.ofNat n = Float.ofScientific n false 0 from rfl).trans (dif_neg (by omega))

theorem nearest_float_ofNat (n : ℕ) :
    Nearest .binary64 n (magnitude (Float.ofNat n)) ∧ sign (Float.ofNat n) = .positive := by
  rcases lt_or_ge n (2 ^ 53) with h | h
  · have hone : (Float.ofBits 0x3FF0000000000000).isFinite := by decide
    obtain ⟨hn, hs⟩ := nearest_toFloat n.toUInt64
    obtain ⟨hm, hs'⟩ := nearest_float_mul (isFinite_toFloat n.toUInt64) hone
    have hval : value .binary64 (magnitude (Float.ofBits 0x3FF0000000000000)) = 1 := by
      rw [magnitude_one, value, show mantissa .binary64 0x3FF0000000000000 = 2 ^ 52 by decide,
        show exponent .binary64 0x3FF0000000000000 = -52 by decide]
      norm_num
    have hn64 : n.toUInt64.toNat = n := UInt64.toNat_ofNat_of_lt' (by rw [UInt64.size]; omega)
    rw [hval, mul_one] at hm
    rw [hn64] at hn
    rw [ofNat_eq_of_lt h, hm.unique (nearest_value hn.le_infinity), hs', hs]
    exact ⟨hn, rfl⟩
  · have hn : n ≠ 0 := by
      rintro rfl
      norm_num at h
    rw [ofNat_eq_of_le h]
    exact nearest_ofScientific (by decide) hn

end Polyphony.Number
