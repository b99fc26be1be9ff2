import Polyphony.Proofs.Number.Arithmetic

namespace Polyphony.Magnitude

open Float.Model (Format UnpackedFloat)
open Float.Model.UnpackedFloat

def signed : Sign → ℚ → ℚ
  | .positive, v => v
  | .negative, v => -v

variable (F : Format)

/-- The code and the sign that a number is rounded to. The sign of a zero is left open. -/
structure Rounds (v : ℚ) (s : Sign) (n : ℕ) : Prop where
  nearest : Nearest F |v| n
  positive : 0 < v → s = .positive
  negative : v < 0 → s = .negative

variable {F}

theorem value_nonneg (n : ℕ) : 0 ≤ value F n := by
  rw [← value_zero (F := F)]
  exact value_strictMono.monotone n.zero_le

@[simp] theorem signed_zero (s : Sign) : signed s 0 = 0 := by
  cases s <;> simp [signed]

theorem abs_signed (s : Sign) {v : ℚ} (h : 0 ≤ v) : |signed s v| = v := by
  cases s with
  | positive => exact abs_of_nonneg h
  | negative => exact (abs_neg v).trans (abs_of_nonneg h)

theorem signed_neg (s : Sign) (v : ℚ) : signed (-s) v = -signed s v := by
  cases s with
  | positive => rfl
  | negative => exact (neg_neg v).symm

theorem signed_mul (s t : Sign) (v w : ℚ) : signed (s * t) (v * w) = signed s v * signed t w := by
  cases s <;> cases t
  · exact (neg_mul_neg v w).symm
  · exact (neg_mul v w).symm
  · exact (mul_neg v w).symm
  · rfl

theorem signed_div (s t : Sign) (v w : ℚ) : signed (s / t) (v / w) = signed s v / signed t w := by
  cases s <;> cases t
  · exact (neg_div_neg_eq v w).symm
  · exact (neg_div w v).symm
  · exact (div_neg v).symm
  · rfl

/-- The order of signed codes is that of the numbers that they stand for. -/
theorem apply_le_apply_iff {s t : Sign} {m n : ℕ} :
    s.apply m ≤ t.apply n ↔ signed s (value F m) ≤ signed t (value F n) := by
  have hm := value_nonneg (F := F) m
  have hn := value_nonneg (F := F) n
  have hzero {k : ℕ} : value F k = 0 ↔ k = 0 := by
    rw [← value_zero (F := F), value_strictMono.injective.eq_iff]
  cases s <;> cases t <;> simp only [Sign.apply, signed]
  · rw [neg_le_neg_iff, neg_le_neg_iff, value_strictMono.le_iff_le, Int.ofNat_le]
  · exact ⟨fun _ ↦ by linarith, fun _ ↦ by omega⟩
  · constructor
    · intro h
      obtain ⟨rfl, rfl⟩ : m = 0 ∧ n = 0 := by omega
      simp
    · intro h
      have hm' := hzero.mp (by linarith : value F m = 0)
      have hn' := hzero.mp (by linarith : value F n = 0)
      omega
  · rw [value_strictMono.le_iff_le, Int.ofNat_le]

theorem Nearest.eq_zero {n : ℕ} (h : Nearest F 0 n) : n = 0 := by
  have hz := nearest_value (Nat.zero_le (infinity F))
  rw [value_zero] at hz
  exact h.unique hz

theorem Nearest.rounds {v : ℚ} {n : ℕ} (h : Nearest F v n) (hv : 0 ≤ v) (s : Sign) :
    Rounds F (signed s v) s n := by
  refine ⟨?_, fun hpos ↦ ?_, fun hneg ↦ ?_⟩
  · rwa [abs_signed s hv]
  · cases s with
    | positive => rfl
    | negative => exact absurd hpos (not_lt.mpr (neg_nonpos.mpr hv))
  · cases s with
    | positive => exact absurd hneg (not_lt.mpr hv)
    | negative => rfl

theorem rounds_signed (s : Sign) {n : ℕ} (h : n ≤ infinity F) :
    Rounds F (signed s (value F n)) s n :=
  (nearest_value h).rounds (value_nonneg n) s

theorem Rounds.mono {v w : ℚ} {s t : Sign} {m n : ℕ} (hv : Rounds F v s m) (hw : Rounds F w t n)
    (h : v ≤ w) : s.apply m ≤ t.apply n := by
  have hnonpos (hv0 : v ≤ 0) : s.apply m ≤ 0 := by
    rcases hv0.lt_or_eq with hlt | rfl
    · rw [hv.negative hlt, Sign.apply]
      omega
    · have h0 := hv.nearest
      rw [abs_zero] at h0
      rw [h0.eq_zero]
      cases s <;> simp [Sign.apply]
  have hnonneg (hw0 : 0 ≤ w) : 0 ≤ t.apply n := by
    rcases hw0.lt_or_eq with hlt | rfl
    · rw [hw.positive hlt, Sign.apply]
      omega
    · have h0 := hw.nearest
      rw [abs_zero] at h0
      rw [h0.eq_zero]
      cases t <;> simp [Sign.apply]
  rcases le_or_gt v 0 with hv0 | hv0
  · rcases le_or_gt 0 w with hw0 | hw0
    · exact (hnonpos hv0).trans (hnonneg hw0)
    · have hle : |w| ≤ |v| := by
        rw [abs_of_neg hw0, abs_of_neg (h.trans_lt hw0)]
        exact neg_le_neg h
      rw [hv.negative (h.trans_lt hw0), hw.negative hw0, Sign.apply, Sign.apply, neg_le_neg_iff]
      exact Int.ofNat_le.mpr (hw.nearest.mono hv.nearest hle)
  · have hle : |v| ≤ |w| := by
      rw [abs_of_pos hv0, abs_of_pos (hv0.trans_le h)]
      exact h
    rw [hv.positive hv0, hw.positive (hv0.trans_le h), Sign.apply, Sign.apply]
    exact Int.ofNat_le.mpr (hv.nearest.mono hw.nearest hle)

theorem Decodes.neg {s : Sign} {n : ℕ} {f : UnpackedFloat} (h : Decodes F s n f) :
    Decodes F (-s) n f.neg := by
  cases h with
  | zero => exact .zero
  | finite hm h hn hc => exact .finite hm h hn hc
  | infinity => exact .infinity
  | notANumber hn => exact .notANumber hn

theorem Decodes.eq_notANumber {s : Sign} {n : ℕ} {f : UnpackedFloat} (h : Decodes F s n f)
    (hn : Magnitude.infinity F < n) : f = .notANumber := by
  cases h with
  | zero => omega
  | finite hm hc hlt => omega
  | infinity => omega
  | notANumber => rfl

theorem Decodes.eq_infinity {s : Sign} {f : UnpackedFloat}
    (h : Decodes F s (Magnitude.infinity F) f) : f = .infinity s := by
  have hpos := infinity_pos F
  generalize hn : Magnitude.infinity F = n at h
  cases h with
  | zero => omega
  | finite hm hc hlt => omega
  | infinity => rfl
  | notANumber h => omega

theorem codeOf_packedZero (s : Sign) : codeOf (packedZero F s) = 0 := by
  simp [packedZero]

theorem infinity_lt_packedNaN : infinity F < codeOf (packedNaN F) := by
  have hlt : 2 ^ (F.mantissaBitsWithoutImplicit - 1) < 2 ^ F.mantissaBitsWithoutImplicit :=
    Nat.pow_lt_pow_right (by decide) (Nat.sub_lt F.hm Nat.one_pos)
  have hone : 1 < 2 ^ F.mantissaBitsWithoutImplicit := Nat.one_lt_two_pow F.hm.ne'
  rw [packedNaN, codeOf_packComponents, BitVec.neg_one_eq_allOnes, BitVec.toNat_allOnes, infinity,
    BitVec.toNat_shiftLeft, Nat.shiftLeft_eq, BitVec.toNat_ofNat, Nat.mod_eq_of_lt hone, one_mul,
    Nat.mod_eq_of_lt hlt]
  exact Nat.lt_add_of_pos_right (by positivity)

theorem rounds_pack_zero (s : Sign) :
    Rounds F 0 (signOf (pack F (.zero s))) (codeOf (pack F (.zero s))) := by
  have h := rounds_signed s (Nat.zero_le (infinity F))
  rw [value_zero, signed_zero] at h
  simpa [pack, packedZero] using h

theorem rounds_pack (hb : 1 < F.exponentBits) {s : Sign} {n : ℕ} {f : UnpackedFloat}
    (h : Decodes F s n f) (hn : n < infinity F) :
    Rounds F (signed s (value F n)) (signOf (pack F f)) (codeOf (pack F f)) := by
  cases h with
  | notANumber hn => omega
  | infinity => omega
  | zero =>
    rw [value_zero, signed_zero]
    exact rounds_pack_zero s
  | finite hm hc hlt hcode =>
    subst hcode
    rw [codeOf_pack_finite hb s hm hc, signOf_pack_finite, min_eq_left hlt.le]
    exact rounds_signed s hlt.le

theorem rounds_normalize (hb : 1 < F.exponentBits) (i : ℤ) (e : ℤ) :
    Rounds F (i * 2 ^ e) (signOf (pack F (UnpackedFloat.normalize F i e .positive)))
      (codeOf (pack F (UnpackedFloat.normalize F i e .positive))) := by
  rcases lt_trichotomy i 0 with hi | rfl | hi
  · obtain ⟨hn, hs⟩ := nearest_round hb .negative e (m := (-i).toNat) (by omega)
    have hr := hn.rounds (by positivity) .negative
    have hnat : ((-i).toNat : ℚ) = -i := by
      rw [← Int.cast_natCast, Int.toNat_of_nonneg (by omega), Int.cast_neg]
    rw [signed, hnat, neg_mul, neg_neg] at hr
    rw [UnpackedFloat.normalize, compare_lt_iff_lt.mpr hi]
    simp only
    rwa [hs]
  · rw [UnpackedFloat.normalize, compare_eq_iff_eq.mpr rfl, Int.cast_zero, zero_mul]
    exact rounds_pack_zero _
  · obtain ⟨hn, hs⟩ := nearest_round hb .positive e (m := i.toNat) (by omega)
    have hr := hn.rounds (by positivity) .positive
    have hnat : (i.toNat : ℚ) = i := by
      rw [← Int.cast_natCast, Int.toNat_of_nonneg hi.le]
    rw [signed, hnat] at hr
    rw [UnpackedFloat.normalize, compare_gt_iff_gt.mpr hi]
    simp only
    rwa [hs]

theorem signed_code (s : Sign) {m : ℕ} {e : ℤ} (h : Canonical F m e) :
    signed s (value F (code F m e)) = s.apply m * 2 ^ e := by
  cases s <;> simp [signed, value_code h, Sign.apply]

theorem apply_decreaseExponent (s : Sign) (m : ℕ) {e t : ℤ} (h : t ≤ e) :
    (s.apply (decreaseExponent m e t).1 : ℚ) * 2 ^ t = s.apply m * 2 ^ e := by
  obtain ⟨k, hk⟩ : ∃ k : ℕ, e = t + k := ⟨(e - t).toNat, by omega⟩
  have hpow : (2 : ℚ) ^ e = 2 ^ t * 2 ^ k := by
    rw [hk, zpow_add₀ (by norm_num), zpow_natCast]
  have hshift : (decreaseExponent m e t).1 = m * 2 ^ k := by
    rw [decreaseExponent, hk, add_sub_cancel_left, Int.toNat_natCast, Nat.shiftLeft_eq]
  rw [hshift, hpow]
  cases s <;> simp only [Sign.apply] <;> push_cast <;> ring

section Operations

variable {s t : Sign} {m n : ℕ} {f g : UnpackedFloat}

theorem rounds_add (hb : 1 < F.exponentBits) (hf : Decodes F s m f) (hg : Decodes F t n g)
    (hm : m < infinity F) (hn : n < infinity F) :
    Rounds F (signed s (value F m) + signed t (value F n)) (signOf (pack F (add F f g)))
      (codeOf (pack F (add F f g))) := by
  have hpf := rounds_pack hb hf hm
  have hpg := rounds_pack hb hg hn
  cases hf with
  | notANumber h => omega
  | infinity => omega
  | zero =>
    rw [value_zero, signed_zero, zero_add]
    cases hg with
    | notANumber h => omega
    | infinity => omega
    | zero =>
      rw [value_zero, signed_zero, add]
      split_ifs
      · exact rounds_pack_zero _
      · exact rounds_pack_zero _
    | finite h₂ => exact hpg
  | finite h₁ hc _ hcode =>
    cases hg with
    | notANumber h => omega
    | infinity => omega
    | zero =>
      rw [value_zero, signed_zero, add_zero]
      exact hpf
    | finite h₂ hc' _ hcode' =>
      subst hcode hcode'
      rw [signed_code s hc, signed_code t hc', ← apply_decreaseExponent s _ (min_le_left _ _),
        ← apply_decreaseExponent t _ (min_le_right _ _), ← add_mul, ← Int.cast_add]
      exact rounds_normalize hb _ _

theorem apply_neg (s : Sign) (i : ℤ) : (-s).apply i = -s.apply i := by
  cases s with
  | positive => rfl
  | negative => exact (neg_neg i).symm

theorem sub_eq_add (f g : UnpackedFloat) :
    UnpackedFloat.sub F f g = UnpackedFloat.add F f g.neg := by
  cases f with
  | notANumber => rfl
  | infinity s => cases g <;> rfl
  | zero s => cases g <;> rfl
  | finite s m e hm =>
    cases g with
    | notANumber => rfl
    | infinity t => rfl
    | zero t => rfl
    | finite t n e' hn =>
      simp only [UnpackedFloat.sub, UnpackedFloat.neg, UnpackedFloat.add, apply_neg,
        sub_eq_add_neg]

theorem rounds_sub (hb : 1 < F.exponentBits) (hf : Decodes F s m f) (hg : Decodes F t n g)
    (hm : m < infinity F) (hn : n < infinity F) :
    Rounds F (signed s (value F m) - signed t (value F n)) (signOf (pack F (sub F f g)))
      (codeOf (pack F (sub F f g))) := by
  rw [sub_eq_add, sub_eq_add_neg, ← signed_neg]
  exact rounds_add hb hf hg.neg hm hn

theorem rounds_mul (hb : 1 < F.exponentBits) (hf : Decodes F s m f) (hg : Decodes F t n g)
    (hm : m < infinity F) (hn : n < infinity F) :
    Rounds F (signed s (value F m) * signed t (value F n)) (signOf (pack F (mul F f g)))
      (codeOf (pack F (mul F f g))) := by
  obtain ⟨hnear, hs⟩ := nearest_mul hb hf hg hm hn
  rw [← signed_mul, hs]
  exact hnear.rounds (mul_nonneg (value_nonneg m) (value_nonneg n)) _

theorem rounds_div (hb : 1 < F.exponentBits) (hf : Decodes F s m f) (hg : Decodes F t n g)
    (hm : m < infinity F) (hn : 0 < n) (hn' : n < infinity F) :
    Rounds F (signed s (value F m) / signed t (value F n)) (signOf (pack F (div F f g)))
      (codeOf (pack F (div F f g))) := by
  obtain ⟨hnear, hs⟩ := nearest_div hb hf hg hm hn hn'
  rw [← signed_div, hs]
  exact hnear.rounds (div_nonneg (value_nonneg m) (value_nonneg n)) _

end Operations

end Polyphony.Magnitude
