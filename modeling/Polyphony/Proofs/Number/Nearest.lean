import Polyphony.Proofs.Number.Magnitude

namespace Polyphony.Magnitude

open Float.Model (Format UnpackedFloat totalExponent)
open Float.Model.UnpackedFloat

variable (F : Format)

def midpoint (n : ℕ) : ℚ := (value F n + value F (n + 1)) / 2

/-- The code nearest to a number, and of two equally near ones the even one. -/
structure Nearest (v : ℚ) (n : ℕ) : Prop where
  le_infinity : n ≤ infinity F
  lower : ∀ k < n, midpoint F k ≤ v ∧ (midpoint F k = v → k + 1 = n ∧ Even n)
  upper : n < infinity F → v ≤ midpoint F n ∧ (v = midpoint F n → Even n)

variable {F}

theorem midpoint_strictMono : StrictMono (midpoint F) := fun m n h ↦ by
  have h₁ := value_strictMono (F := F) h
  have h₂ := value_strictMono (F := F) (Nat.succ_lt_succ h)
  simp only [midpoint, Nat.succ_eq_add_one] at *
  linarith

theorem midpoint_lt_value {k n : ℕ} (h : k < n) : midpoint F k < value F n := by
  have h₁ := value_strictMono (F := F) (Nat.lt_succ_self k)
  have h₂ := value_strictMono.monotone (f := value F) (Nat.succ_le_of_lt h)
  rw [midpoint]
  simp only [Nat.succ_eq_add_one] at *
  linarith

theorem value_lt_midpoint (n : ℕ) : value F n < midpoint F n := by
  have h := value_strictMono (F := F) (Nat.lt_succ_self n)
  simp only [midpoint, Nat.succ_eq_add_one] at *
  linarith

theorem Nearest.mono {v w : ℚ} {m n : ℕ} (hv : Nearest F v m) (hw : Nearest F w n)
    (h : v ≤ w) : m ≤ n := by
  by_contra hlt
  rw [not_le] at hlt
  obtain ⟨hl, hl'⟩ := hv.lower n hlt
  obtain ⟨hu, hu'⟩ := hw.upper (hlt.trans_le hv.le_infinity)
  obtain ⟨rfl, hm⟩ := hl' (by linarith)
  have hn := hu' (by linarith)
  exact Nat.not_even_iff_odd.mpr hn.add_one hm

theorem Nearest.unique {v : ℚ} {m n : ℕ} (hm : Nearest F v m) (hn : Nearest F v n) : m = n :=
  le_antisymm (hm.mono hn le_rfl) (hn.mono hm le_rfl)

theorem nearest_value {n : ℕ} (h : n ≤ infinity F) : Nearest F (value F n) n :=
  ⟨h, fun _ hk ↦ ⟨(midpoint_lt_value hk).le, fun he ↦ absurd he (midpoint_lt_value hk).ne⟩,
    fun _ ↦ ⟨(value_lt_midpoint n).le, fun he ↦ absurd he (value_lt_midpoint n).ne⟩⟩

theorem Nearest.of_bounds {v : ℚ} {n : ℕ}
    (hl : ∀ k < n, midpoint F k ≤ v ∧ (midpoint F k = v → k + 1 = n ∧ Even n))
    (hu : v ≤ midpoint F n ∧ (v = midpoint F n → Even n)) :
    Nearest F v (min n (infinity F)) := by
  rcases le_or_gt n (infinity F) with hn | hn
  · rw [min_eq_left hn]
    exact ⟨hn, hl, fun _ ↦ hu⟩
  · rw [min_eq_right hn.le]
    refine ⟨le_rfl, fun k hk ↦ ⟨(hl k (hk.trans hn)).1, fun h ↦ ?_⟩, fun h ↦ absurd h (lt_irrefl _)⟩
    have := ((hl k (hk.trans hn)).2 h).1
    omega

def lowEnd (em : ExtendedMantissa) : ℚ := em.mantissa + bif em.roundBit then 1 / 2 else 0

/-- A number as a mantissa with its two residual bits gives it. -/
def Reads (x : ℚ) (em : ExtendedMantissa) : Prop :=
  if em.stickyBit then lowEnd em < x ∧ x < lowEnd em + 1 / 2 else x = lowEnd em

theorem lowEnd_shiftRightOne (em : ExtendedMantissa) :
    lowEnd em.shiftRightOne = em.mantissa / 2 := by
  have hdiv : ((2 * (em.mantissa / 2) + em.mantissa % 2 : ℕ) : ℚ) = em.mantissa := by
    rw [Nat.div_add_mod]
  push_cast at hdiv
  have hbit : em.shiftRightOne.roundBit = (em.mantissa % 2 != 0) := rfl
  rw [lowEnd, hbit, show em.shiftRightOne.mantissa = em.mantissa / 2 from rfl]
  rcases Nat.mod_two_eq_zero_or_one em.mantissa with hr | hr <;> rw [hr] at hdiv ⊢
  · rw [show ((0 : ℕ) != 0) = false from rfl, cond_false]
    push_cast at hdiv
    linarith
  · rw [show ((1 : ℕ) != 0) = true from rfl, cond_true]
    push_cast at hdiv
    linarith

theorem Reads.shiftRightOne {x : ℚ} {em : ExtendedMantissa} (h : Reads x em) :
    Reads (x / 2) em.shiftRightOne := by
  rw [Reads, lowEnd_shiftRightOne]
  obtain ⟨m, r, s⟩ := em
  cases r <;> cases s <;>
    simp only [Reads, lowEnd, ExtendedMantissa.shiftRightOne, Bool.or_true, Bool.or_false,
      cond_true, cond_false, if_true, if_false, Bool.false_eq_true] at h ⊢
  · linarith
  · constructor <;> linarith [h.1, h.2]
  · constructor <;> linarith
  · constructor <;> linarith [h.1, h.2]

theorem Reads.shiftRight {x : ℚ} {em : ExtendedMantissa} (h : Reads x em) (k : ℕ) :
    Reads (x / 2 ^ k) (em >>> k) := by
  induction k with
  | zero => rwa [pow_zero, div_one]
  | succ k ih =>
    have hs := ih.shiftRightOne
    rw [div_div, ← pow_succ] at hs
    exact hs

theorem mantissa_shiftRight (em : ExtendedMantissa) (k : ℕ) :
    (em >>> k).mantissa = em.mantissa / 2 ^ k := by
  induction k with
  | zero => simp; rfl
  | succ k ih =>
    rw [pow_succ, ← Nat.div_div_eq_div_mul, ← ih]
    rfl

theorem mantissa_ofMantissaAndAccuracy (m : ℕ) (acc : Accuracy) :
    (ExtendedMantissa.ofMantissaAndAccuracy m acc).mantissa = m := by
  rcases acc with _ | ⟨_ | _ | _⟩ <;> rfl

theorem roundedMantissa_eq (em : ExtendedMantissa) :
    em.roundedMantissa = em.mantissa ∨ em.roundedMantissa = em.mantissa + 1 := by
  obtain ⟨m, r, s⟩ := em
  cases r <;> cases s
  · exact .inl rfl
  · exact .inl rfl
  · exact (Nat.mod_two_eq_zero_or_one m).imp (congrArg (m + ·)) (congrArg (m + ·))
  · exact .inr rfl

theorem Reads.rounded {x : ℚ} {em : ExtendedMantissa} (h : Reads x em) :
    (em.roundedMantissa = em.mantissa ∧ em.mantissa ≤ x ∧ x ≤ em.mantissa + 1 / 2 ∧
      (x = em.mantissa + 1 / 2 → Even em.mantissa)) ∨
    (em.roundedMantissa = em.mantissa + 1 ∧ em.mantissa + 1 / 2 ≤ x ∧ x ≤ em.mantissa + 1 ∧
      (x = em.mantissa + 1 / 2 → Even (em.mantissa + 1))) := by
  obtain ⟨m, r, s⟩ := em
  cases r <;> cases s <;> simp only [Reads, lowEnd, cond_true, cond_false, if_true, if_false,
    Bool.false_eq_true] at h
  · exact .inl ⟨rfl, by linarith, by linarith, fun hx ↦ by linarith⟩
  · exact .inl ⟨rfl, by linarith [h.1], by linarith [h.2], fun hx ↦ by linarith [h.2]⟩
  · rcases Nat.even_or_odd m with he | ho
    · refine .inl ⟨?_, by linarith, by linarith, fun _ ↦ he⟩
      exact congrArg (m + ·) (Nat.even_iff.mp he)
    · refine .inr ⟨?_, by linarith, by linarith, fun _ ↦ ho.add_one⟩
      exact congrArg (m + ·) (Nat.odd_iff.mp ho)
  · exact .inr ⟨rfl, by linarith [h.1], by linarith [h.2], fun hx ↦ by linarith [h.1]⟩

theorem reads_exact (m : ℕ) : Reads m (.ofMantissaAndAccuracy m .exact) := by
  simp [Reads, lowEnd, ExtendedMantissa.ofMantissaAndAccuracy]

theorem reads_fraction {m num den : ℕ} (h : num < den) :
    Reads (m + num / den) (.ofMantissaAndAccuracy m (accuracyOfFraction num den)) := by
  have hden : (0 : ℚ) < den := by exact_mod_cast Nat.zero_lt_of_lt h
  have hlt : (num : ℚ) / den < 1 := (div_lt_one hden).mpr (by exact_mod_cast h)
  rw [accuracyOfFraction]
  split_ifs with hz
  · simpa [hz] using reads_exact m
  · have hpos : (0 : ℚ) < num / den := div_pos (by exact_mod_cast Nat.pos_of_ne_zero hz) hden
    rcases lt_trichotomy (2 * num) den with ho | ho | ho
    · have hq : (num : ℚ) / den < 1 / 2 := by
        rw [div_lt_div_iff₀ hden (by norm_num)]
        exact_mod_cast (by omega : num * 2 < 1 * den)
      rw [compare_lt_iff_lt.mpr ho]
      simp only [Reads, lowEnd, ExtendedMantissa.ofMantissaAndAccuracy, if_true, cond_false]
      constructor <;> linarith
    · have hq : (num : ℚ) / den = 1 / 2 := by
        rw [div_eq_div_iff hden.ne' (by norm_num)]
        exact_mod_cast (by omega : num * 2 = 1 * den)
      rw [compare_eq_iff_eq.mpr ho]
      simp only [Reads, lowEnd, ExtendedMantissa.ofMantissaAndAccuracy, if_false, cond_true,
        Bool.false_eq_true]
      linarith
    · have hq : (1 : ℚ) / 2 < num / den := by
        rw [div_lt_div_iff₀ (by norm_num) hden]
        exact_mod_cast (by omega : 1 * den < num * 2)
      rw [compare_gt_iff_gt.mpr ho]
      simp only [Reads, lowEnd, ExtendedMantissa.ofMantissaAndAccuracy, if_true, cond_true]
      constructor <;> linarith

theorem Canonical.target {m : ℕ} {e : ℤ} (h : Canonical F m e) :
    F.targetExponent (totalExponent m e) = e := by
  have hle := h.min_le
  have hp := F.hm
  rw [Format.targetExponent, totalExponent, Format.mantissaBits]
  rcases Nat.eq_zero_or_pos m with rfl | hm
  · have he := h.full.resolve_right (by simp)
    rw [Nat.log2_zero]
    omega
  · have hlt := (Nat.log2_lt hm.ne').mpr h.lt
    rcases h.full with he | hfull
    · omega
    · have hge := (Nat.le_log2 hm.ne').mpr hfull
      omega

/-- Shifting to the target exponent leaves as many bits as the format has, unless the exponent
is the least one. -/
theorem canonical_shift {m : ℕ} {e : ℤ} (hm : m ≠ 0 ∨ e ≤ F.minExponent)
    (he : e ≤ F.targetExponent (totalExponent m e)) :
    Canonical F (m / 2 ^ (F.targetExponent (totalExponent m e) - e).toNat)
      (F.targetExponent (totalExponent m e)) := by
  have hp := F.hm
  have htarget : F.targetExponent (totalExponent m e) =
      max ((m.log2 : ℤ) - F.mantissaBitsWithoutImplicit + e) F.minExponent := by
    rw [Format.targetExponent, totalExponent, Format.mantissaBits]
    omega
  rw [htarget] at he ⊢
  obtain ⟨k, hk⟩ : ∃ k : ℕ, max ((m.log2 : ℤ) - F.mantissaBitsWithoutImplicit + e)
      F.minExponent = e + k := ⟨_, by rw [Int.toNat_of_nonneg (sub_nonneg.mpr he)]; omega⟩
  have hlt : m < 2 ^ k * 2 ^ (F.mantissaBitsWithoutImplicit + 1) := by
    rw [← pow_add]
    exact Nat.lt_log2_self.trans_le (Nat.pow_le_pow_right (by decide) (by omega))
  rw [hk, add_sub_cancel_left, Int.toNat_natCast]
  refine ⟨Nat.div_lt_of_lt_mul hlt, by omega, ?_⟩
  rcases eq_or_ne (e + k) F.minExponent with hmin | hmin
  · exact .inl hmin
  · have hm : m ≠ 0 := by
      rintro rfl
      rw [Nat.log2_zero] at hk
      omega
    refine .inr ((Nat.le_div_iff_mul_le (by positivity)).mpr ?_)
    rw [← pow_add]
    exact (Nat.pow_le_pow_right (by decide) (by omega)).trans (Nat.log2_self_le hm)

theorem shiftToTargetExponent_canonical {m : ℕ} {e : ℤ} (h : Canonical F m e) (acc : Accuracy) :
    shiftToTargetExponent F m e acc = (.ofMantissaAndAccuracy m acc, e) := by
  rw [shiftToTargetExponent, h.target, shiftToExponent, sub_self]
  simp only [Int.toNat_zero, Nat.cast_zero, add_zero]
  rfl

/-- The code of a rounded number. A mantissa that is rounded up past its last bit gives the
first code of the next exponent. -/
theorem pack_roundWithAccuracy (hb : 1 < F.exponentBits) (s : Sign) {m : ℕ} {e : ℤ}
    (acc : Accuracy) (hm : m ≠ 0 ∨ e ≤ F.minExponent)
    (he : e ≤ F.targetExponent (totalExponent m e)) :
    let first := (shiftToTargetExponent F m e acc).1
    let b := pack F (roundWithAccuracy F s m e acc)
    codeOf b = min (code F first.roundedMantissa (F.targetExponent (totalExponent m e)))
      (infinity F) ∧ signOf b = s := by
  intro first b
  have hc := canonical_shift hm he
  have hfirst : first.mantissa = m / 2 ^ (F.targetExponent (totalExponent m e) - e).toNat :=
    (mantissa_shiftRight _ _).trans (by rw [mantissa_ofMantissaAndAccuracy])
  have hshift : shiftToTargetExponent F m e acc =
      (first, F.targetExponent (totalExponent m e)) :=
    Prod.ext rfl (show e + _ = _ by rw [Int.toNat_of_nonneg (sub_nonneg.mpr he)]; omega)
  have hround : roundWithAccuracy F s m e acc =
      let last := shiftToTargetExponent F first.roundedMantissa
        (shiftToTargetExponent F m e acc).2 .exact
      number s last.1.mantissa last.2 := rfl
  rw [← hfirst] at hc
  rw [hshift] at hround
  generalize F.targetExponent (totalExponent m e) = t at *
  have hr := roundedMantissa_eq first
  have hlt := hc.lt
  simp only [b, hround]
  rcases (show first.roundedMantissa ≤ 2 ^ (F.mantissaBitsWithoutImplicit + 1) by
    omega).lt_or_eq with hlt | heq
  · have hc' : Canonical F first.roundedMantissa t :=
      ⟨hlt, hc.min_le, hc.full.imp_right fun h ↦ by omega⟩
    rw [shiftToTargetExponent_canonical hc']
    exact pack_number hb s hc'
  · have hcarry := canonical_carry hc.min_le
    have htarget : F.targetExponent (totalExponent first.roundedMantissa t) = t + 1 := by
      have hle := hc.min_le
      rw [heq, Format.targetExponent, totalExponent, Nat.log2_two_pow, Format.mantissaBits]
      omega
    have hlast : shiftToTargetExponent F first.roundedMantissa t .exact =
        ((ExtendedMantissa.ofMantissaAndAccuracy first.roundedMantissa .exact).shiftRightOne,
          t + 1) := by
      rw [shiftToTargetExponent, htarget, shiftToExponent, add_sub_cancel_left]
      rfl
    have hhalf : first.roundedMantissa / 2 = 2 ^ F.mantissaBitsWithoutImplicit := by
      rw [heq, pow_succ, Nat.mul_div_cancel _ (by decide)]
    have hcode : code F first.roundedMantissa t =
        code F (first.roundedMantissa / 2) (t + 1) := by
      rw [hhalf, heq, code_carry hc.min_le]
    rw [hlast, hcode]
    rw [← hhalf] at hcarry
    exact pack_number hb s hcarry

theorem even_code {m : ℕ} {e : ℤ} : Even (code F m e) ↔ Even m := by
  rw [code, Nat.even_add]
  simp [Nat.even_pow, F.hm.ne']

theorem nearest_roundWithAccuracy (hb : 1 < F.exponentBits) (s : Sign) {m : ℕ} {e : ℤ}
    {acc : Accuracy} {v : ℚ} (hm : m ≠ 0 ∨ e ≤ F.minExponent)
    (he : e ≤ F.targetExponent (totalExponent m e))
    (hv : Reads (v / 2 ^ e) (.ofMantissaAndAccuracy m acc)) :
    Nearest F v (codeOf (pack F (roundWithAccuracy F s m e acc))) ∧
      signOf (pack F (roundWithAccuracy F s m e acc)) = s := by
  refine ⟨?_, (pack_roundWithAccuracy hb s acc hm he).2⟩
  have hc := canonical_shift hm he
  have hr := hv.shiftRight (F.targetExponent (totalExponent m e) - e).toNat
  rw [div_div, ← zpow_natCast, ← zpow_add₀ (by norm_num), Int.toNat_of_nonneg (sub_nonneg.mpr he),
    add_sub_cancel] at hr
  rw [(pack_roundWithAccuracy hb s acc hm he).1, shiftToTargetExponent, shiftToExponent]
  have hmant := mantissa_shiftRight (.ofMantissaAndAccuracy m acc)
    (F.targetExponent (totalExponent m e) - e).toNat
  rw [mantissa_ofMantissaAndAccuracy] at hmant
  rw [← hmant] at hc
  dsimp only
  generalize (ExtendedMantissa.ofMantissaAndAccuracy m acc >>>
    (F.targetExponent (totalExponent m e) - e).toNat) = em at *
  generalize F.targetExponent (totalExponent m e) = t at *
  have h2 : (0 : ℚ) < 2 ^ t := by positivity
  have hval := value_code hc
  have hsucc := value_code_succ hc
  have hmid : midpoint F (code F em.mantissa t) = (em.mantissa + 1 / 2) * 2 ^ t := by
    rw [midpoint, hval, hsucc]
    ring
  have hx : v = v / 2 ^ t * 2 ^ t := (div_mul_cancel₀ v h2.ne').symm
  have hhalf : v = midpoint F (code F em.mantissa t) → v / 2 ^ t = em.mantissa + 1 / 2 :=
    fun h ↦ by rw [h, hmid, mul_div_cancel_right₀ _ h2.ne']
  obtain ⟨heq, hlo, hhi, htie⟩ | ⟨heq, hlo, hhi, htie⟩ := hr.rounded
  · have hl := mul_le_mul_of_nonneg_right hlo h2.le
    have hu := mul_le_mul_of_nonneg_right hhi h2.le
    rw [← hx, ← hval] at hl
    rw [← hx, ← hmid] at hu
    rw [heq]
    refine .of_bounds (fun k hk ↦ ?_) ⟨hu, fun h ↦ even_code.mpr (htie (hhalf h))⟩
    have hlt := (midpoint_lt_value hk).trans_le hl
    exact ⟨hlt.le, fun h ↦ absurd h hlt.ne⟩
  · have hl := mul_le_mul_of_nonneg_right hlo h2.le
    have hu := mul_le_mul_of_nonneg_right hhi h2.le
    rw [← hx, ← hmid] at hl
    rw [← hx, ← hsucc] at hu
    have hcode : code F em.roundedMantissa t = code F em.mantissa t + 1 := by rw [heq]; rfl
    rw [hcode]
    have hlt := hu.trans_lt (value_lt_midpoint (code F em.mantissa t + 1))
    refine .of_bounds (fun k hk ↦ ?_) ⟨hlt.le, fun h ↦ absurd h hlt.ne⟩
    rcases Nat.lt_succ_iff_lt_or_eq.mp hk with hk | rfl
    · have hlt := (midpoint_strictMono hk).trans_le hl
      exact ⟨hlt.le, fun h ↦ absurd h hlt.ne⟩
    · refine ⟨hl, fun h ↦ ⟨rfl, ?_⟩⟩
      rw [← hcode, heq]
      exact even_code.mpr (htie (hhalf h.symm))

end Polyphony.Magnitude
