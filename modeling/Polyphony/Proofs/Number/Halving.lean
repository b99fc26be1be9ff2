import Polyphony.Proofs.Number.Propagation

namespace Polyphony.Magnitude

open Float.Model (Format UnpackedFloat)
open Float.Model.UnpackedFloat

variable (F : Format)

/-- The code of twice the number. Below the normal numbers the mantissa is doubled, above them the
exponent goes up by one. -/
def doubled (n : ℕ) : ℕ :=
  if n < 2 ^ F.mantissaBitsWithoutImplicit then 2 * n else n + 2 ^ F.mantissaBitsWithoutImplicit

variable {F}

theorem value_doubled (n : ℕ) : value F (doubled F n) = 2 * value F n := by
  have hp : 0 < 2 ^ F.mantissaBitsWithoutImplicit := by positivity
  rw [doubled]
  split_ifs with h
  · have hlow : n / 2 ^ F.mantissaBitsWithoutImplicit = 0 := Nat.div_eq_of_lt h
    have hone : 2 * n / 2 ^ F.mantissaBitsWithoutImplicit - 1 = 0 := by
      have hlt : 2 * n / 2 ^ F.mantissaBitsWithoutImplicit < 2 :=
        Nat.div_lt_of_lt_mul (by omega)
      omega
    simp only [value, mantissa, exponent, hlow, hone, Nat.zero_sub, Nat.zero_mul, Nat.sub_zero]
    push_cast
    ring
  · obtain ⟨k, hk⟩ : ∃ k, n / 2 ^ F.mantissaBitsWithoutImplicit = k + 1 :=
      ⟨_, (Nat.sub_add_cancel (Nat.div_pos (not_lt.mp h) hp)).symm⟩
    have hup : (n + 2 ^ F.mantissaBitsWithoutImplicit) / 2 ^ F.mantissaBitsWithoutImplicit =
        k + 2 := by
      rw [Nat.add_div_right _ hp, hk]
    have hmant : mantissa F (n + 2 ^ F.mantissaBitsWithoutImplicit) = mantissa F n := by
      simp only [mantissa, hup, hk, Nat.add_sub_cancel, show k + 2 - 1 = k + 1 by omega,
        Nat.succ_mul]
      omega
    have hexp : exponent F (n + 2 ^ F.mantissaBitsWithoutImplicit) = exponent F n + 1 := by
      simp only [exponent, hup, hk]
      omega
    rw [value, hmant, hexp, zpow_add_one₀ (by norm_num), value]
    ring

theorem doubled_strictMono : StrictMono (doubled F) := by
  intro a b h
  have hlt := value_strictMono (F := F) h
  rw [← value_strictMono.lt_iff_lt (f := value F), value_doubled, value_doubled]
  linarith

theorem le_doubled (n : ℕ) : n ≤ doubled F n := by
  rw [doubled]
  split_ifs
  · omega
  · exact Nat.le_add_right _ _

/-- Where the doubled numbers lie next to each other they have kept their last bit. -/
theorem even_of_even_doubled {n k : ℕ} (h : doubled F n + 1 = doubled F (n + 1))
    (hk : k = n ∨ k = n + 1) (he : Even (doubled F k)) : Even k := by
  have hpos : 0 < 2 ^ F.mantissaBitsWithoutImplicit := by positivity
  have hp : Even (2 ^ F.mantissaBitsWithoutImplicit) := (Nat.even_pow.mpr ⟨even_two, F.hm.ne'⟩)
  have hn : 2 ^ F.mantissaBitsWithoutImplicit ≤ n := by
    simp only [doubled] at h
    split_ifs at h <;> omega
  have hk' : ¬ k < 2 ^ F.mantissaBitsWithoutImplicit := by omega
  rw [doubled, if_neg hk', Nat.even_add] at he
  exact he.mpr hp

theorem two_mul_midpoint (n : ℕ) :
    2 * midpoint F n = (value F (doubled F n) + value F (doubled F (n + 1))) / 2 := by
  rw [value_doubled, value_doubled, midpoint]
  ring

theorem Nearest.halve {v : ℚ} {k : ℕ} (h : Nearest F v (doubled F k))
    (hk : doubled F k < infinity F) : Nearest F (v / 2) k := by
  refine ⟨(le_doubled k).trans hk.le, fun j hj ↦ ?_, fun _ ↦ ?_⟩
  · obtain ⟨m, hm⟩ : ∃ m, doubled F k = m + 1 :=
      ⟨_, (Nat.succ_pred (((Nat.zero_le _).trans_lt (doubled_strictMono hj)).ne')).symm⟩
    obtain ⟨hle, htie⟩ := h.lower m (by omega)
    have hj₁ : doubled F j ≤ m := by
      have := doubled_strictMono (F := F) hj
      omega
    have hj₂ : doubled F (j + 1) ≤ m + 1 := hm ▸ doubled_strictMono.monotone hj
    have hv₁ := value_strictMono.monotone (f := value F) hj₁
    have hv₂ := value_strictMono.monotone (f := value F) hj₂
    have hmid := two_mul_midpoint (F := F) j
    rw [midpoint] at hle htie
    refine ⟨by linarith, fun heq ↦ ?_⟩
    have hm₁ : doubled F j = m :=
      value_strictMono.injective (f := value F) (by linarith)
    have hm₂ : doubled F (j + 1) = m + 1 :=
      value_strictMono.injective (f := value F) (by linarith)
    have hjk : j + 1 = k := doubled_strictMono.injective (f := doubled F) (hm₂.trans hm.symm)
    exact ⟨hjk, even_of_even_doubled (by omega) (.inr hjk.symm) (htie (by linarith)).2⟩
  · obtain ⟨hle, htie⟩ := h.upper hk
    have hsucc : doubled F k + 1 ≤ doubled F (k + 1) := doubled_strictMono k.lt_succ_self
    have hv := value_strictMono.monotone (f := value F) hsucc
    have hmid := two_mul_midpoint (F := F) k
    rw [midpoint] at hle htie
    refine ⟨by linarith, fun heq ↦ ?_⟩
    have hnext : doubled F k + 1 = doubled F (k + 1) :=
      value_strictMono.injective (f := value F) (by linarith)
    exact even_of_even_doubled hnext (.inl rfl) (htie (by linarith))

theorem value_pos {k : ℕ} (hk : 0 < k) : 0 < value F k := by
  rw [← value_zero (F := F)]
  exact value_strictMono hk

theorem signed_value_ne_zero {s : Sign} {k : ℕ} (hk : 0 < k) : signed s (value F k) ≠ 0 := by
  cases s
  · exact neg_ne_zero.mpr (value_pos hk).ne'
  · exact (value_pos hk).ne'

theorem sign_ne_of_signed_add_eq_zero {s t : Sign} {m n : ℕ} (hm : 0 < m) (hn : 0 < n)
    (h : signed s (value F m) + signed t (value F n) = 0) : (s == t) = false := by
  have hv := value_pos (F := F) hm
  have hw := value_pos (F := F) hn
  cases s <;> cases t <;> simp only [signed] at h
  · linarith
  · rfl
  · rfl
  · linarith

theorem signOf_add_of_eq_zero {s t : Sign} {m n : ℕ} {f g : UnpackedFloat}
    (hf : Decodes F s m f) (hg : Decodes F t n g) (hm : m < infinity F) (hn : n < infinity F)
    (h : signed s (value F m) + signed t (value F n) = 0) :
    signOf (pack F (add F f g)) = if s == t then s else .positive := by
  cases hf with
  | notANumber h => omega
  | infinity => omega
  | zero =>
    rw [value_zero, signed_zero, zero_add] at h
    cases hg with
    | notANumber h => omega
    | infinity => omega
    | zero => cases s <;> cases t <;> simp [add, pack, packedZero]
    | finite h₂ hc' _ hcode' =>
      subst hcode'
      exact absurd h (signed_value_ne_zero (code_pos h₂))
  | @finite _ m₁ e₁ h₁ hc _ hcode =>
    cases hg with
    | notANumber h => omega
    | infinity => omega
    | zero =>
      rw [value_zero, signed_zero, add_zero] at h
      subst hcode
      exact absurd h (signed_value_ne_zero (code_pos h₁))
    | @finite _ m₂ e₂ h₂ hc' _ hcode' =>
      subst hcode hcode'
      have hst := sign_ne_of_signed_add_eq_zero (code_pos h₁) (code_pos h₂) h
      rw [signed_code s hc, signed_code t hc', ← apply_decreaseExponent s _ (min_le_left _ _),
        ← apply_decreaseExponent t _ (min_le_right _ _), ← add_mul, ← Int.cast_add] at h
      have hzero := (mul_eq_zero.mp h).resolve_right (by positivity)
      rw [hst, add]
      simp only
      rw [Int.cast_eq_zero.mp hzero, UnpackedFloat.normalize, compare_eq_iff_eq.mpr rfl]
      simp [pack, packedZero]

end Polyphony.Magnitude

namespace Polyphony.Floating

open Float.Model.UnpackedFloat (Sign)
open Magnitude

section Signs

variable {α : Type} [Add α] [Sub α] [Mul α] [Div α] [LE α] [LT α] [Floating α] {x y : α}

theorem sign_mul (hx : Finite x) (hy : Finite y) : sign (x * y) = sign x * sign y := by
  rw [sign, bits_mul]
  exact (nearest_mul wide (decodes x) (decodes y) hx hy).2

theorem sign_add_of_eq_zero (hx : Finite x) (hy : Finite y) (h : rat x + rat y = 0) :
    sign (x + y) = if sign x == sign y then sign x else .positive := by
  rw [sign, bits_add]
  exact signOf_add_of_eq_zero (decodes x) (decodes y) hx hy h

theorem sign_sub_of_eq_zero (hx : Finite x) (hy : Finite y) (h : rat x - rat y = 0) :
    sign (x - y) = if sign x == -sign y then sign x else .positive := by
  rw [sign, bits_sub, sub_eq_add]
  refine signOf_add_of_eq_zero (decodes x) (decodes y).neg hx hy ?_
  rwa [signed_neg, ← sub_eq_add_neg]

end Signs

variable {x y : Float} {v : ℚ}

theorem eq_of_sign_code (hs : sign x = sign y) (hc : code x = code y) : x = y := by
  have hx := Number.sign_eq_positive_iff (x := x)
  have hy := Number.sign_eq_positive_iff (x := y)
  have hbits : x.toBits.toNat = y.toBits.toNat := by
    change x.toBits.toNat % 2 ^ 63 = y.toBits.toNat % 2 ^ 63 at hc
    have hiff : x.toBits.toNat < 2 ^ 63 ↔ y.toBits.toNat < 2 ^ 63 := by
      rw [← hx, ← hy]
      change sign x = _ ↔ sign y = _
      rw [hs]
    have hx' := x.toBits.toNat_lt
    have hy' := y.toBits.toNat_lt
    omega
  exact Float.toBits_inj.mp (UInt64.toNat_inj.mp hbits)

theorem double_spec (hy : Finite y) (h : Finite (2.0 * y)) :
    code (2.0 * y) = doubled .binary64 (code y) ∧ sign (2.0 * y) = sign y ∧
      rat (2.0 * y) = 2 * rat y := by
  have hn := (roundsTo_mul rat_two.1 hy).nearest
  rw [rat_two.2, abs_mul, abs_two, rat, abs_signed _ (value_nonneg _), ← value_doubled] at hn
  have hlt : doubled .binary64 (code y) < infinity .binary64 := by
    by_contra hle
    have hv := value_strictMono.monotone (f := value .binary64) (not_lt.mp hle)
    exact absurd h (not_lt.mpr ((nearest_value le_rfl).mono hn hv))
  have hcode : code (2.0 * y) = doubled .binary64 (code y) := hn.unique (nearest_value hlt.le)
  have hsign : sign (2.0 * y) = sign y := by
    rw [sign_mul rat_two.1 hy, show sign (2.0 : Float) = .positive from rfl]
    cases sign y
    · rfl
    · rfl
  refine ⟨hcode, hsign, ?_⟩
  rw [rat, hcode, hsign, rat]
  change signed _ (value .binary64 _) = 2 * signed _ (value .binary64 _)
  rw [value_doubled]
  cases sign y
  · exact (mul_neg _ _).symm
  · rfl

/-- Half of the number is a number, with nothing lost. -/
def HasHalf (x : Float) : Prop := x.isFinite ∧ 2.0 * (x / 2.0) = x

instance (x : Float) : Decidable (HasHalf x) :=
  inferInstanceAs (Decidable (x.isFinite ∧ 2.0 * (x / 2.0) = x))

namespace HasHalf

variable {k : Float}

theorem finite (h : HasHalf x) : Finite x := isFinite_iff.mp h.1

theorem finite_half (h : HasHalf x) : Finite (x / 2.0) := by
  have hround := (roundsTo_div h.finite rat_two.1 (by rw [rat_two.2]; norm_num)).nearest
  have hself := (roundsTo_rat h.finite.isNumber).nearest
  rw [rat_two.2, abs_div, abs_two] at hround
  have hle := hround.mono hself (half_le_self (abs_nonneg _))
  exact hle.trans_lt h.finite

theorem double_half (h : HasHalf x) : code x = doubled .binary64 (code (x / 2.0)) ∧
    sign (x / 2.0) = sign x ∧ rat (x / 2.0) = rat x / 2 := by
  have hfinite : Finite (2.0 * (x / 2.0)) := by
    rw [h.2]
    exact h.finite
  obtain ⟨hcode, hsign, hrat⟩ := double_spec h.finite_half hfinite
  rw [h.2] at hcode hsign hrat
  exact ⟨hcode, hsign.symm, by linarith⟩

theorem sign_half (h : HasHalf x) : sign (x / 2.0) = sign x := h.double_half.2.1

theorem rat_half (h : HasHalf x) : rat (x / 2.0) = rat x / 2 := h.double_half.2.2

/-- What half of a number is rounded to is half of what the number is rounded to. -/
theorem eq_half (h : HasHalf x) (hv : RoundsTo v x) (hy : RoundsTo (v / 2) y)
    (hs : sign y = sign x) : y = x / 2.0 := by
  have hx : Nearest .binary64 |v| (code x) := hv.nearest
  have hy : Nearest .binary64 |v / 2| (code y) := hy.nearest
  rw [h.double_half.1] at hx
  have hlt : doubled .binary64 (code (x / 2.0)) < infinity .binary64 := by
    rw [← h.double_half.1]
    exact h.finite
  rw [abs_div, abs_two] at hy
  exact eq_of_sign_code (hs.trans h.sign_half.symm) (hy.unique (hx.halve hlt))

theorem half_mul (hx : HasHalf x) (h : HasHalf (x * k)) : x / 2.0 * k = x * k / 2.0 := by
  have hk : Finite k := not_not.mp fun hk ↦ not_finite_mul_right x hk h.finite
  have hround := roundsTo_mul hx.finite_half hk
  rw [hx.rat_half, div_mul_eq_mul_div] at hround
  refine h.eq_half (roundsTo_mul hx.finite hk) hround ?_
  rw [sign_mul hx.finite_half hk, sign_mul hx.finite hk, hx.sign_half]

theorem mul_half (hx : HasHalf x) (h : HasHalf (k * x)) : k * (x / 2.0) = k * x / 2.0 := by
  have hk : Finite k := not_not.mp fun hk ↦ not_finite_mul_left hk x h.finite
  have hround := roundsTo_mul hk hx.finite_half
  rw [hx.rat_half, ← mul_div_assoc] at hround
  refine h.eq_half (roundsTo_mul hk hx.finite) hround ?_
  rw [sign_mul hk hx.finite_half, sign_mul hk hx.finite, hx.sign_half]

theorem sign_eq_of_ne_zero {w : ℚ} (hx : RoundsTo v x) (hy : RoundsTo w y) (hv : v ≠ 0)
    (hw : w = v / 2) : sign y = sign x := by
  subst hw
  rcases lt_or_gt_of_ne hv with hneg | hpos
  · rw [hx.negative hneg, hy.negative (by linarith)]
  · rw [hx.positive hpos, hy.positive (by linarith)]

theorem add_half (hx : HasHalf x) (hy : HasHalf y) (h : HasHalf (x + y)) :
    x / 2.0 + y / 2.0 = (x + y) / 2.0 := by
  have hwhole := roundsTo_add hx.finite hy.finite
  have hround := roundsTo_add hx.finite_half hy.finite_half
  rw [hx.rat_half, hy.rat_half, ← add_div] at hround
  refine h.eq_half hwhole hround ?_
  by_cases hzero : rat x + rat y = 0
  · rw [sign_add_of_eq_zero hx.finite hy.finite hzero,
      sign_add_of_eq_zero hx.finite_half hy.finite_half, hx.sign_half, hy.sign_half]
    rw [hx.rat_half, hy.rat_half, ← add_div, hzero, zero_div]
  · exact sign_eq_of_ne_zero hwhole hround hzero rfl

theorem sub_half (hx : HasHalf x) (hy : HasHalf y) (h : HasHalf (x - y)) :
    x / 2.0 - y / 2.0 = (x - y) / 2.0 := by
  have hwhole := roundsTo_sub hx.finite hy.finite
  have hround := roundsTo_sub hx.finite_half hy.finite_half
  rw [hx.rat_half, hy.rat_half, ← sub_div] at hround
  refine h.eq_half hwhole hround ?_
  by_cases hzero : rat x - rat y = 0
  · rw [sign_sub_of_eq_zero hx.finite hy.finite hzero,
      sign_sub_of_eq_zero hx.finite_half hy.finite_half, hx.sign_half, hy.sign_half]
    rw [hx.rat_half, hy.rat_half, ← sub_div, hzero, zero_div]
  · exact sign_eq_of_ne_zero hwhole hround hzero rfl

theorem half_lt_half_iff (hx : HasHalf x) (hy : HasHalf y) : x / 2.0 < y / 2.0 ↔ x < y := by
  rw [lt_iff_rat hx.finite_half.isNumber hy.finite_half.isNumber,
    lt_iff_rat hx.finite.isNumber hy.finite.isNumber, hx.rat_half, hy.rat_half]
  exact div_lt_div_iff_of_pos_right two_pos

theorem isNaN_half (h : HasHalf x) : (x / 2.0).isNaN = false ∧ x.isNaN = false := by
  rw [Bool.eq_false_iff, Bool.eq_false_iff, Ne, Ne, isNaN_iff, isNaN_iff, not_not, not_not]
  exact ⟨h.finite_half.isNumber, h.finite.isNumber⟩

theorem larger_half (hx : HasHalf x) (hy : HasHalf y) :
    larger (x / 2.0) (y / 2.0) = larger x y / 2.0 := by
  simp only [larger, hy.isNaN_half, hy.half_lt_half_iff hx, Bool.false_or, decide_eq_true_eq]
  split_ifs <;> rfl

theorem smaller_half (hx : HasHalf x) (hy : HasHalf y) :
    smaller (x / 2.0) (y / 2.0) = smaller x y / 2.0 := by
  simp only [smaller, hy.isNaN_half, hx.half_lt_half_iff hy, Bool.false_or, decide_eq_true_eq]
  split_ifs <;> rfl

theorem hasHalf_smaller (hx : HasHalf x) (hy : HasHalf y) : HasHalf (smaller x y) := by
  rw [smaller]
  split_ifs
  · exact hx
  · exact hy

theorem hasHalf_larger (hx : HasHalf x) (hy : HasHalf y) : HasHalf (larger x y) := by
  rw [larger]
  split_ifs
  · exact hx
  · exact hy

theorem foldl_larger_half {ts : List Float} (hx : HasHalf x) (h : ∀ t ∈ ts, HasHalf t) :
    (ts.map (· / 2.0)).foldl larger (x / 2.0) =
      ts.foldl larger x / 2.0 := by
  induction ts generalizing x with
  | nil => rfl
  | cons t ts ih =>
    obtain ⟨ht, hts⟩ := List.forall_mem_cons.mp h
    rw [List.map_cons, List.foldl_cons, List.foldl_cons, hx.larger_half ht]
    exact ih (hx.hasHalf_larger ht) hts

theorem div_double (hx : Finite x) (hy : Finite y) (hdouble : Finite (2.0 * y)) (hpos : 0 < rat x)
    (hpos' : 0 < rat y) (h : HasHalf (x / y)) : x / (2.0 * y) = x / y / 2.0 := by
  obtain ⟨-, -, hrat⟩ := double_spec hy hdouble
  have hwhole := roundsTo_div hx hy hpos'.ne'
  have hround := roundsTo_div hx hdouble (by rw [hrat]; positivity)
  rw [hrat, mul_comm, ← div_div] at hround
  refine h.eq_half hwhole hround ?_
  exact sign_eq_of_ne_zero hwhole hround (div_pos hpos hpos').ne' rfl

end HasHalf

end Polyphony.Floating
