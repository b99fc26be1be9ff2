import Polyphony.Number.Order
import Polyphony.Proofs.Number.Signed

namespace Polyphony

open Float.Model (Format UnpackedFloat)
open Float.Model.UnpackedFloat (pack unpack Sign)
open Magnitude

/-- Numbers that are kept as the bit patterns of a format, with its arithmetic and its order. -/
class Floating (α : Type) [Add α] [Sub α] [Mul α] [Div α] [LE α] [LT α] where
  format : Format
  wide : 1 < format.exponentBits
  bits : α → BitVec format.numBits
  bits_add (x y : α) : bits (x + y) =
    pack format (.add format (unpack format (bits x)) (unpack format (bits y)))
  bits_sub (x y : α) : bits (x - y) =
    pack format (.sub format (unpack format (bits x)) (unpack format (bits y)))
  bits_mul (x y : α) : bits (x * y) =
    pack format (.mul format (unpack format (bits x)) (unpack format (bits y)))
  bits_div (x y : α) : bits (x / y) =
    pack format (.div format (unpack format (bits x)) (unpack format (bits y)))
  le_iff (x y : α) : x ≤ y ↔
    ((unpack format (bits x)).compare (unpack format (bits y))).any (·.isLE)
  lt_iff (x y : α) : x < y ↔
    (unpack format (bits x)).compare (unpack format (bits y)) = some .lt

namespace Floating

section Rounding

variable (F : Format)

/-- The finite number `w` is what `v` is rounded to. -/
def Becomes (v w : ℚ) : Prop :=
  ∃ s n, n < infinity F ∧ Rounds F v s n ∧ signed s (value F n) = w

variable {F} {v w : ℚ}

theorem becomes_signed (s : Sign) {n : ℕ} (h : n < infinity F) :
    Becomes F (signed s (value F n)) (signed s (value F n)) :=
  ⟨s, n, h, rounds_signed s h.le, rfl⟩

theorem becomes_zero : Becomes F 0 0 := by
  have h := becomes_signed .positive (infinity_pos F)
  rwa [value_zero, signed_zero] at h

theorem Becomes.neg (h : Becomes F v w) : Becomes F (-v) (-w) := by
  obtain ⟨s, n, hn, hr, rfl⟩ := h
  refine ⟨-s, n, hn, ⟨?_, fun hpos ↦ ?_, fun hneg ↦ ?_⟩, signed_neg s _⟩
  · rw [abs_neg]
    exact hr.nearest
  · rw [hr.negative (neg_pos.mp hpos)]
    rfl
  · rw [hr.positive (neg_lt_zero.mp hneg)]
    rfl

theorem nearest_of_lt_midpoint {n : ℕ} (hn : n < infinity F) (hl : value F n ≤ v)
    (hu : v < Magnitude.midpoint F n) : Nearest F v n := by
  refine ⟨hn.le, fun k hk ↦ ?_, fun _ ↦ ⟨hu.le, fun h ↦ absurd h hu.ne⟩⟩
  have hlt := (midpoint_lt_value hk).trans_le hl
  exact ⟨hlt.le, fun h ↦ absurd h hlt.ne⟩

/-- A power of two swallows what is less than half the distance to the next number. -/
theorem becomes_two_pow {k : ℤ} {d : ℚ} (hk : F.minExponent ≤ k - F.mantissaBitsWithoutImplicit)
    (hn : code F (2 ^ F.mantissaBitsWithoutImplicit) (k - F.mantissaBitsWithoutImplicit) <
      infinity F) (hd : 0 ≤ d) (hd' : d < 2 ^ (k - F.mantissaBitsWithoutImplicit - 1)) :
    Becomes F (2 ^ k + d) (2 ^ k) := by
  have hc : Canonical F (2 ^ F.mantissaBitsWithoutImplicit)
      (k - F.mantissaBitsWithoutImplicit) :=
    ⟨Nat.pow_lt_pow_right (by decide) (Nat.lt_succ_self _), hk, .inr le_rfl⟩
  have hpow : (2 : ℚ) ^ F.mantissaBitsWithoutImplicit * 2 ^ (k - F.mantissaBitsWithoutImplicit) =
      2 ^ k := by
    rw [← zpow_natCast, ← zpow_add₀ (by norm_num), add_sub_cancel]
  have hv := value_code hc
  have hs := value_code_succ hc
  push_cast at hv hs
  rw [add_mul, one_mul, hpow] at hs
  rw [hpow] at hv
  have hhalf : (2 : ℚ) ^ (k - F.mantissaBitsWithoutImplicit - 1) =
      2 ^ (k - F.mantissaBitsWithoutImplicit) / 2 := by
    rw [zpow_sub_one₀ (by norm_num), div_eq_mul_inv]
  refine ⟨.positive, _, hn, ?_, hv⟩
  refine (nearest_of_lt_midpoint hn ?_ ?_).rounds (by positivity) .positive
  · rw [hv]
    linarith
  · rw [Magnitude.midpoint, hv, hs]
    linarith

theorem becomes_two_pow_self {k : ℤ} (hk : F.minExponent ≤ k - F.mantissaBitsWithoutImplicit)
    (hn : code F (2 ^ F.mantissaBitsWithoutImplicit) (k - F.mantissaBitsWithoutImplicit) <
      infinity F) : Becomes F (2 ^ k) (2 ^ k) := by
  have h := becomes_two_pow hk hn le_rfl (by positivity)
  rwa [add_zero] at h

end Rounding

variable {α : Type} [Add α] [Sub α] [Mul α] [Div α] [LE α] [LT α] [Floating α]

def code (x : α) : ℕ := codeOf (bits x)

def sign (x : α) : Sign := signOf (bits x)

/-- The number that `x` stands for, where it is finite. -/
def rat (x : α) : ℚ := signed (sign x) (value (format α) (code x))

def Finite (x : α) : Prop := code x < infinity (format α)

def IsNumber (x : α) : Prop := code x ≤ infinity (format α)

instance (x : α) : Decidable (Finite x) :=
  inferInstanceAs (Decidable (code x < infinity (format α)))

instance (x : α) : Decidable (IsNumber x) :=
  inferInstanceAs (Decidable (code x ≤ infinity (format α)))

def RoundsTo (v : ℚ) (x : α) : Prop := Rounds (format α) v (sign x) (code x)

structure Within (l u : ℚ) (x : α) : Prop where
  finite : Finite x
  lower : l ≤ rat x
  upper : rat x ≤ u

variable {x y : α} {a b c d l u v w : ℚ}

theorem Finite.isNumber (h : Finite x) : IsNumber x := Nat.le_of_lt h

theorem rat_of_code_eq_zero (h : code x = 0) : rat x = 0 := by
  rw [rat, h, value_zero, signed_zero]

theorem decodes (x : α) :
    Decodes (format α) (sign x) (code x) (unpack (format α) (bits x)) := decodes_unpack _

theorem compare_eq (hx : IsNumber x) (hy : IsNumber y) :
    (unpack (format α) (bits x)).compare (unpack (format α) (bits y)) =
      some (compare ((sign x).apply (code x)) ((sign y).apply (code y))) :=
  (compare_decodes (decodes x) (decodes y) hx hy).symm

theorem le_iff_rat (hx : IsNumber x) (hy : IsNumber y) : x ≤ y ↔ rat x ≤ rat y := by
  rw [le_iff, compare_eq hx hy, Option.any_some, Ordering.isLE_iff_ne_gt,
    compare_gt_iff_gt.not, not_lt]
  exact apply_le_apply_iff

theorem lt_iff_rat (hx : IsNumber x) (hy : IsNumber y) : x < y ↔ rat x < rat y := by
  rw [lt_iff, compare_eq hx hy, Option.some.injEq, compare_lt_iff_lt, ← not_le, ← not_le,
    apply_le_apply_iff]
  rfl

theorem unpack_of_not_isNumber (h : ¬ IsNumber x) :
    unpack (format α) (bits x) = .notANumber :=
  (decodes x).eq_notANumber (not_le.mp h)

theorem isNumber_of_le (h : x ≤ y) : IsNumber x ∧ IsNumber y := by
  rw [le_iff] at h
  constructor
  · by_contra hx
    rw [unpack_of_not_isNumber hx] at h
    cases h
  · by_contra hy
    rw [unpack_of_not_isNumber hy] at h
    cases hx : unpack (format α) (bits x) <;> rw [hx] at h <;> cases h

theorem le_refl (h : IsNumber x) : x ≤ x := (le_iff_rat h h).mpr le_rfl

theorem le_trans {z : α} (h : x ≤ y) (h' : y ≤ z) : x ≤ z := by
  obtain ⟨hx, hy⟩ := isNumber_of_le h
  have hz := (isNumber_of_le h').2
  rw [le_iff_rat hx hy] at h
  rw [le_iff_rat hy hz] at h'
  exact (le_iff_rat hx hz).mpr (h.trans h')

theorem le_of_lt (h : x < y) : x ≤ y := by
  rw [lt_iff] at h
  rw [le_iff, h]
  rfl

theorem not_le_of_lt (h : x < y) : ¬ y ≤ x := by
  obtain ⟨hx, hy⟩ := isNumber_of_le (le_of_lt h)
  rw [lt_iff_rat hx hy] at h
  rw [le_iff_rat hy hx]
  exact h.not_ge

theorem lt_of_le_of_lt {z : α} (h : x ≤ y) (h' : y < z) : x < z := by
  obtain ⟨hx, hy⟩ := isNumber_of_le h
  have hz := (isNumber_of_le (le_of_lt h')).2
  rw [le_iff_rat hx hy] at h
  rw [lt_iff_rat hy hz] at h'
  exact (lt_iff_rat hx hz).mpr (h.trans_lt h')

theorem rat_of_unpack (s : Sign) (m : ℕ) (e : ℤ) (hm : 0 < m) {q : ℚ}
    (h : unpack (format α) (bits x) = .finite s m e hm) (hq : s.apply m * 2 ^ e = q) :
    Finite x ∧ rat x = q := by
  have hx := decodes x
  rw [h] at hx
  rw [Finite, rat]
  generalize code x = n, sign x = t at hx
  cases hx with
  | finite _ hc hlt hn =>
    subst hn
    exact ⟨hlt, (signed_code s hc).trans hq⟩

theorem RoundsTo.mono (hx : RoundsTo v x) (hy : RoundsTo w y) (h : v ≤ w) : rat x ≤ rat y :=
  apply_le_apply_iff.mp (Rounds.mono hx hy h)

theorem roundsTo_rat (h : IsNumber x) : RoundsTo (rat x) x := rounds_signed _ h

theorem RoundsTo.isNumber (h : RoundsTo v x) : IsNumber x := h.nearest.le_infinity

theorem RoundsTo.nonneg (h : RoundsTo v x) (hv : 0 ≤ v) : 0 ≤ rat x := by
  rcases hv.lt_or_eq with hlt | rfl
  · rw [rat, h.positive hlt]
    exact value_nonneg _
  · have hzero := h.nearest
    rw [abs_zero] at hzero
    rw [rat_of_code_eq_zero hzero.eq_zero]

theorem Finite.becomes (h : Finite x) : Becomes (format α) (rat x) (rat x) := becomes_signed _ h

/-- What lies between two numbers is rounded to something between them. -/
theorem RoundsTo.within {l' u' : ℚ} (h : RoundsTo v x) (hl : Becomes (format α) l' l)
    (hu : Becomes (format α) u' u) (h₁ : l' ≤ v) (h₂ : v ≤ u') : Within l u x := by
  obtain ⟨s, m, hm, hrl, rfl⟩ := hl
  obtain ⟨t, n, hn, hru, rfl⟩ := hu
  have hlower := hrl.mono h h₁
  have hupper := Rounds.mono h hru h₂
  refine ⟨?_, apply_le_apply_iff.mp hlower, apply_le_apply_iff.mp hupper⟩
  rw [Finite]
  cases hs : sign x <;> rw [hs] at hlower hupper <;> cases s <;> cases t <;>
    simp only [Sign.apply] at hlower hupper <;> omega

theorem within_of_le {z : α} (hx : Finite x) (hz : Finite z) (h₁ : x ≤ y) (h₂ : y ≤ z) :
    Within (rat x) (rat z) y := by
  have hy := (isNumber_of_le h₁).2
  exact (roundsTo_rat hy).within hx.becomes hz.becomes
    ((le_iff_rat hx.isNumber hy).mp h₁) ((le_iff_rat hy hz.isNumber).mp h₂)

theorem roundsTo_add (hx : Finite x) (hy : Finite y) : RoundsTo (rat x + rat y) (x + y) := by
  rw [RoundsTo, sign, code, bits_add]
  exact rounds_add wide (decodes x) (decodes y) hx hy

theorem roundsTo_sub (hx : Finite x) (hy : Finite y) : RoundsTo (rat x - rat y) (x - y) := by
  rw [RoundsTo, sign, code, bits_sub]
  exact rounds_sub wide (decodes x) (decodes y) hx hy

theorem roundsTo_mul (hx : Finite x) (hy : Finite y) : RoundsTo (rat x * rat y) (x * y) := by
  rw [RoundsTo, sign, code, bits_mul]
  exact rounds_mul wide (decodes x) (decodes y) hx hy

theorem roundsTo_div (hx : Finite x) (hy : Finite y) (h : rat y ≠ 0) :
    RoundsTo (rat x / rat y) (x / y) := by
  have hpos : 0 < code y := by
    exact Nat.pos_of_ne_zero fun h0 ↦ h (rat_of_code_eq_zero h0)
  rw [RoundsTo, sign, code, bits_div]
  exact rounds_div wide (decodes x) (decodes y) hx hpos hy

theorem unpack_of_infinite (h : code x = infinity (format α)) :
    unpack (format α) (bits x) = .infinity (sign x) := (h ▸ decodes x).eq_infinity

theorem code_div_infinity (hx : Finite x) (hy : code y = infinity (format α)) :
    code (x / y) = 0 := by
  have hd := decodes x
  rw [code, bits_div, unpack_of_infinite hy]
  rw [Finite] at hx
  generalize unpack (format α) (bits x) = f, code x = n at hd hx ⊢
  cases hd with
  | notANumber h => omega
  | infinity => exact absurd hx (lt_irrefl _)
  | zero => exact codeOf_packedZero _
  | finite => exact codeOf_packedZero _

theorem not_isNumber_infinity_div (hx : code x = infinity (format α))
    (hy : code y = infinity (format α)) : ¬ IsNumber (x / y) := by
  rw [IsNumber, not_le, code, bits_div, unpack_of_infinite hx, unpack_of_infinite hy]
  exact infinity_lt_packedNaN

end Floating

instance : Floating Float where
  format := .binary64
  wide := by decide
  bits x := x.toBits.toBitVec
  bits_add _ _ := rfl
  bits_sub _ _ := rfl
  bits_mul _ _ := rfl
  bits_div _ _ := rfl
  le_iff _ _ := decide_eq_true_iff
  lt_iff _ _ := decide_eq_true_iff.trans beq_iff_eq

instance : Floating Float32 where
  format := .binary32
  wide := by decide
  bits x := x.toBits.toBitVec
  bits_add _ _ := rfl
  bits_sub _ _ := rfl
  bits_mul _ _ := rfl
  bits_div _ _ := rfl
  le_iff _ _ := decide_eq_true_iff
  lt_iff _ _ := decide_eq_true_iff.trans beq_iff_eq

namespace Floating

theorem isFinite_iff {x : Float} : x.isFinite ↔ Finite x := Number.isFinite_iff_lt

theorem isNaN_iff {x : Float} : x.isNaN ↔ ¬ IsNumber x :=
  Number.isNaN_iff_lt.trans not_le.symm

theorem beq_iff_rat {x y : Float} (hx : IsNumber x) (hy : IsNumber y) : x == y ↔ rat x = rat y := by
  have hcompare : (unpack .binary64 (bits x)).compare (unpack .binary64 (bits y)) = _ :=
    compare_eq hx hy
  rw [show (x == y) = ((unpack .binary64 (bits x)).compare (unpack .binary64 (bits y)) == some .eq)
    from rfl, beq_iff_eq, hcompare, Option.some.injEq, compare_eq_iff_eq, le_antisymm_iff,
    le_antisymm_iff]
  exact and_congr apply_le_apply_iff apply_le_apply_iff

theorem isNumber_zero : IsNumber (0.0 : Float) := show code (0.0 : Float) ≤ _ by decide

theorem rat_zero : rat (0.0 : Float) = 0 := rat_of_code_eq_zero (by decide)

theorem positive_iff {x : Float} : Number.Positive x ↔ Finite x ∧ 0 < rat x := by
  constructor
  · rintro ⟨hf, hpos⟩
    have hx := isFinite_iff.mp hf
    rw [lt_iff_rat isNumber_zero hx.isNumber, rat_zero] at hpos
    exact ⟨hx, hpos⟩
  · rintro ⟨hx, hpos⟩
    refine ⟨isFinite_iff.mpr hx, ?_⟩
    rwa [lt_iff_rat isNumber_zero hx.isNumber, rat_zero]

theorem larger_spec {x y : Float} (hx : IsNumber x) (hy : IsNumber y) :
    (larger x y = x ∨ larger x y = y) ∧ x ≤ larger x y ∧ y ≤ larger x y := by
  have hnan : y.isNaN = false := by
    rw [Bool.eq_false_iff, Ne, isNaN_iff, not_not]
    exact hy
  rw [larger, hnan, Bool.false_or]
  by_cases h : y < x
  · rw [if_pos (decide_eq_true h)]
    rw [lt_iff_rat hy hx] at h
    exact ⟨.inl rfl, le_refl hx, (le_iff_rat hy hx).mpr h.le⟩
  · rw [if_neg (by simpa using h)]
    rw [lt_iff_rat hy hx, not_lt] at h
    exact ⟨.inr rfl, (le_iff_rat hx hy).mpr h, le_refl hy⟩

theorem smaller_spec {x y : Float} (hx : IsNumber x) (hy : IsNumber y) :
    (smaller x y = x ∨ smaller x y = y) ∧ smaller x y ≤ x ∧ smaller x y ≤ y := by
  have hnan : y.isNaN = false := by
    rw [Bool.eq_false_iff, Ne, isNaN_iff, not_not]
    exact hy
  rw [smaller, hnan, Bool.false_or]
  by_cases h : x < y
  · rw [if_pos (decide_eq_true h)]
    exact ⟨.inl rfl, le_refl hx, le_of_lt h⟩
  · rw [if_neg (by simpa using h)]
    rw [lt_iff_rat hx hy, not_lt] at h
    exact ⟨.inr rfl, (le_iff_rat hy hx).mpr h, le_refl hy⟩

theorem foldl_larger_spec {times : List Float} {t : Float} (ht : IsNumber t)
    (h : ∀ u ∈ times, IsNumber u) :
    times.foldl larger t ∈ t :: times ∧ ∀ u ∈ t :: times, u ≤ times.foldl larger t := by
  induction times generalizing t with
  | nil => simpa using le_refl ht
  | cons u us ih =>
    obtain ⟨hone, hl, hr⟩ := larger_spec ht (h u List.mem_cons_self)
    obtain ⟨hmem, hle⟩ := ih (isNumber_of_le hl).2 fun w hw ↦ h w (List.mem_cons_of_mem _ hw)
    rw [List.foldl_cons]
    have hlatest := hle _ List.mem_cons_self
    refine ⟨?_, ?_⟩
    · rcases List.mem_cons.mp hmem with heq | hmem
      · rw [heq]
        rcases hone with h | h <;> rw [h] <;> simp
      · exact List.mem_cons_of_mem _ (List.mem_cons_of_mem _ hmem)
    · intro w hw
      rcases List.mem_cons.mp hw with rfl | hw
      · exact le_trans hl hlatest
      · rcases List.mem_cons.mp hw with rfl | hw
        · exact le_trans hr hlatest
        · exact hle w (List.mem_cons_of_mem _ hw)

end Floating

end Polyphony
