import Polyphony.Number.Order
import Polyphony.Proofs.Number.Magnitude

namespace Polyphony.Magnitude

open Float.Model (Format UnpackedFloat)
open Float.Model.UnpackedFloat

variable {F : Format}

theorem compare_add_left (k m n : ℕ) : compare ((k + m : ℕ) : ℤ) (k + n : ℕ) = compare m n := by
  rcases lt_trichotomy m n with h | rfl | h
  · rw [compare_lt_iff_lt.mpr h, compare_lt_iff_lt]
    omega
  · rw [compare_eq_iff_eq.mpr rfl, compare_eq_iff_eq.mpr rfl]
  · rw [compare_gt_iff_gt.mpr h, compare_gt_iff_gt]
    omega

theorem compare_neg_neg (a b : ℤ) : compare (-a) (-b) = (compare a b).swap := by
  rcases lt_trichotomy a b with h | rfl | h
  · rw [compare_lt_iff_lt.mpr h, compare_gt_iff_gt.mpr (neg_lt_neg h)]
    rfl
  · rw [compare_eq_iff_eq.mpr rfl, compare_eq_iff_eq.mpr rfl]
    rfl
  · rw [compare_gt_iff_gt.mpr h, compare_lt_iff_lt.mpr (neg_lt_neg h)]
    rfl

theorem Canonical.compare_code {m m' : ℕ} {e e' : ℤ} (h : Canonical F m e)
    (h' : Canonical F m' e') : compare (code F m e : ℤ) (code F m' e') =
      (compare e e').then (compare m m') := by
  rcases lt_trichotomy e e' with he | rfl | he
  · rw [compare_lt_iff_lt.mpr he, compare_lt_iff_lt.mpr (Int.ofNat_lt.mpr (h.code_lt_code h' he))]
    rfl
  · rw [compare_eq_iff_eq.mpr (rfl : e = e), code, code, compare_add_left]
    rfl
  · rw [compare_gt_iff_gt.mpr he, compare_gt_iff_gt.mpr (Int.ofNat_lt.mpr (h'.code_lt_code h he))]
    rfl

/-- The order of two numbers is that of their signed codes, in which both zeros are 0. -/
theorem compare_decodes {s t : Sign} {m n : ℕ} {f g : UnpackedFloat} (hf : Decodes F s m f)
    (hg : Decodes F t n g) (hm : m ≤ infinity F) (hn : n ≤ infinity F) :
    some (compare (s.apply m) (t.apply n)) = f.compare g := by
  have hinf := infinity_pos F
  cases hf with
  | notANumber h => omega
  | zero =>
    cases hg with
    | notANumber h => omega
    | zero => cases s <;> cases t <;> rfl
    | infinity =>
      cases s <;> cases t <;> simp only [UnpackedFloat.compare, Sign.apply, Option.some.injEq,
        compare_lt_iff_lt, compare_gt_iff_gt] <;> omega
    | finite hk h hlt hc =>
      subst hc
      have hpos := code_pos (F := F) (e := ‹_›) hk
      cases s <;> cases t <;> simp only [UnpackedFloat.compare, Sign.apply, Option.some.injEq,
        compare_lt_iff_lt, compare_gt_iff_gt] <;> omega
  | infinity =>
    cases hg with
    | notANumber h => omega
    | zero =>
      cases s <;> cases t <;> simp only [UnpackedFloat.compare, Sign.apply, Option.some.injEq,
        compare_lt_iff_lt, compare_gt_iff_gt] <;> omega
    | infinity =>
      cases s <;> cases t
      · exact congrArg some (compare_eq_iff_eq.mpr rfl)
      · exact congrArg some (compare_lt_iff_lt.mpr (by simp only [Sign.apply]; omega))
      · exact congrArg some (compare_gt_iff_gt.mpr (by simp only [Sign.apply]; omega))
      · exact congrArg some (compare_eq_iff_eq.mpr rfl)
    | finite hk h hlt hc =>
      cases s <;> cases t <;> simp only [UnpackedFloat.compare, Sign.apply, Option.some.injEq,
        compare_lt_iff_lt, compare_gt_iff_gt] <;> omega
  | finite hk h hlt hc =>
    subst hc
    have hpos := code_pos (F := F) (e := ‹_›) hk
    cases hg with
    | notANumber h => omega
    | zero =>
      cases s <;> cases t <;> simp only [UnpackedFloat.compare, Sign.apply, Option.some.injEq,
        compare_lt_iff_lt, compare_gt_iff_gt] <;> omega
    | infinity =>
      cases s <;> cases t <;> simp only [UnpackedFloat.compare, Sign.apply, Option.some.injEq,
        compare_lt_iff_lt, compare_gt_iff_gt] <;> omega
    | finite hk' h' hlt' hc' =>
      subst hc'
      have hpos' := code_pos (F := F) (e := ‹_›) hk'
      cases s <;> cases t
      · exact congrArg some ((compare_neg_neg _ _).trans (congrArg _ (h.compare_code h')))
      · exact congrArg some (compare_lt_iff_lt.mpr (by simp only [Sign.apply]; omega))
      · exact congrArg some (compare_gt_iff_gt.mpr (by simp only [Sign.apply]; omega))
      · exact congrArg some (h.compare_code h')

theorem Decodes.isNaN_iff {s : Sign} {n : ℕ} {f : UnpackedFloat} (h : Decodes F s n f) :
    f.isNaN ↔ Magnitude.infinity F < n := by
  have hinf := infinity_pos F
  cases h with
  | notANumber h => simpa [isNaN] using h
  | finite _ _ h => simpa [isNaN] using h.le
  | zero => simp [isNaN]
  | infinity => simp [isNaN]

end Polyphony.Magnitude

namespace Polyphony.Number

open Magnitude
open Float.Model.UnpackedFloat

def magnitude (x : Float) : ℕ := codeOf (F := .binary64) x.toBits.toBitVec

def sign (x : Float) : Sign := signOf (F := .binary64) x.toBits.toBitVec

/-- The place of `x` in the order of the numbers; both zeros have the place 0. -/
def level (x : Float) : ℤ := (sign x).apply (magnitude x)

theorem decodes_toModel (x : Float) :
    Decodes .binary64 (sign x) (magnitude x) x.toModel.unpack := decodes_unpack _

theorem isNaN_iff_lt {x : Float} : x.isNaN ↔ infinity .binary64 < magnitude x :=
  (decodes_toModel x).isNaN_iff

theorem isFinite_iff_lt {x : Float} : x.isFinite ↔ magnitude x < infinity .binary64 := by
  have h := decodes_toModel x
  rw [show x.isFinite = x.toModel.unpack.isFinite from rfl]
  generalize x.toModel.unpack = f, magnitude x = n at *
  have hinf := infinity_pos .binary64
  cases h with
  | notANumber h => simpa [isFinite] using h.le
  | finite _ _ h => simpa [isFinite] using h
  | zero => simpa [isFinite] using hinf
  | infinity => simp [isFinite]

theorem compare_eq {x y : Float} (hx : ¬ x.isNaN) (hy : ¬ y.isNaN) :
    x.toModel.unpack.compare y.toModel.unpack = some (compare (level x) (level y)) :=
  (compare_decodes (decodes_toModel x) (decodes_toModel y) (by rwa [isNaN_iff_lt, not_lt] at hx)
    (by rwa [isNaN_iff_lt, not_lt] at hy)).symm

theorem le_iff {x y : Float} (hx : ¬ x.isNaN) (hy : ¬ y.isNaN) : x ≤ y ↔ level x ≤ level y := by
  have h : x ≤ y ↔ (x.toModel.unpack.compare y.toModel.unpack).any (·.isLE) := decide_eq_true_iff
  rw [h, compare_eq hx hy, Option.any_some, Ordering.isLE_iff_ne_gt, compare_gt_iff_gt.not,
    not_lt]

theorem lt_iff {x y : Float} (hx : ¬ x.isNaN) (hy : ¬ y.isNaN) : x < y ↔ level x < level y := by
  have h : x < y ↔ x.toModel.unpack.compare y.toModel.unpack == some .lt := decide_eq_true_iff
  rw [h, compare_eq hx hy, beq_iff_eq, Option.some.injEq, compare_lt_iff_lt]

theorem sign_eq_positive_iff {x : Float} : sign x = .positive ↔ x.toBits.toNat < 2 ^ 63 :=
  signOf_eq_positive_iff (F := .binary64) x.toBits.toBitVec

theorem level_eq (x : Float) : level x =
    if x.toBits.toNat < 2 ^ 63 then (x.toBits.toNat : ℤ) else 2 ^ 63 - x.toBits.toNat := by
  have hlt := x.toBits.toNat_lt
  have hmag : magnitude x = x.toBits.toNat % 2 ^ 63 := rfl
  rw [level, hmag]
  by_cases h : x.toBits.toNat < 2 ^ 63
  · rw [sign_eq_positive_iff.mpr h, if_pos h, Sign.apply, Nat.mod_eq_of_lt h]
  · cases hs : sign x with
    | positive => exact absurd (sign_eq_positive_iff.mp hs) h
    | negative =>
      rw [if_neg h, Sign.apply]
      omega

/-- The total order agrees with the order of the numbers, apart from the two zeros. -/
theorem level_le_of_orderKey_le {x y : Float} (h : orderKey x ≤ orderKey y) :
    level x ≤ level y := by
  rw [level_eq, level_eq]
  simp only [orderKey, Nat.pow_eq] at h
  split_ifs at * <;> omega

structure Positive (x : Float) : Prop where
  finite : x.isFinite
  pos : 0.0 < x

theorem level_zero : level 0.0 = 0 := by decide

theorem Positive.sign_magnitude {x : Float} (h : Positive x) :
    sign x = .positive ∧ 0 < magnitude x := by
  have hx : ¬ x.isNaN := by
    rw [isNaN_iff_lt, not_lt]
    exact (isFinite_iff_lt.mp h.finite).le
  have hlt := (lt_iff (by decide) hx).mp h.pos
  rw [level_zero, level] at hlt
  cases hs : sign x with
  | positive =>
    rw [hs] at hlt
    exact ⟨rfl, Int.natCast_pos.mp hlt⟩
  | negative =>
    rw [hs] at hlt
    simp only [Sign.apply] at hlt
    omega

end Polyphony.Number
