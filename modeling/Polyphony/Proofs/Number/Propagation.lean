import Polyphony.Proofs.Number.Single

namespace Polyphony.Floating

open Float.Model (UnpackedFloat)
open Float.Model.UnpackedFloat
open Magnitude

section Operations

variable {α : Type} [Add α] [Sub α] [Mul α] [Div α] [LE α] [LT α] [Floating α] {x y : α}

theorem unpack_of_not_finite (h : ¬ Finite x) :
    unpack (format α) (bits x) = .notANumber ∨
      unpack (format α) (bits x) = .infinity (sign x) := by
  by_cases hx : IsNumber x
  · exact .inr (unpack_of_infinite (hx.antisymm (not_lt.mp h)))
  · exact .inl (unpack_of_not_isNumber hx)

theorem not_isNumber_add_left (h : ¬ IsNumber x) (y : α) : ¬ IsNumber (x + y) := by
  rw [IsNumber, not_le, code, bits_add, unpack_of_not_isNumber h]
  exact infinity_lt_packedNaN

theorem not_isNumber_add_right (x : α) (h : ¬ IsNumber y) : ¬ IsNumber (x + y) := by
  rw [IsNumber, not_le, code, bits_add, unpack_of_not_isNumber h]
  cases unpack (format α) (bits x) <;> exact infinity_lt_packedNaN

theorem not_isNumber_sub_left (h : ¬ IsNumber x) (y : α) : ¬ IsNumber (x - y) := by
  rw [IsNumber, not_le, code, bits_sub, unpack_of_not_isNumber h]
  exact infinity_lt_packedNaN

theorem not_isNumber_mul_left (h : ¬ IsNumber x) (y : α) : ¬ IsNumber (x * y) := by
  rw [IsNumber, not_le, code, bits_mul, unpack_of_not_isNumber h]
  exact infinity_lt_packedNaN

theorem not_isNumber_mul_right (x : α) (h : ¬ IsNumber y) : ¬ IsNumber (x * y) := by
  rw [IsNumber, not_le, code, bits_mul, unpack_of_not_isNumber h]
  cases unpack (format α) (bits x) <;> exact infinity_lt_packedNaN

theorem not_finite_add_right (x : α) (h : ¬ Finite y) : ¬ Finite (x + y) := by
  have hnan := (infinity_lt_packedNaN (F := format α)).le
  have hinf (s : Sign) := (codeOf_packedInfinity (F := format α) s).ge
  rw [Finite, not_lt, code, bits_add]
  rcases unpack_of_not_finite h with hy | hy <;> rw [hy]
  · cases unpack (format α) (bits x) <;> exact hnan
  · cases unpack (format α) (bits x) with
    | notANumber => exact hnan
    | infinity s =>
      rw [add]
      split_ifs
      · exact hinf s
      · exact hnan
    | zero s => exact hinf _
    | finite s m e hm => exact hinf _

theorem not_finite_mul_left (h : ¬ Finite x) (y : α) : ¬ Finite (x * y) := by
  rw [Finite, not_lt, code, bits_mul]
  have hnan := (infinity_lt_packedNaN (F := format α)).le
  rcases unpack_of_not_finite h with hx | hx <;> rw [hx]
  · cases unpack (format α) (bits y) <;> exact hnan
  · cases unpack (format α) (bits y) with
    | notANumber => exact hnan
    | infinity s => exact (codeOf_packedInfinity _).ge
    | zero s => exact hnan
    | finite s m e hm => exact (codeOf_packedInfinity _).ge

theorem not_finite_mul_right (x : α) (h : ¬ Finite y) : ¬ Finite (x * y) := by
  rw [Finite, not_lt, code, bits_mul]
  have hnan := (infinity_lt_packedNaN (F := format α)).le
  rcases unpack_of_not_finite h with hy | hy <;> rw [hy]
  · cases unpack (format α) (bits x) <;> exact hnan
  · cases unpack (format α) (bits x) with
    | notANumber => exact hnan
    | infinity s => exact (codeOf_packedInfinity _).ge
    | zero s => exact hnan
    | finite s m e hm => exact (codeOf_packedInfinity _).ge

theorem add_infinity (hx : Finite x) (hy : code y = infinity (format α)) :
    code (x + y) = infinity (format α) ∧ sign (x + y) = sign y := by
  have hd := decodes x
  have hbits : bits (x + y) = pack (format α) (.infinity (sign y)) := by
    rw [bits_add, unpack_of_infinite hy]
    rw [Finite] at hx
    generalize unpack (format α) (bits x) = f, code x = n at hd hx ⊢
    cases hd with
    | notANumber h => exact absurd hx (not_lt_of_gt h)
    | infinity => exact absurd hx (lt_irrefl _)
    | zero => rfl
    | finite => rfl
  rw [code, sign, hbits]
  exact ⟨codeOf_packedInfinity _, signOf_packedInfinity _⟩

/-- Adding what is not negative, be it infinite, leads to nothing smaller. -/
theorem le_add_of_nonneg (hx : Finite x) (hy : IsNumber y) (h : 0 ≤ rat y) : x ≤ x + y := by
  rcases hy.lt_or_eq with hlt | heq
  · have hround := roundsTo_add hx hlt
    have hle := (roundsTo_rat hx.isNumber).mono hround (le_add_of_nonneg_right h)
    exact (le_iff_rat hx.isNumber hround.isNumber).mpr hle
  · obtain ⟨hcode, hsign⟩ := add_infinity hx heq
    have hlt : |rat x| < value (format α) (infinity (format α)) := by
      rw [rat, abs_signed _ (value_nonneg _)]
      exact value_strictMono hx
    have hpos : sign y = .positive := by
      cases hs : sign y with
      | positive => rfl
      | negative =>
        rw [rat, hs, heq, signed] at h
        linarith [abs_nonneg (rat x)]
    refine (le_iff_rat hx.isNumber hcode.le).mpr ?_
    have hsum : rat (x + y) = value (format α) (infinity (format α)) := by
      rw [rat, hcode, hsign, hpos]
      rfl
    rw [hsum]
    exact (le_abs_self _).trans hlt.le

theorem not_isNumber_sub_self (h : ¬ Finite x) : ¬ IsNumber (x - x) := by
  rw [IsNumber, not_le, code, bits_sub]
  rcases unpack_of_not_finite h with hx | hx <;> rw [hx]
  · exact infinity_lt_packedNaN
  · cases sign x <;> exact infinity_lt_packedNaN

theorem not_lt_of_not_isNumber (h : ¬ IsNumber x) (y : α) : ¬ x < y :=
  fun hlt ↦ h (isNumber_of_le (le_of_lt hlt)).1

theorem not_gt_of_not_isNumber (h : ¬ IsNumber x) (y : α) : ¬ y < x :=
  fun hlt ↦ h (isNumber_of_le (le_of_lt hlt)).2

theorem not_isNumber_foldl_of_start {xs : List α} {sum : α} (h : ¬ IsNumber sum) :
    ¬ IsNumber (xs.foldl (· + ·) sum) := by
  induction xs generalizing sum with
  | nil => exact h
  | cons x xs ih => exact ih (not_isNumber_add_left h x)

theorem not_isNumber_foldl {xs : List α} {x : α} (hx : x ∈ xs) (h : ¬ IsNumber x) (sum : α) :
    ¬ IsNumber (xs.foldl (· + ·) sum) := by
  induction xs generalizing sum with
  | nil => cases hx
  | cons y ys ih =>
    rw [List.foldl_cons]
    rcases List.mem_cons.mp hx with rfl | hx
    · exact not_isNumber_foldl_of_start (not_isNumber_add_right sum h)
    · exact ih hx (sum + y)

end Operations

variable {x : Float}

theorem unpack_abs_of_infinite (h : code x = infinity .binary64) :
    unpack .binary64 (bits x.abs) = .infinity .positive := by
  have hx : x.toModel.unpack = .infinity (sign x) := unpack_of_infinite (x := x) h
  have hbits : bits x.abs = packedInfinity .binary64 .positive := by
    change pack .binary64 x.toModel.unpack.abs = _
    rw [hx]
    rfl
  have hcode : code x.abs = infinity .binary64 := by
    rw [code, hbits]
    exact codeOf_packedInfinity (F := .binary64) .positive
  have hsign : sign x.abs = .positive := by
    rw [sign, hbits]
    exact signOf_packedInfinity (F := .binary64) .positive
  rw [← hsign]
  exact unpack_of_infinite hcode

theorem not_abs_lt_wholeFrom (h : code x = infinity .binary64) : ¬ x.abs < wholeFrom := by
  rw [lt_iff, show unpack (format Float) (bits x.abs) = .infinity .positive from
    unpack_abs_of_infinite h]
  decide

theorem not_isNumber_fraction (h : ¬ Finite x) : ¬ IsNumber (fraction x) := by
  rw [fraction]
  by_cases hx : IsNumber x
  -- the whole part of infinity is infinity, and it is taken from itself
  · rw [wholePart, if_neg (not_abs_lt_wholeFrom (hx.antisymm (not_lt.mp h)))]
    exact not_isNumber_sub_self h
  · exact not_isNumber_sub_left hx _

theorem not_isNumber_withinCycle (h : ¬ Finite x) : ¬ IsNumber (withinCycle x) := by
  have hrest := not_isNumber_fraction h
  have hzero : (fraction x == 0.0) = false := by
    have hunpack : (fraction x).toModel.unpack = .notANumber :=
      unpack_of_not_isNumber (x := fraction x) hrest
    rw [show (fraction x == 0.0) = (fraction x).toModel.unpack.beq _ from rfl, hunpack]
    rfl
  rw [withinCycle, hzero]
  simp only [Bool.false_eq_true, if_false]
  rwa [if_neg (not_lt_of_not_isNumber hrest _)]

theorem not_isNumber_narrow (h : ¬ IsNumber x) : ¬ IsNumber (narrow x) := by
  have hlt : infinity .binary64 < code x := not_le.mp h
  have hcode : code x < 2 ^ 63 := Nat.mod_lt _ (by positivity)
  have hnarrow : narrowMagnitude (code x) = 0x7fc00000 := by
    rw [show infinity .binary64 = 0x7ff0000000000000 by decide] at hlt
    simp only [narrowMagnitude, Nat.pow_eq]
    rw [if_pos (by omega), if_neg (by omega)]
  obtain ⟨f, hbits, hf⟩ := decodes_narrow (x := x) (by rw [hnarrow]; decide)
  rw [hnarrow] at hf
  rw [IsNumber, not_le, code, hbits, hf.eq_notANumber (by decide)]
  exact infinity_lt_packedNaN

theorem isNaN_iff_single {x : Float32} : x.isNaN ↔ ¬ IsNumber x :=
  (decodes x).isNaN_iff.trans not_le.symm

theorem not_isNumber_clip {x : Float32} (h : ¬ IsNumber x) : ¬ IsNumber (clip x) := by
  rwa [clip, if_neg (not_lt_of_not_isNumber h _), if_neg (not_gt_of_not_isNumber h _)]

end Polyphony.Floating
