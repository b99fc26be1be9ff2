import Mathlib.Algebra.Field.Rat
import Mathlib.Algebra.Order.Field.Basic
import Mathlib.Algebra.Order.Ring.Rat
import Mathlib.Data.Nat.Cast.Field
import Mathlib.Tactic.Linarith
import Mathlib.Tactic.NormNum
import Polyphony.Proofs.Notation.NoteValue

namespace Polyphony.NoteValue

def quantity (v : NoteValue) : ℚ := v.numerator.toNat / v.denominator.toNat

variable {v w sum : NoteValue} {a b : ℕ}

theorem quantity_nonneg (v : NoteValue) : 0 ≤ v.quantity :=
  div_nonneg (Nat.cast_nonneg _) (Nat.cast_nonneg _)

theorem inLowestTerms_zero : zero.InLowestTerms := ⟨by decide, by decide⟩

theorem quantity_zero : zero.quantity = 0 := zero_div _

theorem Reduces.quantity_eq (h : v.Reduces a b) (hb : b ≠ 0) : v.quantity = a / b := by
  have hd : (v.denominator.toNat : ℚ) ≠ 0 := by exact_mod_cast h.denominator_ne_zero hb
  have hbq : (b : ℚ) ≠ 0 := by exact_mod_cast hb
  rw [quantity, div_eq_div_iff hd hbq]
  exact_mod_cast h.eq

theorem reduces_of_quantity_eq (hv : v.InLowestTerms) (hb : b ≠ 0) (h : v.quantity = a / b) :
    v.Reduces a b := by
  have hd : (v.denominator.toNat : ℚ) ≠ 0 := by exact_mod_cast hv.denominator_ne_zero
  have hbq : (b : ℚ) ≠ 0 := by exact_mod_cast hb
  rw [quantity, div_eq_div_iff hd hbq] at h
  exact ⟨by exact_mod_cast h, hv.coprime⟩

/-- In lowest terms a length is written in one way only. -/
theorem InLowestTerms.eq_of_quantity_eq (hv : v.InLowestTerms) (hw : w.InLowestTerms)
    (h : v.quantity = w.quantity) : v = w := by
  have hne := hw.denominator_ne_zero
  exact (reduces_of_quantity_eq hv hne h).unique (reduces_of_quantity_eq hw hne rfl) hne

theorem common_comm (v w : NoteValue) : common v w = common w v := Nat.lcm_comm _ _

theorem sumOver_comm (v w : NoteValue) : sumOver v w = sumOver w v := by
  rw [sumOver, sumOver, common_comm, Nat.add_comm]

theorem sumOver_div_common (hv : v.denominator.toNat ≠ 0) (hw : w.denominator.toNat ≠ 0) :
    (sumOver v w : ℚ) / common v w = v.quantity + w.quantity := by
  have hne : (common v w : ℚ) ≠ 0 := by exact_mod_cast common_ne_zero hv hw
  have hvq : (v.denominator.toNat : ℚ) ≠ 0 := by exact_mod_cast hv
  have hwq : (w.denominator.toNat : ℚ) ≠ 0 := by exact_mod_cast hw
  rw [div_eq_iff hne, sumOver, quantity, quantity]
  push_cast [Nat.cast_div (show v.denominator.toNat ∣ common v w from Nat.dvd_lcm_left _ _) hvq,
    Nat.cast_div (show w.denominator.toNat ∣ common v w from Nat.dvd_lcm_right _ _) hwq]
  ring

theorem quantity_add (hv : v.denominator.toNat ≠ 0) (hw : w.denominator.toNat ≠ 0)
    (h : v.add? w = .ok (some sum)) : sum.quantity = v.quantity + w.quantity := by
  obtain ⟨-, -, hsum⟩ := (add?_eq_some_iff hv hw).mp h
  rw [hsum.quantity_eq (common_ne_zero hv hw), sumOver_div_common hv hw]

theorem add?_of_zero (h : v.denominator.toNat = 0 ∨ w.denominator.toNat = 0) :
    v.add? w = .error .zeroDivisor := by
  have hzero {a b : UInt64} (hb : b.toNat = 0) : quotient a b = .error .zeroDivisor :=
    if_pos (UInt64.toNat_inj.mp hb)
  rw [add?]
  by_cases hd : (commonDivisor v.denominator w.denominator).toNat = 0
  · rw [hzero hd]
    rfl
  · -- Only one denominator is missing then, so the one that is shared is zero as well, and it is
    -- divided by each of the two in turn.
    have hshare :
        v.denominator.toNat / (commonDivisor v.denominator w.denominator).toNat < 2 ^ 64 :=
      (Nat.div_le_self _ _).trans_lt v.denominator.toNat_lt
    have hcommon : v.denominator.toNat / (commonDivisor v.denominator w.denominator).toNat *
        w.denominator.toNat = 0 := by
      rcases h with h | h <;> simp [h]
    rw [quotient_eq hd]
    simp only [bind, Except.bind]
    rw [times?_eq, UInt64.toNat_ofNat_of_lt' hshare, hcommon, if_pos (by decide)]
    simp only
    by_cases hv : v.denominator.toNat = 0
    · rw [hzero hv]
    · rw [quotient_eq hv, hzero (h.resolve_left hv)]
      simp only
      rw [times?_eq, if_pos (by simp)]

theorem add?_comm (v w : NoteValue) : v.add? w = w.add? v := by
  by_cases h : v.denominator.toNat = 0 ∨ w.denominator.toNat = 0
  · rw [add?_of_zero h, add?_of_zero h.symm]
  · obtain ⟨hv, hw⟩ := not_or.mp h
    rw [add?_eq hv hw, add?_eq hw hv, common_comm, sumOver_comm]

theorem exists_add?_eq_error_iff (v w : NoteValue) : (∃ f, v.add? w = .error f) ↔
    v.denominator.toNat = 0 ∨ w.denominator.toNat = 0 := by
  constructor
  · intro h
    obtain ⟨f, hf⟩ := h
    by_contra hne
    obtain ⟨hv, hw⟩ := not_or.mp hne
    rw [add?_eq hv hw] at hf
    cases hf
  · exact fun h ↦ ⟨_, add?_of_zero h⟩

end Polyphony.NoteValue
