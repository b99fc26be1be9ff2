import Mathlib.Logic.Function.Iterate
import Polyphony.Proofs.Notation.Quantity
import Polyphony.Proofs.Notation.Words

namespace Polyphony

namespace Euclid

def turn (s : UInt64 × UInt64) : UInt64 × UInt64 := (s.2, s.1 % s.2)

/-- The loop goes on as long as there is a second number, which is for `n` turns. -/
structure EndsAfter (n : ℕ) (s t : UInt64 × UInt64) : Prop where
  going : ∀ k < n, (turn^[k] s).2 ≠ 0
  last : turn^[n] s = t
  done : t.2 = 0

theorem endsAfter_zero (a : UInt64) : EndsAfter 0 (a, 0) (a, 0) :=
  ⟨fun _ hk ↦ absurd hk (Nat.not_lt_zero _), rfl, rfl⟩

theorem EndsAfter.cons {n : ℕ} {s t : UInt64 × UInt64} (hs : s.2 ≠ 0)
    (h : EndsAfter n (turn s) t) : EndsAfter (n + 1) s t := by
  refine ⟨fun k hk ↦ ?_, h.last, h.done⟩
  cases k with
  | zero => exact hs
  | succ k => exact h.going k (Nat.lt_of_succ_lt_succ hk)

theorem exists_endsAfter (a b : UInt64) :
    ∃ n, EndsAfter n (a, b) (commonDivisor a b, 0) := by
  induction a, b using commonDivisor.induct with
  | case1 a =>
    rw [commonDivisor, if_pos rfl]
    exact ⟨0, endsAfter_zero a⟩
  | case2 a b h ih =>
    obtain ⟨n, hn⟩ := ih
    rw [commonDivisor, if_neg h]
    exact ⟨n + 1, .cons h hn⟩

theorem commonDivisor_eq_zero_iff (a b : UInt64) : commonDivisor a b = 0 ↔ a = 0 ∧ b = 0 := by
  rw [← UInt64.toNat_inj, toNat_commonDivisor, ← UInt64.toNat_inj (a := a),
    ← UInt64.toNat_inj (a := b)]
  exact Nat.gcd_eq_zero_iff

end Euclid

namespace Guarded

def product (a b : UInt64) : Except ArithmeticFault UInt64 :=
  match times? a b with
  | some c => .ok c
  | none => .error .productOverflow

def dotted (v : NoteValue) : Except ArithmeticFault NoteValue := do
  let n ← product v.numerator 3
  let d ← product v.denominator 2
  lowestTerms ⟨n, d⟩

theorem product_of_fits {a b : UInt64} (h : a.toNat * b.toNat < UInt64.size) :
    product a b = .ok (a * b) := by
  rw [product, times?, if_pos h]

theorem product_of_not_fits {a b : UInt64} (h : ¬ a.toNat * b.toNat < UInt64.size) :
    product a b = .error .productOverflow := by
  rw [product, times?, if_neg h]

theorem dotted_eq (v : NoteValue) : dotted v = v.dotted := by
  rw [dotted, NoteValue.dotted]
  by_cases hn : v.numerator.toNat * 3 < UInt64.size
  · rw [product_of_fits hn]
    by_cases hd : v.denominator.toNat * 2 < UInt64.size
    · rw [product_of_fits hd, if_pos ⟨hn, hd⟩]
      exact lowestTerms_eq _
    · rw [product_of_not_fits hd, if_neg (not_and_of_not_right _ hd)]
      rfl
  · rw [product_of_not_fits hn, if_neg (not_and_of_not_left _ hn)]
    rfl

end Guarded

namespace NoteValue

variable {v w : NoteValue}

theorem inLowestTerms_lowestTerms (h : v.denominator.toNat ≠ 0) : v.lowestTerms.InLowestTerms :=
  (reduces_lowestTerms v h).inLowestTerms h

theorem quantity_lowestTerms (h : v.denominator.toNat ≠ 0) :
    v.lowestTerms.quantity = v.quantity :=
  (reduces_lowestTerms v h).quantity_eq h

theorem lowestTerms_of_coprime (h : v.numerator.toNat.Coprime v.denominator.toNat) :
    v.lowestTerms = v := by
  have hone : commonDivisor v.numerator v.denominator = 1 :=
    UInt64.toNat_inj.mp ((toNat_commonDivisor _ _).trans h)
  rw [lowestTerms, hone]
  simp

theorem lowestTerms_lowestTerms (v : NoteValue) : v.lowestTerms.lowestTerms = v.lowestTerms := by
  by_cases h : commonDivisor v.numerator v.denominator = 0
  · have hself : v.lowestTerms = v := if_pos h
    rw [hself, hself]
  · exact lowestTerms_of_coprime (reduces_of_commonDivisor_ne_zero h).coprime

theorem lowestTerms_inj (hv : v.denominator.toNat ≠ 0) (hw : w.denominator.toNat ≠ 0) :
    v.lowestTerms = w.lowestTerms ↔
      v.numerator.toNat * w.denominator.toNat = w.numerator.toNat * v.denominator.toNat := by
  have hvq : (v.denominator.toNat : ℚ) ≠ 0 := by exact_mod_cast hv
  have hwq : (w.denominator.toNat : ℚ) ≠ 0 := by exact_mod_cast hw
  have hquantity : v.quantity = w.quantity ↔
      v.numerator.toNat * w.denominator.toNat = w.numerator.toNat * v.denominator.toNat := by
    rw [quantity, quantity, div_eq_div_iff hvq hwq]
    exact_mod_cast Iff.rfl
  rw [← hquantity, ← quantity_lowestTerms hv, ← quantity_lowestTerms hw]
  refine ⟨fun h ↦ by rw [h], fun h ↦ ?_⟩
  exact (inLowestTerms_lowestTerms hv).eq_of_quantity_eq (inLowestTerms_lowestTerms hw) h

/-- With and without a check the same happens where the factors fit, and where they do not, nothing
comes of it. -/
theorem dotted_cases (v : NoteValue) :
    (v.numerator.toNat * 3 < 2 ^ 64 ∧ v.denominator.toNat * 2 < 2 ^ 64 ∧
      ∃ w, v.dotted? = some w ∧ v.dotted = .ok w) ∨
    ((2 ^ 64 ≤ v.numerator.toNat * 3 ∨ 2 ^ 64 ≤ v.denominator.toNat * 2) ∧
      v.dotted? = none ∧ v.dotted = .error .productOverflow) := by
  by_cases h : v.numerator.toNat * 3 < 2 ^ 64 ∧ v.denominator.toNat * 2 < 2 ^ 64
  · refine .inl ⟨h.1, h.2, _, (dotted?_eq v).trans (if_pos h), (if_pos h).trans ?_⟩
    rw [UInt64.ofNat_mul, UInt64.ofNat_mul, UInt64.ofNat_toNat, UInt64.ofNat_toNat]
    rfl
  · refine .inr ⟨?_, (dotted?_eq v).trans (if_neg h), if_neg h⟩
    rw [not_and_or, not_lt, not_lt] at h
    exact h

theorem quantity_dotted (hv : v.denominator.toNat ≠ 0) (h : v.dotted? = some w) :
    w.quantity = 3 / 2 * v.quantity := by
  obtain ⟨-, -, hw⟩ := (dotted?_eq_some_iff hv).mp h
  rw [hw.quantity_eq (by omega), quantity]
  push_cast
  ring

structure Dots (v : NoteValue) : Prop where
  none_iff : v.dotted? = none ↔
    2 ^ 64 ≤ v.numerator.toNat * 3 ∨ 2 ^ 64 ≤ v.denominator.toNat * 2
  error_iff : (∃ f, v.dotted = .error f) ↔ v.dotted? = none
  ok_iff : ∀ w, v.dotted = .ok w ↔ v.dotted? = some w
  guarded : Guarded.dotted v = v.dotted ∧ Guarded.dotted? v = .ok v.dotted?
  half_longer : v.denominator ≠ 0 → ∀ w ∈ v.dotted?,
    w.quantity = 3 / 2 * v.quantity ∧ w.InLowestTerms

theorem dots (v : NoteValue) : Dots v := by
  have hguarded := And.intro (Guarded.dotted_eq v) (Guarded.dotted?_eq v)
  have hhalf (hd : v.denominator ≠ 0) (w : NoteValue) (hw : w ∈ v.dotted?) :
      w.quantity = 3 / 2 * v.quantity ∧ w.InLowestTerms := by
    have hd' := toNat_ne_zero.mpr hd
    obtain ⟨-, -, hred⟩ := (dotted?_eq_some_iff hd').mp hw
    exact ⟨quantity_dotted hd' hw, hred.inLowestTerms (by omega)⟩
  rcases dotted_cases v with ⟨hn, hd, w, hsome, hok⟩ | ⟨hlarge, hnone, herror⟩
  · refine ⟨?_, ?_, fun u ↦ ?_, hguarded, hhalf⟩
    · rw [hsome]
      exact iff_of_false nofun (by omega)
    · rw [hsome, hok]
      exact iff_of_false nofun nofun
    · rw [hsome, hok, Except.ok.injEq, Option.some_inj]
  · refine ⟨iff_of_true hnone hlarge, iff_of_true ⟨_, herror⟩ hnone, fun u ↦ ?_, hguarded, hhalf⟩
    rw [hnone, herror]
    exact iff_of_false nofun nofun

/-- Every length has one form in lowest terms, which Euclid's loop leads to, and a dot finds it with
and without a check. -/
theorem lowest_terms_unique :
    (∀ v : NoteValue, v.denominator ≠ 0 →
      v.lowestTerms.quantity = v.quantity ∧ v.lowestTerms.InLowestTerms) ∧
    (∀ v : NoteValue, v.lowestTerms.lowestTerms = v.lowestTerms) ∧
    (∀ v w : NoteValue, v.denominator ≠ 0 → w.denominator ≠ 0 →
      (v.lowestTerms = w.lowestTerms ↔
        v.numerator.toNat * w.denominator.toNat = w.numerator.toNat * v.denominator.toNat)) ∧
    (∀ v : NoteValue, Dots v) ∧
    ∀ a b : UInt64, (∃ n, Euclid.EndsAfter n (a, b) (commonDivisor a b, 0)) ∧
      Guarded.commonDivisor a b = .ok (commonDivisor a b) ∧
      (commonDivisor a b).toNat = a.toNat.gcd b.toNat ∧
      (commonDivisor a b = 0 ↔ a = 0 ∧ b = 0) := by
  refine ⟨fun v hv ↦ ?_, lowestTerms_lowestTerms, fun v w hv hw ↦ ?_, dots, fun a b ↦ ?_⟩
  · have hd := toNat_ne_zero.mpr hv
    exact ⟨quantity_lowestTerms hd, inLowestTerms_lowestTerms hd⟩
  · exact lowestTerms_inj (toNat_ne_zero.mpr hv) (toNat_ne_zero.mpr hw)
  · exact ⟨Euclid.exists_endsAfter a b, Guarded.commonDivisor_eq a b, toNat_commonDivisor a b,
      Euclid.commonDivisor_eq_zero_iff a b⟩

example : quarter.dotted = .ok dottedQuarter ∧ eighth.dotted = .ok dottedEighth := by cbv

end NoteValue

end Polyphony
