import Mathlib.Algebra.GCDMonoid.Nat
import Mathlib.Data.Nat.GCD.Basic
import Mathlib.Tactic.Ring
import Mathlib.Tactic.SplitIfs
import Polyphony.NoteValue

namespace Polyphony

theorem times?_eq (a b : UInt64) : times? a b =
    if a.toNat * b.toNat < 2 ^ 64 then some (.ofNat (a.toNat * b.toNat)) else none := by
  rw [times?, UInt64.ofNat_mul, UInt64.ofNat_toNat, UInt64.ofNat_toNat]
  rfl

theorem plus?_eq (a b : UInt64) : plus? a b =
    if a.toNat + b.toNat < 2 ^ 64 then some (.ofNat (a.toNat + b.toNat)) else none := by
  rw [plus?, UInt64.ofNat_add, UInt64.ofNat_toNat, UInt64.ofNat_toNat]
  rfl

theorem plus?_times? (a b c d : UInt64) :
    ((times? a c).bind fun left ↦ (times? b d).bind (plus? left)) =
      if a.toNat * c.toNat + b.toNat * d.toNat < 2 ^ 64 then
        some (.ofNat (a.toNat * c.toNat + b.toNat * d.toNat))
      else none := by
  rw [times?_eq, times?_eq]
  by_cases hl : a.toNat * c.toNat < 2 ^ 64
  · by_cases hr : b.toNat * d.toNat < 2 ^ 64
    · rw [if_pos hl, if_pos hr, Option.bind_some, Option.bind_some, plus?_eq,
        UInt64.toNat_ofNat_of_lt' hl, UInt64.toNat_ofNat_of_lt' hr]
    · have hsum : ¬ a.toNat * c.toNat + b.toNat * d.toNat < 2 ^ 64 := by omega
      rw [if_pos hl, if_neg hr, if_neg hsum]
      rfl
  · have hsum : ¬ a.toNat * c.toNat + b.toNat * d.toNat < 2 ^ 64 := by omega
    rw [if_neg hl, if_neg hsum]
    rfl

theorem toNat_ne_zero {a : UInt64} : a.toNat ≠ 0 ↔ a ≠ 0 :=
  (UInt64.toNat_inj (b := 0)).not

theorem toNat_commonDivisor (a b : UInt64) :
    (commonDivisor a b).toNat = a.toNat.gcd b.toNat := by
  induction a, b using commonDivisor.induct with
  | case1 a => simp [commonDivisor]
  | case2 a b h ih =>
    rw [commonDivisor, if_neg h, ih, UInt64.toNat_mod, Nat.gcd_comm, ← Nat.gcd_rec, Nat.gcd_comm]

theorem quotient_eq {a b : UInt64} (h : b.toNat ≠ 0) :
    quotient a b = .ok (.ofNat (a.toNat / b.toNat)) := by
  rw [quotient, if_neg (toNat_ne_zero.mp h), UInt64.ofNat_div a.toNat_lt b.toNat_lt,
    UInt64.ofNat_toNat, UInt64.ofNat_toNat]

namespace NoteValue

/-- The fraction that `v` is in lowest terms. -/
structure Reduces (v : NoteValue) (a b : ℕ) : Prop where
  eq : v.numerator.toNat * b = a * v.denominator.toNat
  coprime : v.numerator.toNat.Coprime v.denominator.toNat

structure InLowestTerms (v : NoteValue) : Prop where
  coprime : v.numerator.toNat.Coprime v.denominator.toNat
  denominator_ne_zero : v.denominator.toNat ≠ 0

variable {v w : NoteValue} {a b : ℕ}

theorem Reduces.denominator_ne_zero (h : v.Reduces a b) (hb : b ≠ 0) :
    v.denominator.toNat ≠ 0 := by
  intro h0
  have heq := h.eq
  have hco := h.coprime
  rw [h0, Nat.mul_zero] at heq
  rw [h0, Nat.coprime_zero_right] at hco
  rw [hco, Nat.one_mul] at heq
  exact hb heq

theorem Reduces.inLowestTerms (h : v.Reduces a b) (hb : b ≠ 0) : v.InLowestTerms :=
  ⟨h.coprime, h.denominator_ne_zero hb⟩

theorem Reduces.unique (hv : v.Reduces a b) (hw : w.Reduces a b) (hb : b ≠ 0) : v = w := by
  have hv0 := hv.denominator_ne_zero hb
  have hw0 := hw.denominator_ne_zero hb
  have hcross : v.numerator.toNat * w.denominator.toNat =
      w.numerator.toNat * v.denominator.toNat := by
    refine Nat.eq_of_mul_eq_mul_right (Nat.pos_of_ne_zero hb) ?_
    calc v.numerator.toNat * w.denominator.toNat * b
        = v.numerator.toNat * b * w.denominator.toNat := by ring
      _ = w.numerator.toNat * b * v.denominator.toNat := by rw [hv.eq, hw.eq]; ring
      _ = w.numerator.toNat * v.denominator.toNat * b := by ring
  have hd : v.denominator.toNat = w.denominator.toNat :=
    Nat.dvd_antisymm
      (hv.coprime.symm.dvd_of_dvd_mul_left (hcross ▸ Dvd.intro_left _ rfl))
      (hw.coprime.symm.dvd_of_dvd_mul_left (hcross ▸ Dvd.intro_left _ rfl))
  have hn : v.numerator.toNat = w.numerator.toNat := by
    rw [hd] at hcross
    exact Nat.eq_of_mul_eq_mul_right (Nat.pos_of_ne_zero hw0) hcross
  cases v
  cases w
  exact congrArg₂ NoteValue.mk (UInt64.toNat_inj.mp hn) (UInt64.toNat_inj.mp hd)

theorem reduces_of_commonDivisor_ne_zero
    (h : commonDivisor v.numerator v.denominator ≠ 0) :
    v.lowestTerms.Reduces v.numerator.toNat v.denominator.toNat := by
  have hg := toNat_commonDivisor v.numerator v.denominator
  have hpos : 0 < v.numerator.toNat.gcd v.denominator.toNat :=
    hg ▸ Nat.pos_of_ne_zero (toNat_ne_zero.mpr h)
  have heq : v.lowestTerms = ⟨v.numerator / commonDivisor v.numerator v.denominator,
      v.denominator / commonDivisor v.numerator v.denominator⟩ := if_neg h
  have hn := Nat.gcd_dvd_left v.numerator.toNat v.denominator.toNat
  have hd := Nat.gcd_dvd_right v.numerator.toNat v.denominator.toNat
  constructor
  · rw [heq, UInt64.toNat_div, UInt64.toNat_div, hg, Nat.div_mul_right_comm hn,
      Nat.mul_div_assoc _ hd]
  · rw [heq, UInt64.toNat_div, UInt64.toNat_div, hg]
    exact Nat.coprime_div_gcd_div_gcd hpos

theorem reduces_lowestTerms (v : NoteValue) (h : v.denominator.toNat ≠ 0) :
    v.lowestTerms.Reduces v.numerator.toNat v.denominator.toNat := by
  refine reduces_of_commonDivisor_ne_zero (toNat_ne_zero.mp ?_)
  rw [toNat_commonDivisor]
  exact (Nat.gcd_pos_of_pos_right _ (Nat.pos_of_ne_zero h)).ne'

theorem lowestTerms_eq_iff (ha : a < 2 ^ 64) (hb : b < 2 ^ 64) (h : b ≠ 0) :
    lowestTerms ⟨.ofNat a, .ofNat b⟩ = v ↔ v.Reduces a b := by
  have hred := reduces_lowestTerms ⟨.ofNat a, .ofNat b⟩
  rw [UInt64.toNat_ofNat_of_lt' ha, UInt64.toNat_ofNat_of_lt' hb] at hred
  constructor
  · rintro rfl
    exact hred h
  · exact fun hv ↦ (hred h).unique hv h

theorem dotted?_eq (v : NoteValue) : v.dotted? =
    if v.numerator.toNat * 3 < 2 ^ 64 ∧ v.denominator.toNat * 2 < 2 ^ 64 then
      some (lowestTerms ⟨.ofNat (v.numerator.toNat * 3), .ofNat (v.denominator.toNat * 2)⟩)
    else none := by
  rw [dotted?, times?_eq, times?_eq, show (3 : UInt64).toNat = 3 from rfl,
    show (2 : UInt64).toNat = 2 from rfl]
  by_cases hn : v.numerator.toNat * 3 < 2 ^ 64
  · by_cases hd : v.denominator.toNat * 2 < 2 ^ 64
    · rw [if_pos hn, if_pos hd, if_pos ⟨hn, hd⟩]
      rfl
    · rw [if_pos hn, if_neg hd, if_neg (not_and_of_not_right _ hd)]
      rfl
  · rw [if_neg hn, if_neg (not_and_of_not_left _ hn)]
    rfl

theorem dotted?_eq_some_iff (h : v.denominator.toNat ≠ 0) : v.dotted? = some w ↔
    v.numerator.toNat * 3 < 2 ^ 64 ∧ v.denominator.toNat * 2 < 2 ^ 64 ∧
      w.Reduces (v.numerator.toNat * 3) (v.denominator.toNat * 2) := by
  rw [dotted?_eq]
  split_ifs with hfit
  · rw [Option.some_inj, lowestTerms_eq_iff hfit.1 hfit.2 (by omega)]
    exact ⟨fun hr ↦ ⟨hfit.1, hfit.2, hr⟩, fun hr ↦ hr.2.2⟩
  · exact ⟨fun hr ↦ by simp at hr, fun hr ↦ absurd ⟨hr.1, hr.2.1⟩ hfit⟩

def common (v w : NoteValue) : ℕ := v.denominator.toNat.lcm w.denominator.toNat

def sumOver (v w : NoteValue) : ℕ :=
  v.numerator.toNat * (common v w / v.denominator.toNat) +
    w.numerator.toNat * (common v w / w.denominator.toNat)

theorem common_ne_zero (hv : v.denominator.toNat ≠ 0) (hw : w.denominator.toNat ≠ 0) :
    common v w ≠ 0 := Nat.lcm_ne_zero hv hw

theorem add?_of_common (hv : v.denominator.toNat ≠ 0) (hw : w.denominator.toNat ≠ 0) : v.add? w =
    if common v w < 2 ^ 64 then
      .ok (((times? v.numerator (.ofNat (common v w / v.denominator.toNat))).bind fun left ↦
        (times? w.numerator (.ofNat (common v w / w.denominator.toNat))).bind (plus? left)).map
          fun n ↦ lowestTerms ⟨n, .ofNat (common v w)⟩)
    else .ok none := by
  have hg := toNat_commonDivisor v.denominator w.denominator
  have hpos := Nat.gcd_pos_of_pos_right v.denominator.toNat (Nat.pos_of_ne_zero hw)
  have hshare : v.denominator.toNat / v.denominator.toNat.gcd w.denominator.toNat < 2 ^ 64 :=
    (Nat.div_le_self _ _).trans_lt v.denominator.toNat_lt
  have hlcm : v.denominator.toNat / v.denominator.toNat.gcd w.denominator.toNat *
      w.denominator.toNat = common v w := by
    rw [Nat.div_mul_right_comm (Nat.gcd_dvd_left _ _)]
    rfl
  rw [add?, quotient_eq (hg ▸ hpos.ne'), hg]
  simp only [bind, Except.bind]
  rw [times?_eq, UInt64.toNat_ofNat_of_lt' hshare, hlcm]
  split_ifs with hc
  · simp only
    rw [quotient_eq hv, quotient_eq hw, UInt64.toNat_ofNat_of_lt' hc]
    simp only
    cases times? v.numerator (.ofNat (common v w / v.denominator.toNat)) with
    | none => rfl
    | some left =>
      cases times? w.numerator (.ofNat (common v w / w.denominator.toNat)) with
      | none => rfl
      | some right => rfl
  · rfl

/-- A sum is exact, and there is one just where its parts fit. -/
theorem add?_eq (hv : v.denominator.toNat ≠ 0) (hw : w.denominator.toNat ≠ 0) : v.add? w =
    .ok (if common v w < 2 ^ 64 ∧ sumOver v w < 2 ^ 64 then
      some (lowestTerms ⟨.ofNat (sumOver v w), .ofNat (common v w)⟩) else none) := by
  rw [add?_of_common hv hw]
  by_cases hc : common v w < 2 ^ 64
  · have hleft : common v w / v.denominator.toNat < 2 ^ 64 := (Nat.div_le_self _ _).trans_lt hc
    have hright : common v w / w.denominator.toNat < 2 ^ 64 := (Nat.div_le_self _ _).trans_lt hc
    rw [if_pos hc, plus?_times?, UInt64.toNat_ofNat_of_lt' hleft, UInt64.toNat_ofNat_of_lt' hright,
      ← sumOver]
    by_cases hs : sumOver v w < 2 ^ 64
    · rw [if_pos hs, if_pos ⟨hc, hs⟩]
      rfl
    · rw [if_neg hs, if_neg (not_and_of_not_right _ hs)]
      rfl
  · rw [if_neg hc, if_neg (not_and_of_not_left _ hc)]

theorem add?_eq_some_iff {sum : NoteValue} (hv : v.denominator.toNat ≠ 0)
    (hw : w.denominator.toNat ≠ 0) : v.add? w = .ok (some sum) ↔
      common v w < 2 ^ 64 ∧ sumOver v w < 2 ^ 64 ∧ sum.Reduces (sumOver v w) (common v w) := by
  rw [add?_eq hv hw, Except.ok.injEq, Option.ite_none_right_eq_some, Option.some_inj, and_assoc]
  refine and_congr_right fun hc ↦ and_congr_right fun hs ↦ ?_
  exact lowestTerms_eq_iff hs hc (common_ne_zero hv hw)

theorem exists_add?_eq (hv : v.denominator.toNat ≠ 0) (hw : w.denominator.toNat ≠ 0) :
    ∃ sum, v.add? w = .ok sum ∧ ∀ u ∈ sum, u.InLowestTerms := by
  refine ⟨_, add?_eq hv hw, fun u hu ↦ ?_⟩
  have hsum := (add?_eq_some_iff hv hw).mp ((add?_eq hv hw).trans (congrArg Except.ok hu))
  exact hsum.2.2.inLowestTerms (common_ne_zero hv hw)

end NoteValue

end Polyphony
