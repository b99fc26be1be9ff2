namespace Polyphony.Text

def ascends (n : Nat) : List (Nat × Nat) → Bool
  | [] => true
  | (first, last) :: rest => n ≤ first && first ≤ last && ascends (last + 1) rest

theorem ascends_bounds {n : Nat} {rs : List (Nat × Nat)} (h : ascends n rs) {i : Nat}
    (hi : i < rs.length) : n ≤ rs[i].1 ∧ rs[i].1 ≤ rs[i].2 := by
  induction rs generalizing n i with
  | nil => simp at hi
  | cons r rs ih =>
    simp only [ascends, Bool.and_eq_true, decide_eq_true_eq] at h
    cases i with
    | zero => exact h.1
    | succ i => exact ⟨by have := (ih h.2 (Nat.lt_of_succ_lt_succ hi)).1; simp; omega,
        (ih h.2 (Nat.lt_of_succ_lt_succ hi)).2⟩

theorem ascends_apart {n : Nat} {rs : List (Nat × Nat)} (h : ascends n rs) {i j : Nat}
    (hij : i < j) (hj : j < rs.length) : rs[i].2 < rs[j].1 := by
  induction rs generalizing n i j with
  | nil => simp at hj
  | cons r rs ih =>
    simp only [ascends, Bool.and_eq_true, decide_eq_true_eq] at h
    cases j with
    | zero => simp at hij
    | succ j =>
      cases i with
      | zero => exact (ascends_bounds h.2 (Nat.lt_of_succ_lt_succ hj)).1
      | succ i => exact ih h.2 (Nat.lt_of_succ_lt_succ hij) (Nat.lt_of_succ_lt_succ hj)

structure CharSet where
  ranges : Array (Nat × Nat)
  ascending : ascends 0 ranges.toList := by decide +kernel

namespace CharSet

/-- Whether one of the ranges from `low` on and before `high` holds `n`. It is the middle one, or
stands on that side of it on which `n` is. -/
def holds (s : CharSet) (n low high : Nat) : Bool :=
  if low < high then
    match s.ranges[(low + high) / 2]? with
    | some (first, last) =>
      if n < first then s.holds n low ((low + high) / 2)
      else if last < n then s.holds n ((low + high) / 2 + 1) high
      else true
    | none => false
  else false
termination_by high - low

def contains (s : CharSet) (c : Char) : Bool := s.holds c.toNat 0 s.ranges.size

theorem range_apart (s : CharSet) {i j : Nat} (hij : i < j) (hj : j < s.ranges.size) :
    s.ranges[i].2 < s.ranges[j].1 :=
  ascends_apart s.ascending hij hj

theorem holds_iff (s : CharSet) (n low high : Nat) (hh : high ≤ s.ranges.size) :
    s.holds n low high ↔
      ∃ i, ∃ hi : i < high, low ≤ i ∧ s.ranges[i].1 ≤ n ∧ n ≤ s.ranges[i].2 := by
  fun_induction holds s n low high with
  | case1 low high hlt first last he hn ih =>
    obtain ⟨hm, he⟩ := Array.getElem?_eq_some_iff.1 he
    rw [ih (by omega)]
    constructor
    · rintro ⟨i, hi, h⟩
      exact ⟨i, by omega, h⟩
    · rintro ⟨i, hi, hl, h⟩
      refine ⟨i, Nat.lt_of_not_le fun hmi ↦ ?_, hl, h⟩
      rcases Nat.eq_or_lt_of_le hmi with rfl | hmi
      · rw [he] at h; omega
      · have := s.range_apart hmi (by omega)
        have := ascends_bounds s.ascending (i := (low + high) / 2) (by simpa using hm)
        simp [he] at *; omega
  | case2 low high hlt first last he hn hn' ih =>
    obtain ⟨hm, he⟩ := Array.getElem?_eq_some_iff.1 he
    rw [ih hh]
    constructor
    · rintro ⟨i, hi, hl, h⟩
      exact ⟨i, hi, by omega, h⟩
    · rintro ⟨i, hi, hl, h⟩
      refine ⟨i, hi, Nat.lt_of_not_le fun hmi ↦ ?_, h⟩
      rcases Nat.eq_or_lt_of_le hmi with rfl | hmi
      · rw [he] at h; omega
      · have := s.range_apart hmi hm
        have := ascends_bounds s.ascending (i := (low + high) / 2) (by simpa using hm)
        simp [he] at *; omega
  | case3 low high hlt first last he hn hn' =>
    obtain ⟨hm, he⟩ := Array.getElem?_eq_some_iff.1 he
    simp only [true_iff]
    exact ⟨(low + high) / 2, by omega, by omega, by rw [he]; omega⟩
  | case4 low high hlt he =>
    have := Array.getElem?_eq_none_iff.1 he
    omega
  | case5 low high hlt =>
    simp only [Bool.false_eq_true, false_iff]
    rintro ⟨i, hi, hl, -⟩
    omega

theorem contains_iff (s : CharSet) (c : Char) :
    s.contains c ↔ ∃ r ∈ s.ranges, r.1 ≤ c.toNat ∧ c.toNat ≤ r.2 := by
  rw [contains, s.holds_iff _ _ _ (Nat.le_refl _)]
  constructor
  · rintro ⟨i, hi, -, h⟩
    exact ⟨_, Array.getElem_mem hi, h⟩
  · rintro ⟨r, hr, h⟩
    obtain ⟨i, hi, rfl⟩ := Array.getElem_of_mem hr
    exact ⟨i, hi, Nat.zero_le i, h⟩

end CharSet

end Polyphony.Text
