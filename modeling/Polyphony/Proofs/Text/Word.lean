import Polyphony.Proofs.Notation.Grammar

namespace Polyphony

inductive UnsignedNumeral : List Char → ℕ → Prop
  | plain {cs : List Char} {n : ℕ} (h : Numeral cs n) : UnsignedNumeral cs n
  | plus {cs : List Char} {n : ℕ} (h : Numeral cs n) : UnsignedNumeral ('+' :: cs) n

namespace Text

/-- Where digits that carry on from `n` stop to make a word: at the first stray character, unless
what stands in front of it is too large already. -/
inductive FailsAfter (n : ℕ) : List Char → NumeralFault → Prop
  | stray {ds rest : List Char} {c : Char} (hd : ∀ d ∈ ds, d.isDigit)
      (hfits : Nat.ofDigitChars 10 ds n < 2 ^ 32) (hc : c.isDigit = false) :
      FailsAfter n (ds ++ c :: rest) .strayCharacter
  | tooLarge {ds rest : List Char} (hd : ∀ d ∈ ds, d.isDigit)
      (hlarge : 2 ^ 32 ≤ Nat.ofDigitChars 10 ds n) : FailsAfter n (ds ++ rest) .tooLarge

inductive FailsAsWord : List Char → NumeralFault → Prop
  | empty : FailsAsWord [] .empty
  | sign : FailsAsWord ['+'] .strayCharacter
  | plus {cs : List Char} {fault : NumeralFault} (h : FailsAfter 0 cs fault) :
      FailsAsWord ('+' :: cs) fault
  | plain {cs : List Char} {fault : NumeralFault} (hsign : cs.head? ≠ some '+')
      (h : FailsAfter 0 cs fault) : FailsAsWord cs fault

variable {cs : List Char} {n m : ℕ} {fault : NumeralFault} {w : UInt32}

theorem le_ofDigitChars (cs : List Char) (n : ℕ) : n ≤ Nat.ofDigitChars 10 cs n := by
  induction cs generalizing n with
  | nil => exact le_rfl
  | cons c cs ih =>
    rw [Nat.ofDigitChars_cons]
    have h := ih (10 * n + (c.toNat - '0'.toNat))
    omega

theorem readDigits_cons {c : Char} : readDigits (c :: cs) n =
    if c.isDigit then
      if 10 * n + (c.toNat - '0'.toNat) < 2 ^ 32 then
        readDigits cs (10 * n + (c.toNat - '0'.toNat))
      else .error .tooLarge
    else .error .strayCharacter := by
  rw [readDigits]
  cases c.isDigit <;> rfl

theorem readDigits_eq_ok_iff (hn : n < 2 ^ 32) : readDigits cs n = .ok m ↔
    (∀ c ∈ cs, c.isDigit) ∧ Nat.ofDigitChars 10 cs n = m ∧ m < 2 ^ 32 := by
  -- What the digits so far stand for only grows, so that it fits throughout if it does in the end.
  induction cs generalizing n with
  | nil =>
    rw [readDigits, Except.ok.injEq, Nat.ofDigitChars_nil]
    constructor
    · rintro rfl
      exact ⟨by simp, rfl, hn⟩
    · exact fun h ↦ h.2.1
  | cons c cs ih =>
    rw [readDigits_cons, List.forall_mem_cons, Nat.ofDigitChars_cons]
    split_ifs with hc hfits
    · rw [ih hfits, and_iff_right hc]
    · constructor
      · intro h
        cases h
      · intro h
        have hle := le_ofDigitChars cs (10 * n + (c.toNat - '0'.toNat))
        omega
    · constructor
      · intro h
        cases h
      · intro h
        exact absurd h.1.1 hc

theorem FailsAfter.cons {c : Char} (hc : c.isDigit)
    (h : FailsAfter (10 * n + (c.toNat - '0'.toNat)) cs fault) : FailsAfter n (c :: cs) fault := by
  cases h with
  | @stray ds rest d hd hfits hstray =>
    rw [← List.cons_append]
    exact .stray (List.forall_mem_cons.mpr ⟨hc, hd⟩) hfits hstray
  | @tooLarge ds rest hd hlarge =>
    rw [← List.cons_append]
    exact .tooLarge (List.forall_mem_cons.mpr ⟨hc, hd⟩) hlarge

theorem failsAfter_of_readDigits (hn : n < 2 ^ 32) (h : readDigits cs n = .error fault) :
    FailsAfter n cs fault := by
  induction cs generalizing n with
  | nil => cases h
  | cons c cs ih =>
    rw [readDigits_cons] at h
    split_ifs at h with hc hfits
    · exact (ih hfits h).cons hc
    · cases h
      have hlarge : FailsAfter n ([c] ++ cs) .tooLarge :=
        .tooLarge (List.forall_mem_singleton.mpr hc) (not_lt.mp hfits)
      exact hlarge
    · cases h
      have hstray : FailsAfter n ([] ++ c :: cs) .strayCharacter :=
        .stray (List.forall_mem_nil _) hn (Bool.eq_false_iff.mpr hc)
      exact hstray

theorem readDigits_of_failsAfter (hn : n < 2 ^ 32) (h : FailsAfter n cs fault) :
    readDigits cs n = .error fault := by
  cases h with
  | @stray ds rest c hd hfits hc =>
    induction ds generalizing n with
    | nil => rw [List.nil_append, readDigits_cons, hc, if_neg Bool.false_ne_true]
    | cons d ds ih =>
      obtain ⟨hdigit, hds⟩ := List.forall_mem_cons.mp hd
      rw [Nat.ofDigitChars_cons] at hfits
      have hnext := (le_ofDigitChars ds _).trans_lt hfits
      rw [List.cons_append, readDigits_cons, if_pos hdigit, if_pos hnext]
      exact ih hnext hds hfits
  | @tooLarge ds rest hd hlarge =>
    induction ds generalizing n with
    | nil => exact absurd hn (not_lt.mpr hlarge)
    | cons d ds ih =>
      obtain ⟨hdigit, hds⟩ := List.forall_mem_cons.mp hd
      rw [Nat.ofDigitChars_cons] at hlarge
      rw [List.cons_append, readDigits_cons, if_pos hdigit]
      split_ifs with hnext
      · exact ih hnext hds hlarge
      · rfl

theorem map_readDigits_eq_error_iff :
    (readDigits cs 0).map UInt32.ofNat = .error fault ↔ FailsAfter 0 cs fault := by
  have hread : readDigits cs 0 = .error fault ↔ FailsAfter 0 cs fault :=
    ⟨failsAfter_of_readDigits (by decide), readDigits_of_failsAfter (by decide)⟩
  rw [← hread]
  cases readDigits cs 0 <;> simp [Except.map]

theorem map_readDigits_eq_ok_iff (h : cs ≠ []) : (readDigits cs 0).map UInt32.ofNat = .ok w ↔
    ∃ n, Numeral cs n ∧ n < 2 ^ 32 ∧ UInt32.ofNat n = w := by
  have hread (n : ℕ) : readDigits cs 0 = .ok n ↔ Numeral cs n ∧ n < 2 ^ 32 := by
    rw [readDigits_eq_ok_iff (by decide)]
    constructor
    · intro ⟨hd, hv, hn⟩
      exact ⟨⟨h, hd, hv⟩, hn⟩
    · intro ⟨hnum, hn⟩
      exact ⟨hnum.digits, hnum.value, hn⟩
  simp only [← and_assoc, ← hread]
  cases readDigits cs 0 <;> simp [Except.map]

theorem word32_eq_ok_iff : word32 cs = .ok w ↔
    ∃ n, UnsignedNumeral cs n ∧ n < 2 ^ 32 ∧ UInt32.ofNat n = w := by
  rw [word32.eq_def]
  split
  · constructor
    · intro h
      cases h
    · intro h
      obtain ⟨n, hnum, -⟩ := h
      cases hnum with
      | plain h => exact absurd rfl h.ne_nil
  · constructor
    · intro h
      cases h
    · intro h
      obtain ⟨n, hnum, -⟩ := h
      cases hnum with
      | plain h => exact absurd h (not_numeral_cons rfl)
      | plus h => exact absurd rfl h.ne_nil
  · next ds hds =>
    rw [map_readDigits_eq_ok_iff hds]
    refine exists_congr fun n ↦ and_congr_left fun _ ↦ ⟨.plus, fun hnum ↦ ?_⟩
    cases hnum with
    | plain h => exact absurd h (not_numeral_cons rfl)
    | plus h => exact h
  · next hempty _ hplus =>
    rw [map_readDigits_eq_ok_iff hempty]
    refine exists_congr fun n ↦ and_congr_left fun _ ↦ ⟨.plain, fun hnum ↦ ?_⟩
    cases hnum with
    | plain h => exact h
    | plus h => exact absurd rfl (hplus _)

theorem word32_eq_error_iff : word32 cs = .error fault ↔ FailsAsWord cs fault := by
  have hempty {fault : NumeralFault} : ¬ FailsAfter 0 [] fault := by
    intro h
    cases map_readDigits_eq_error_iff.mpr h
  rw [word32.eq_def]
  split
  · constructor
    · intro h
      cases h
      exact .empty
    · intro h
      cases h with
      | empty => rfl
      | plain _ h => exact absurd h hempty
  · constructor
    · intro h
      cases h
      exact .sign
    · intro h
      cases h with
      | sign => rfl
      | plus h => exact absurd h hempty
      | plain hsign => exact absurd rfl hsign
  · next ds hds =>
    rw [map_readDigits_eq_error_iff]
    constructor
    · exact .plus
    · intro h
      cases h with
      | sign => exact absurd rfl hds
      | plus h => exact h
      | plain hsign => exact absurd rfl hsign
  · next hnil _ hplus =>
    rw [map_readDigits_eq_error_iff]
    constructor
    · refine .plain fun hhead ↦ ?_
      obtain ⟨ds, rfl⟩ := List.head?_eq_some_iff.mp hhead
      exact hplus ds rfl
    · intro h
      cases h with
      | empty => exact absurd rfl hnil
      | sign => exact absurd rfl (hplus [])
      | plus => exact absurd rfl (hplus _)
      | plain _ h => exact h

end Text

end Polyphony
