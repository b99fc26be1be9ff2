import Mathlib

namespace Polyphony.Magnitude

open Float.Model (Format UnpackedFloat)
open Float.Model.UnpackedFloat

variable (F : Format)

/-- The code of infinity: the codes below it stand for numbers, those above it for none. -/
def infinity : ℕ := (2 ^ F.exponentBits - 1) * 2 ^ F.mantissaBitsWithoutImplicit

/-- The code of `m * 2 ^ e` without its sign. -/
def code (m : ℕ) (e : ℤ) : ℕ :=
  (e - F.minExponent).toNat * 2 ^ F.mantissaBitsWithoutImplicit + m

structure Canonical (m : ℕ) (e : ℤ) : Prop where
  lt : m < 2 ^ (F.mantissaBitsWithoutImplicit + 1)
  min_le : F.minExponent ≤ e
  full : e = F.minExponent ∨ 2 ^ F.mantissaBitsWithoutImplicit ≤ m

inductive Decodes (s : Sign) : ℕ → UnpackedFloat → Prop
  | zero : Decodes s 0 (.zero s)
  | finite {n m : ℕ} {e : ℤ} (hm : 0 < m) (h : Canonical F m e) (hn : n < infinity F)
      (hc : n = code F m e) : Decodes s n (.finite s m e hm)
  | infinity : Decodes s (infinity F) (.infinity s)
  | notANumber {n : ℕ} (hn : infinity F < n) : Decodes s n .notANumber

variable {F}

def codeOf (b : BitVec F.numBits) : ℕ :=
  b.toNat % 2 ^ (F.exponentBits + F.mantissaBitsWithoutImplicit)

def signOf (b : BitVec F.numBits) : Sign := Sign.ofBitVec (unpackSign b)

theorem toNat_unpackMantissa (b : BitVec F.numBits) :
    (unpackMantissa b).toNat = codeOf b % 2 ^ F.mantissaBitsWithoutImplicit := by
  have hm := F.hm
  rw [unpackMantissa, BitVec.toNat_cast, BitVec.extractLsb_toNat, Nat.shiftRight_zero, codeOf,
    Nat.mod_mod_of_dvd _ (pow_dvd_pow 2 (by omega))]
  congr 2
  omega

theorem toNat_unpackExponent (b : BitVec F.numBits) :
    (unpackExponent b).toNat = codeOf b / 2 ^ F.mantissaBitsWithoutImplicit := by
  have he := F.he
  have hw : F.mantissaBitsWithoutImplicit + F.exponentBits - 1 -
      F.mantissaBitsWithoutImplicit + 1 = F.exponentBits := by omega
  rw [unpackExponent, BitVec.toNat_cast, BitVec.extractLsb_toNat, Nat.shiftRight_eq_div_pow, hw,
    codeOf, Nat.add_comm F.exponentBits, pow_add, Nat.mod_mul_right_div_self]

theorem signOf_eq_positive_iff (b : BitVec F.numBits) : signOf b = .positive ↔
    b.toNat < 2 ^ (F.exponentBits + F.mantissaBitsWithoutImplicit) := by
  have hlt : b.toNat < 2 ^ (F.exponentBits + F.mantissaBitsWithoutImplicit) * 2 := by
    rw [← pow_succ]
    exact b.isLt.trans_eq (congrArg _ (by rw [Format.numBits]; omega))
  have hbit : (unpackSign b).toNat =
      b.toNat / 2 ^ (F.exponentBits + F.mantissaBitsWithoutImplicit) := by
    rw [unpackSign, BitVec.toNat_cast, BitVec.extractLsb_toNat, Nat.shiftRight_eq_div_pow,
      Nat.add_comm F.mantissaBitsWithoutImplicit, Nat.sub_self, Nat.mod_eq_of_lt]
    exact Nat.div_lt_of_lt_mul hlt
  have hpos : unpackSign b = 0#1 ↔
      b.toNat < 2 ^ (F.exponentBits + F.mantissaBitsWithoutImplicit) := by
    rw [← BitVec.toNat_inj, hbit, BitVec.toNat_ofNat, Nat.zero_mod,
      Nat.div_eq_zero_iff_lt (by positivity)]
  rw [signOf, Sign.ofBitVec, ← hpos]
  split_ifs with h
  · exact ⟨fun _ ↦ h, fun _ ↦ rfl⟩
  · exact ⟨fun hs ↦ (nomatch hs), fun h' ↦ absurd h' h⟩

theorem codeOf_eq (b : BitVec F.numBits) :
    codeOf b = (unpackExponent b).toNat * 2 ^ F.mantissaBitsWithoutImplicit +
      (unpackMantissa b).toNat := by
  rw [toNat_unpackExponent, toNat_unpackMantissa, Nat.div_add_mod']

theorem minExponent_eq (F : Format) :
    F.minExponent = 1 - F.exponentBias - F.mantissaBitsWithoutImplicit := by
  have h := Nat.one_le_two_pow (n := F.exponentBits - 1)
  simp only [Format.minExponent, Format.exponentBias, Format.mantissaBits]
  push_cast [h]
  ring

theorem two_pow_exponentBits (F : Format) :
    2 ^ F.exponentBits = 2 * (F.exponentBias + 1) := by
  have h := Nat.one_le_two_pow (n := F.exponentBits - 1)
  rw [Format.exponentBias, Nat.sub_add_cancel h, ← pow_succ', Nat.sub_add_cancel F.he]

theorem decodes_unpack (b : BitVec F.numBits) :
    Decodes F (signOf b) (codeOf b) (unpack F b) := by
  have hlt := (unpackMantissa b).isLt
  have hexp := (unpackExponent b).isLt
  have hcap := two_pow_exponentBits F
  have hones : (-1#F.exponentBits).toNat = 2 ^ F.exponentBits - 1 := by
    rw [BitVec.neg_one_eq_allOnes, BitVec.toNat_allOnes]
  have hmin := minExponent_eq F
  rw [codeOf_eq b, unpack]
  split_ifs with h₁ h₂ h₃ h₄
  · rw [h₁, h₂, hones, BitVec.toNat_zero, add_zero]
    exact .infinity
  · rw [h₁, hones]
    refine .notANumber (Nat.lt_add_of_pos_right (Nat.pos_of_ne_zero fun h ↦ h₂ ?_))
    exact BitVec.eq_of_toNat_eq h
  · rw [h₃, h₄, BitVec.toNat_zero, BitVec.toNat_zero, zero_mul]
    exact .zero
  · rw [h₃, BitVec.toNat_zero, zero_mul, zero_add]
    have he : ((0 : ℕ) : ℤ) - (F.exponentBias + F.mantissaBitsWithoutImplicit) + 1 =
        F.minExponent := by omega
    refine .finite _ ⟨?_, he.ge, .inl he⟩ ?_ ?_
    · rw [pow_succ]; omega
    · have h := Nat.le_mul_of_pos_left (2 ^ F.mantissaBitsWithoutImplicit)
        (show 0 < 2 ^ F.exponentBits - 1 by omega)
      exact hlt.trans_le h
    · rw [code, he, sub_self, Int.toNat_zero, zero_mul, zero_add]
  · have hpos : (unpackExponent b).toNat ≠ 0 := fun h ↦ h₃ (BitVec.eq_of_toNat_eq h)
    have htop : (unpackExponent b).toNat ≠ 2 ^ F.exponentBits - 1 := fun h ↦
      h₁ (BitVec.eq_of_toNat_eq (h.trans hones.symm))
    have hmant : (1#1 ++ unpackMantissa b).toNat =
        2 ^ F.mantissaBitsWithoutImplicit + (unpackMantissa b).toNat := by
      rw [BitVec.toNat_append, ← Nat.shiftLeft_add_eq_or_of_lt hlt, Nat.shiftLeft_eq]
      simp
    refine .finite _ ⟨?_, by omega, .inr (by omega)⟩ ?_ ?_
    · rw [hmant, pow_succ]; omega
    · have h := Nat.mul_le_mul_right (2 ^ F.mantissaBitsWithoutImplicit)
        (show (unpackExponent b).toNat + 1 ≤ 2 ^ F.exponentBits - 1 by omega)
      rw [Nat.succ_mul] at h
      exact lt_of_lt_of_le (by omega) h
    · rw [code, hmant]
      have hx : ((unpackExponent b).toNat - (F.exponentBias + F.mantissaBitsWithoutImplicit) -
        F.minExponent : ℤ).toNat = (unpackExponent b).toNat - 1 := by omega
      rw [hx, ← add_assoc, ← Nat.succ_mul, Nat.succ_eq_add_one, Nat.sub_add_cancel (by omega)]

@[simp] theorem codeOf_packComponents (s : Sign) (e : BitVec F.exponentBits)
    (m : BitVec F.mantissaBitsWithoutImplicit) : codeOf (packComponents F s e m) =
      e.toNat * 2 ^ F.mantissaBitsWithoutImplicit + m.toNat := by
  rw [codeOf_eq, unpackExponent_packComponents, unpackMantissa_packComponents]

@[simp] theorem signOf_packComponents (s : Sign) (e : BitVec F.exponentBits)
    (m : BitVec F.mantissaBitsWithoutImplicit) : signOf (packComponents F s e m) = s := by
  rw [signOf, unpackSign_packComponents, Sign.ofBitVec_toBitVec]

@[simp] theorem codeOf_packedInfinity (s : Sign) :
    codeOf (packedInfinity F s) = infinity F := by
  simp [packedInfinity, infinity, BitVec.neg_one_eq_allOnes]

@[simp] theorem signOf_packedInfinity (s : Sign) : signOf (packedInfinity F s) = s := by
  rw [packedInfinity, signOf_packComponents]

theorem codeOf_pack_finite (hb : 1 < F.exponentBits) (s : Sign) {m : ℕ} {e : ℤ} (hm : 0 < m)
    (h : Canonical F m e) :
    codeOf (pack F (.finite s m e hm)) = min (code F m e) (infinity F) := by
  have hmin := minExponent_eq F
  have hcap : 2 ^ 2 ≤ 2 ^ F.exponentBits := Nat.pow_le_pow_right (by decide) hb
  have hle := h.min_le
  have hlt := h.lt
  obtain ⟨k, hk⟩ : ∃ k : ℕ, e = F.minExponent + k := ⟨(e - F.minExponent).toNat, by omega⟩
  have hbias : (e + F.exponentBias + F.mantissaBitsWithoutImplicit).toNat = k + 1 := by omega
  have hcode : code F m e = k * 2 ^ F.mantissaBitsWithoutImplicit + m := by
    rw [code, hk, add_sub_cancel_left, Int.toNat_natCast]
  rw [hcode, pack]
  simp only [hbias]
  split_ifs with h₁ h₂
  · have hfull : 2 ^ F.mantissaBitsWithoutImplicit ≤ m := h.full.resolve_left (by omega)
    have hk := Nat.mul_le_mul_right (2 ^ F.mantissaBitsWithoutImplicit)
      (show 2 ^ F.exponentBits - 1 ≤ k + 1 by omega)
    rw [codeOf_packedInfinity, min_eq_right]
    rw [Nat.succ_mul] at hk
    exact hk.trans (by omega)
  · have hfull : 2 ^ F.mantissaBitsWithoutImplicit ≤ m := by
      rw [← Nat.le_log2 hm.ne']
      simp only [Format.mantissaBits] at h₂
      omega
    have hmod : m % 2 ^ F.mantissaBitsWithoutImplicit =
        m - 2 ^ F.mantissaBitsWithoutImplicit := by
      rw [Nat.mod_eq_sub_mod hfull, Nat.mod_eq_of_lt]
      rw [pow_succ] at hlt
      omega
    have hk := Nat.mul_le_mul_right (2 ^ F.mantissaBitsWithoutImplicit)
      (show k + 2 ≤ 2 ^ F.exponentBits - 1 by omega)
    rw [codeOf_packComponents, BitVec.toNat_ofNat, BitVec.toNat_ofNat, hmod,
      Nat.mod_eq_of_lt (by omega), min_eq_left]
    · rw [Nat.succ_mul]; omega
    · rw [Nat.add_mul] at hk
      rw [pow_succ] at hlt
      exact le_trans (by omega) hk
  · have hsub : m < 2 ^ F.mantissaBitsWithoutImplicit := by
      by_contra hge
      have hlog := (Nat.le_log2 hm.ne').mpr (not_lt.mp hge)
      have hlog' := (Nat.log2_lt hm.ne').mpr hlt
      simp only [Format.mantissaBits] at h₂
      omega
    obtain rfl : k = 0 := by have := h.full; omega
    rw [codeOf_packComponents, BitVec.toNat_ofNat, BitVec.toNat_ofNat, Nat.zero_mod,
      Nat.mod_eq_of_lt hsub, min_eq_left]
    rw [zero_mul, zero_add]
    exact hsub.le.trans (Nat.le_mul_of_pos_left _ (by omega))

theorem signOf_pack_finite (s : Sign) {m : ℕ} {e : ℤ} (hm : 0 < m) :
    signOf (pack F (.finite s m e hm)) = s := by
  rw [pack]
  split_ifs <;> simp

def number (s : Sign) (m : ℕ) (e : ℤ) : UnpackedFloat :=
  if h : m = 0 then .zero s else .finite s m e (Nat.pos_of_ne_zero h)

theorem pack_number (hb : 1 < F.exponentBits) (s : Sign) {m : ℕ} {e : ℤ}
    (h : Canonical F m e) :
    codeOf (pack F (number s m e)) = min (code F m e) (infinity F) ∧
      signOf (pack F (number s m e)) = s := by
  by_cases hm : m = 0
  · have he : e = F.minExponent := h.full.resolve_right (by simp [hm])
    rw [number, dif_pos hm, code, he, hm, sub_self]
    simp [pack, packedZero]
  · rw [number, dif_neg hm]
    exact ⟨codeOf_pack_finite hb s _ h, signOf_pack_finite s _⟩

theorem code_pos {m : ℕ} {e : ℤ} (hm : 0 < m) : 0 < code F m e := Nat.add_pos_right _ hm

variable (F) in
theorem infinity_pos : 0 < infinity F := by
  have h : 2 ^ 1 ≤ 2 ^ F.exponentBits := Nat.pow_le_pow_right (by decide) F.he
  exact Nat.mul_pos (by omega) (by positivity)

theorem Canonical.code_lt_code {m m' : ℕ} {e e' : ℤ} (h : Canonical F m e)
    (h' : Canonical F m' e') (he : e < e') : code F m e < code F m' e' := by
  have hlt := h.lt
  have hle := h.min_le
  have hfull := h'.full.resolve_left (by omega)
  have hk := Nat.mul_le_mul_right (2 ^ F.mantissaBitsWithoutImplicit)
    (show (e - F.minExponent).toNat + 1 ≤ (e' - F.minExponent).toNat by omega)
  rw [pow_succ] at hlt
  rw [Nat.succ_mul] at hk
  simp only [code]
  omega

theorem Canonical.unique {m m' : ℕ} {e e' : ℤ} (h : Canonical F m e) (h' : Canonical F m' e')
    (hc : code F m e = code F m' e') : m = m' ∧ e = e' := by
  rcases lt_trichotomy e e' with he | rfl | he
  · exact absurd hc (h.code_lt_code h' he).ne
  · exact ⟨Nat.add_left_cancel hc, rfl⟩
  · exact absurd hc (h'.code_lt_code h he).ne'

theorem canonical_carry {e : ℤ} (he : F.minExponent ≤ e) :
    Canonical F (2 ^ F.mantissaBitsWithoutImplicit) (e + 1) :=
  ⟨Nat.pow_lt_pow_right (by decide) (Nat.lt_succ_self _), by omega, .inr le_rfl⟩

theorem code_carry {e : ℤ} (he : F.minExponent ≤ e) :
    code F (2 ^ F.mantissaBitsWithoutImplicit) (e + 1) =
      code F (2 ^ (F.mantissaBitsWithoutImplicit + 1)) e := by
  rw [code, code, show (e + 1 - F.minExponent).toNat = (e - F.minExponent).toNat + 1 by omega,
    pow_succ]
  ring

variable (F)

def mantissa (n : ℕ) : ℕ :=
  n - (n / 2 ^ F.mantissaBitsWithoutImplicit - 1) * 2 ^ F.mantissaBitsWithoutImplicit

def exponent (n : ℕ) : ℤ :=
  F.minExponent + (n / 2 ^ F.mantissaBitsWithoutImplicit - 1 : ℕ)

/-- The number that a code stands for. Infinity has the value that would come next. -/
def value (n : ℕ) : ℚ := mantissa F n * 2 ^ exponent F n

variable {F}

theorem canonical_mantissa (n : ℕ) : Canonical F (mantissa F n) (exponent F n) := by
  have hp : 0 < 2 ^ F.mantissaBitsWithoutImplicit := by positivity
  have hdiv := Nat.div_add_mod' n (2 ^ F.mantissaBitsWithoutImplicit)
  have hmod := Nat.mod_lt n hp
  simp only [mantissa, exponent]
  generalize n / 2 ^ F.mantissaBitsWithoutImplicit = q at *
  cases q with
  | zero => exact ⟨by rw [pow_succ]; omega, by omega, .inl (by simp)⟩
  | succ q =>
    rw [Nat.succ_mul] at hdiv
    refine ⟨?_, by omega, .inr ?_⟩
    · rw [pow_succ, Nat.succ_sub_one]
      omega
    · rw [Nat.succ_sub_one]
      omega

theorem code_mantissa (n : ℕ) : code F (mantissa F n) (exponent F n) = n := by
  have hle : (n / 2 ^ F.mantissaBitsWithoutImplicit - 1) * 2 ^ F.mantissaBitsWithoutImplicit ≤ n :=
    (Nat.mul_le_mul_right _ (Nat.sub_le _ _)).trans (Nat.div_mul_le_self _ _)
  rw [code, exponent, add_sub_cancel_left, Int.toNat_natCast, mantissa, Nat.add_sub_cancel' hle]

theorem value_code {m : ℕ} {e : ℤ} (h : Canonical F m e) :
    value F (code F m e) = m * 2 ^ e := by
  obtain ⟨hm, he⟩ := (canonical_mantissa (code F m e)).unique h (code_mantissa _)
  rw [value, hm, he]

theorem value_code_succ {m : ℕ} {e : ℤ} (h : Canonical F m e) :
    value F (code F m e + 1) = (m + 1) * 2 ^ e := by
  rcases Nat.lt_or_eq_of_le (Nat.succ_le_of_lt h.lt) with hlt | heq
  · have h' : Canonical F (m + 1) e := ⟨hlt, h.min_le, h.full.imp_right Nat.le_succ_of_le⟩
    rw [show code F m e + 1 = code F (m + 1) e from rfl, value_code h']
    push_cast
    ring
  · have hc : code F m e + 1 = code F (2 ^ F.mantissaBitsWithoutImplicit) (e + 1) := by
      rw [code_carry h.min_le, ← heq]
      rfl
    have hq : (m : ℚ) + 1 = 2 ^ (F.mantissaBitsWithoutImplicit + 1) := by exact_mod_cast heq
    rw [hc, value_code (canonical_carry h.min_le), hq, zpow_add_one₀ (by norm_num)]
    push_cast
    ring

theorem value_strictMono : StrictMono (value F) := by
  refine strictMono_nat_of_lt_succ fun n ↦ ?_
  have h := canonical_mantissa (F := F) n
  have hv := value_code h
  have hs := value_code_succ h
  rw [code_mantissa] at hv hs
  rw [hv, hs]
  have h2 : (0 : ℚ) < 2 ^ exponent F n := by positivity
  linarith

@[simp] theorem value_zero : value F 0 = 0 := by simp [value, mantissa]

end Polyphony.Magnitude
