import Mathlib
import Polyphony.Notation
import Polyphony.Proofs.Notation.NoteValue

namespace Polyphony

/-- The digits of a number, with or without zeros in front. -/
structure Numeral (cs : List Char) (n : ℕ) : Prop where
  ne_nil : cs ≠ []
  digits : ∀ c ∈ cs, c.isDigit
  value : Nat.ofDigitChars 10 cs 0 = n

inductive SignedNumeral : List Char → ℤ → Prop
  | plain {cs : List Char} {n : ℕ} (h : Numeral cs n) : SignedNumeral cs n
  | plus {cs : List Char} {n : ℕ} (h : Numeral cs n) : SignedNumeral ('+' :: cs) n
  | minus {cs : List Char} {n : ℕ} (h : Numeral cs n) : SignedNumeral ('-' :: cs) (-n)

/-- The name of a class as it is, or with a small letter. -/
def Spells (cs : List Char) (p : PitchClass) : Prop :=
  cs = p.name.toList ∨ cs = p.name.toList.map Char.toLower

inductive WritesPitch : List Char → Option Pitch → Prop
  | rest : WritesPitch ['_'] none
  | tone {name octave : List Char} {p : PitchClass} {o : ℤ} (hp : Spells name p)
      (ho : SignedNumeral octave o) (hl : -2 ^ 31 ≤ o) (hu : o < 2 ^ 31) :
      WritesPitch (name ++ octave) (some ⟨p, .ofInt o⟩)

inductive WritesValue : List Char → NoteValue → Prop
  | plain {digits : List Char} {d : ℕ} (hd : Numeral digits d) (hl : 1 ≤ d) (hu : d < 2 ^ 64) :
      WritesValue digits ⟨1, .ofNat d⟩
  | dotted {digits : List Char} {d : ℕ} {v : NoteValue} (hd : Numeral digits d) (hl : 1 ≤ d)
      (hu : 2 * d < 2 ^ 64) (hv : v.Reduces 3 (2 * d)) : WritesValue (digits ++ ['.']) v

/-- The text of a unit that stands for a note: two parts and the only slash between them. -/
def WritesNote (cs : List Char) (pitch : Option Pitch) (value : NoteValue) : Prop :=
  ∃ left right, cs = left ++ '/' :: right ∧ '/' ∉ left ∧ '/' ∉ right ∧
    WritesPitch left pitch ∧ WritesValue right value

namespace Text

variable {cs : List Char} {n : ℕ}

theorem natural?_eq_some_iff : natural? cs = some n ↔ Numeral cs n := by
  rw [natural?, Option.ite_none_right_eq_some, Option.some_inj, isNumeral, Bool.and_eq_true,
    List.all_eq_true]
  constructor
  · rintro ⟨⟨hne, hd⟩, hv⟩
    exact ⟨by simpa using hne, hd, hv⟩
  · rintro ⟨hne, hd, hv⟩
    exact ⟨⟨by simpa using hne, hd⟩, hv⟩

theorem not_numeral_cons {c : Char} (h : c.isDigit = false) : ¬ Numeral (c :: cs) n := fun hn ↦ by
  simpa [h] using hn.digits c List.mem_cons_self

theorem integer?_eq_some_iff {i : ℤ} : integer? cs = some i ↔ SignedNumeral cs i := by
  rw [integer?.eq_def]
  split
  · simp only [Option.map_eq_some_iff, Option.bind_eq_bind, Option.bind_eq_some_iff,
      Option.pure_def, Option.some_inj, natural?_eq_some_iff]
    constructor
    · rintro ⟨_, ⟨n, hn, rfl⟩, rfl⟩
      exact .minus hn
    · intro h
      cases h with
      | plain h => exact absurd h (not_numeral_cons rfl)
      | minus h => exact ⟨_, ⟨_, h, rfl⟩, rfl⟩
  · simp only [Option.map_eq_some_iff, natural?_eq_some_iff]
    constructor
    · rintro ⟨n, hn, rfl⟩
      exact .plus hn
    · intro h
      cases h with
      | plain h => exact absurd h (not_numeral_cons rfl)
      | plus h => exact ⟨_, h, rfl⟩
  · next hminus hplus =>
    simp only [Option.map_eq_some_iff, natural?_eq_some_iff]
    constructor
    · rintro ⟨n, hn, rfl⟩
      exact .plain hn
    · intro h
      cases h with
      | plain h => exact ⟨_, h, rfl⟩
      | plus h => exact absurd rfl (hplus _)
      | minus h => exact absurd rfl (hminus _)

theorem int32?_eq_some_iff {o : Int32} : int32? cs = some o ↔
    ∃ i, SignedNumeral cs i ∧ -2 ^ 31 ≤ i ∧ i < 2 ^ 31 ∧ Int32.ofInt i = o := by
  rw [int32?, Option.bind_eq_some_iff]
  simp only [Option.ite_none_right_eq_some, Option.some_inj, integer?_eq_some_iff, and_assoc]
  have hmin : Int32.minValue.toInt = -2 ^ 31 := by decide
  have hmax : Int32.maxValue.toInt = 2 ^ 31 - 1 := by decide
  simp only [hmin, hmax, Int.le_sub_one_iff]

theorem word64?_eq_some_iff {w : UInt64} : word64? cs = some w ↔
    ∃ n, Numeral cs n ∧ n < 2 ^ 64 ∧ UInt64.ofNat n = w := by
  rw [word64?, Option.bind_eq_some_iff]
  simp only [Option.ite_none_right_eq_some, Option.some_inj, natural?_eq_some_iff]
  rfl

end Text

section Lookup

variable {α β : Type} [DecidableEq β] {all : List α} {name : α → β} {a : α} {b : β}

theorem find?_name_eq_some_iff (hall : ∀ a, a ∈ all) (hinj : Function.Injective name) :
    (all.find? fun x ↦ name x = b) = some a ↔ name a = b := by
  constructor
  · intro h
    simpa using List.find?_some h
  · intro h
    cases hfind : all.find? fun x ↦ decide (name x = b) with
    | none =>
      have hnot := List.find?_eq_none.mp hfind a (hall a)
      simp [h] at hnot
    | some x =>
      have hx : name x = b := by simpa using List.find?_some hfind
      exact congrArg some (hinj (hx.trans h.symm))

theorem find?_name_eq_none_iff (hall : ∀ a, a ∈ all) :
    (all.find? fun x ↦ name x = b) = none ↔ ∀ a, name a ≠ b := by
  rw [List.find?_eq_none]
  constructor
  · intro h a ha
    exact h a (hall a) (decide_eq_true ha)
  · intro h a _ ha
    exact h a (of_decide_eq_true ha)

end Lookup

theorem toUpper_eq_iff {c u : Char} (hu : ¬ u.isLower) : c.toUpper = u ↔ c = u ∨ c = u.toLower := by
  constructor
  · rintro rfl
    by_cases hc : c.isLower
    · rw [Char.toLower_toUpper_eq_toLower,
        Char.toLower_eq_of_not_isUpper (Char.not_isUpper_of_isLower hc)]
      exact .inr rfl
    · exact .inl (Char.toUpper_eq_of_not_isLower hc).symm
  · rintro (rfl | rfl)
    · exact Char.toUpper_eq_of_not_isLower hu
    · rw [Char.toUpper_toLower_eq_toUpper, Char.toUpper_eq_of_not_isLower hu]

namespace PitchClass

theorem map_toUpper_natural {cs : List Char} {u : Char} (hu : ¬ u.isLower) :
    [u] = cs.map Char.toUpper ↔ cs = [u] ∨ cs = [u.toLower] := by
  rw [eq_comm, List.map_eq_singleton_iff]
  constructor
  · rintro ⟨c, rfl, hc⟩
    simpa using (toUpper_eq_iff hu).mp hc
  · rintro (rfl | rfl)
    · exact ⟨_, rfl, (toUpper_eq_iff hu).mpr (.inl rfl)⟩
    · exact ⟨_, rfl, (toUpper_eq_iff hu).mpr (.inr rfl)⟩

theorem map_toUpper_sharp {cs : List Char} {u : Char} (hu : ¬ u.isLower) :
    [u, '#'] = cs.map Char.toUpper ↔ cs = [u, '#'] ∨ cs = [u.toLower, '#'] := by
  have hsharp {c : Char} : c.toUpper = '#' ↔ c = '#' :=
    (toUpper_eq_iff (by decide)).trans (or_iff_left_of_imp id)
  rw [eq_comm, List.map_eq_cons_iff]
  constructor
  · rintro ⟨c, ds, rfl, hc, hds⟩
    obtain ⟨d, rfl, hd⟩ := List.map_eq_singleton_iff.mp hds
    obtain rfl := hsharp.mp hd
    simpa using (toUpper_eq_iff hu).mp hc
  · rintro (rfl | rfl)
    · exact ⟨_, _, rfl, (toUpper_eq_iff hu).mpr (.inl rfl), rfl⟩
    · exact ⟨_, _, rfl, (toUpper_eq_iff hu).mpr (.inr rfl), rfl⟩

theorem spells_iff (cs : List Char) (p : PitchClass) :
    p.name.toList = cs.map Char.toUpper ↔ Spells cs p := by
  cases p with
  | c => exact map_toUpper_natural (by decide)
  | cSharp => exact map_toUpper_sharp (by decide)
  | d => exact map_toUpper_natural (by decide)
  | dSharp => exact map_toUpper_sharp (by decide)
  | e => exact map_toUpper_natural (by decide)
  | f => exact map_toUpper_natural (by decide)
  | fSharp => exact map_toUpper_sharp (by decide)
  | g => exact map_toUpper_natural (by decide)
  | gSharp => exact map_toUpper_sharp (by decide)
  | a => exact map_toUpper_natural (by decide)
  | aSharp => exact map_toUpper_sharp (by decide)
  | b => exact map_toUpper_natural (by decide)

theorem mem_all (p : PitchClass) : p ∈ all := by
  cases p <;> decide

theorem name_injective : Function.Injective fun p ↦ (name p).toList := by
  intro p q h
  have hall : ∀ p ∈ all, ∀ q ∈ all, p.name.toList = q.name.toList → p = q := by decide
  exact hall p p.mem_all q q.mem_all h

theorem named?_eq_some_iff {cs : List Char} {p : PitchClass} :
    named? cs = some p ↔ Spells cs p := by
  rw [← spells_iff, named?]
  exact find?_name_eq_some_iff mem_all name_injective

end PitchClass

namespace Notation

open PitchClass

theorem exists_name_eq (p : PitchClass) : ∃ c, p.name.toList = [c] ∨ p.name.toList = [c, '#'] := by
  cases p <;> simp [name]

theorem exists_of_spells {cs : List Char} {p : PitchClass} (h : Spells cs p) :
    ∃ c, cs = [c] ∨ cs = [c, '#'] := by
  obtain ⟨c, hc⟩ := exists_name_eq p
  rcases h with rfl | rfl
  · exact ⟨c, hc⟩
  · refine ⟨c.toLower, hc.imp (fun h ↦ ?_) fun h ↦ ?_⟩
    · rw [h, List.map_singleton]
    · rw [h]
      rfl

theorem exists_of_signedNumeral {cs : List Char} {i : ℤ} (h : SignedNumeral cs i) :
    ∃ c ds, cs = c :: ds ∧ c ≠ '#' := by
  cases h with
  | plain h =>
    obtain ⟨c, ds, rfl⟩ := List.exists_cons_of_ne_nil h.ne_nil
    refine ⟨c, ds, rfl, ?_⟩
    rintro rfl
    exact absurd h (Text.not_numeral_cons rfl)
  | plus h => exact ⟨_, _, rfl, by decide⟩
  | minus h => exact ⟨_, _, rfl, by decide⟩

theorem splitPitch_eq_some {cs name octave : List Char}
    (h : splitPitch cs = some (name, octave)) : cs = name ++ octave := by
  rw [splitPitch.eq_def] at h
  split at h
  · cases h
  · cases h
    rfl
  · cases h
    rfl

theorem splitPitch_append {name octave : List Char} {p : PitchClass} {o : ℤ} (hp : Spells name p)
    (ho : SignedNumeral octave o) : splitPitch (name ++ octave) = some (name, octave) := by
  obtain ⟨c, rfl | rfl⟩ := exists_of_spells hp
  · obtain ⟨d, ds, rfl, hd⟩ := exists_of_signedNumeral ho
    exact splitPitch.eq_3 c _ fun _ h ↦ hd (List.cons.inj h).1
  · rfl

theorem readPitch_eq_ok_iff {part : List Char} {pitch : Option Pitch} :
    readPitch part = .ok pitch ↔ WritesPitch part pitch := by
  constructor
  · intro h
    rw [readPitch] at h
    split_ifs at h with hrest
    · cases h
      exact hrest ▸ .rest
    · split at h
      · cases h
      · next name octave hsplit =>
        split at h
        · cases h
        · next o ho =>
          split at h
          · cases h
          · next p hp =>
            cases h
            obtain ⟨i, hi, hl, hu, rfl⟩ := Text.int32?_eq_some_iff.mp ho
            rw [splitPitch_eq_some hsplit]
            exact .tone (named?_eq_some_iff.mp hp) hi hl hu
  · intro h
    cases h with
    | rest => rfl
    | @tone name octave p o hp ho hl hu =>
      have hne : name ++ octave ≠ ['_'] := by
        obtain ⟨c, rfl | rfl⟩ := exists_of_spells hp
        · obtain ⟨d, ds, rfl, -⟩ := exists_of_signedNumeral ho
          simp
        · simp
      rw [readPitch, if_neg hne, splitPitch_append hp ho]
      simp only
      rw [Text.int32?_eq_some_iff.mpr ⟨o, ho, hl, hu, rfl⟩]
      simp only
      rw [named?_eq_some_iff.mpr hp]

theorem splitDot_of_numeral {cs : List Char} {n : ℕ} (h : Numeral cs n) :
    splitDot cs = (cs, false) := by
  refine if_neg fun hlast ↦ ?_
  have hdot := h.digits '.' (List.mem_of_getLast? hlast)
  simp at hdot

theorem splitDot_dotted (cs : List Char) : splitDot (cs ++ ['.']) = (cs, true) := by
  simp [splitDot]

theorem append_of_splitDot {part digits : List Char} (h : splitDot part = (digits, true)) :
    part = digits ++ ['.'] := by
  rw [splitDot] at h
  split_ifs at h with hlast
  · cases h
    exact (List.dropLast_append_getLast? _ hlast).symm
  · cases h

theorem eq_of_splitDot {part digits : List Char} (h : splitDot part = (digits, false)) :
    part = digits := by
  rw [splitDot] at h
  split_ifs at h with hlast
  · cases h
  · cases h
    rfl

theorem bind_ofDivision?_eq_some_iff {cs : List Char} {v : NoteValue} :
    (Text.word64? cs).bind NoteValue.ofDivision? = some v ↔
      ∃ d, Numeral cs d ∧ 1 ≤ d ∧ d < 2 ^ 64 ∧ ⟨1, .ofNat d⟩ = v := by
  have hzero {d : ℕ} (hd : d < 2 ^ 64) : ¬ UInt64.ofNat d = 0 ↔ 1 ≤ d := by
    rw [← Ne, ← toNat_ne_zero, UInt64.toNat_ofNat_of_lt' hd, Nat.one_le_iff_ne_zero]
  simp only [Option.bind_eq_some_iff, Text.word64?_eq_some_iff, NoteValue.ofDivision?,
    Option.ite_none_left_eq_some, Option.some_inj]
  constructor
  · rintro ⟨_, ⟨d, hd, hu, rfl⟩, hne, hv⟩
    exact ⟨d, hd, (hzero hu).mp hne, hu, hv⟩
  · rintro ⟨d, hd, hl, hu, hv⟩
    exact ⟨_, ⟨d, hd, hu, rfl⟩, (hzero hu).mpr hl, hv⟩

theorem dotted?_division_eq_some_iff {d : ℕ} (hl : 1 ≤ d) (hu : d < 2 ^ 64) {v : NoteValue} :
    NoteValue.dotted? ⟨1, .ofNat d⟩ = some v ↔ 2 * d < 2 ^ 64 ∧ v.Reduces 3 (2 * d) := by
  have hd : (NoteValue.mk 1 (.ofNat d)).denominator.toNat = d := UInt64.toNat_ofNat_of_lt' hu
  have hn : (1 : UInt64).toNat * 3 < 2 ^ 64 := by decide
  rw [NoteValue.dotted?_eq_some_iff (by omega), hd, Nat.mul_comm d]
  exact ⟨And.right, fun h ↦ ⟨hn, h⟩⟩

theorem readValue?_eq_some_iff {part : List Char} {v : NoteValue} :
    readValue? part = some v ↔ WritesValue part v := by
  constructor
  · intro h
    obtain ⟨⟨digits, dot⟩, hsplit⟩ : ∃ split, splitDot part = split := ⟨_, rfl⟩
    rw [readValue?, hsplit] at h
    simp only at h
    obtain ⟨w, hw, hv⟩ := Option.bind_eq_some_iff.mp h
    obtain ⟨d, hd, hl, hu, rfl⟩ := bind_ofDivision?_eq_some_iff.mp hw
    cases dot with
    | false =>
      cases hv
      exact eq_of_splitDot hsplit ▸ .plain hd hl hu
    | true =>
      obtain ⟨hu', hr⟩ := (dotted?_division_eq_some_iff hl hu).mp hv
      exact append_of_splitDot hsplit ▸ .dotted hd hl hu' hr
  · intro h
    cases h with
    | @plain digits d hd hl hu =>
      rw [readValue?, splitDot_of_numeral hd]
      simp only
      rw [bind_ofDivision?_eq_some_iff.mpr ⟨d, hd, hl, hu, rfl⟩]
      rfl
    | @dotted digits d v hd hl hu hr =>
      have hu' : d < 2 ^ 64 := by omega
      rw [readValue?, splitDot_dotted]
      simp only
      rw [bind_ofDivision?_eq_some_iff.mpr ⟨d, hd, hl, hu', rfl⟩, Option.bind_some]
      exact (dotted?_division_eq_some_iff hl hu').mpr ⟨hu, hr⟩

theorem not_mem_of_mem_splitOn {c : Char} {cs part : List Char} (h : part ∈ cs.splitOn c) :
    c ∉ part := by
  induction cs generalizing part with
  | nil =>
    rw [List.splitOn_nil, List.mem_singleton] at h
    simp [h]
  | cons d ds ih =>
    rw [List.splitOn_cons_eq_if_modifyHead] at h
    split_ifs at h with hd
    · rcases List.mem_cons.mp h with rfl | h
      · exact List.not_mem_nil
      · exact ih h
    · obtain ⟨first, rest, hsplit⟩ := List.exists_cons_of_ne_nil (List.splitOn_ne_nil c ds)
      rw [hsplit, List.modifyHead_cons] at h
      rcases List.mem_cons.mp h with rfl | h
      · have hfirst := ih (hsplit ▸ List.mem_cons_self)
        rw [List.mem_cons, not_or]
        exact ⟨fun hc ↦ hd (by simp [hc]), hfirst⟩
      · exact ih (hsplit ▸ List.mem_cons_of_mem _ h)

theorem splitOn_eq_pair_iff {c : Char} {cs left right : List Char} :
    cs.splitOn c = [left, right] ↔ cs = left ++ c :: right ∧ c ∉ left ∧ c ∉ right := by
  constructor
  · intro h
    have hjoin : [c].intercalate (cs.splitOn c) = cs := List.intercalate_splitOn c
    rw [h] at hjoin
    refine ⟨?_, not_mem_of_mem_splitOn (h ▸ List.mem_cons_self),
      not_mem_of_mem_splitOn (h ▸ List.mem_cons_of_mem _ List.mem_cons_self)⟩
    simpa [List.intercalate] using hjoin.symm
  · rintro ⟨rfl, hleft, hright⟩
    rw [List.splitOn_append_cons_self_of_not_mem hleft, List.splitOn_eq_singleton hright]

theorem readUnit_eq_ok_iff {unit : List Char} {pitch : Option Pitch} {v : NoteValue} :
    readUnit unit = .ok (pitch, v) ↔ WritesNote unit pitch v := by
  constructor
  · intro h
    rw [readUnit] at h
    split at h
    · next left right hsplit =>
      split at h
      · cases h
      · next p hp =>
        split at h
        · cases h
        · next w hw =>
          cases h
          obtain ⟨heq, hleft, hright⟩ := splitOn_eq_pair_iff.mp hsplit
          exact ⟨left, right, heq, hleft, hright, readPitch_eq_ok_iff.mp hp,
            readValue?_eq_some_iff.mp hw⟩
    · cases h
  · rintro ⟨left, right, heq, hleft, hright, hp, hv⟩
    rw [readUnit, splitOn_eq_pair_iff.mpr ⟨heq, hleft, hright⟩]
    simp only
    rw [readPitch_eq_ok_iff.mpr hp]
    simp only
    rw [readValue?_eq_some_iff.mpr hv]

end Notation

/-- A unit is read just where it is written as a note is, and as that note. -/
theorem WrittenNote.parse_eq_ok_iff (unit : String) (note : WrittenNote) :
    WrittenNote.parse unit = .ok note ↔
      note.text = unit ∧ WritesNote unit.toList note.pitch note.value := by
  rw [← Notation.readUnit_eq_ok_iff, WrittenNote.parse]
  obtain ⟨text, pitch, value⟩ := note
  cases Notation.readUnit unit.toList with
  | error fault => simp
  | ok parts => simp [Prod.ext_iff, eq_comm]

end Polyphony
