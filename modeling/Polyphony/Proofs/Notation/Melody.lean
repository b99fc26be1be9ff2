import Polyphony.Proofs.Notation.Grammar

namespace Polyphony

section FirstFailure

variable {α β ε : Type}

theorem isOk_iff {x : Except ε α} : x.isOk ↔ ∃ a, x = .ok a := by
  cases x <;> simp [Except.isOk, Except.toBool]

theorem mapM_cases (f : α → Except ε β) (l : List α) :
    (∃ bs, l.mapM f = .ok bs ∧ List.Forall₂ (fun a b ↦ f a = .ok b) l bs) ∨
      ∃ before a after e, l = before ++ a :: after ∧ (∀ x ∈ before, (f x).isOk) ∧
        f a = .error e ∧ l.mapM f = .error e := by
  induction l with
  | nil => exact .inl ⟨[], rfl, .nil⟩
  | cons a l ih =>
    rw [List.mapM_cons]
    cases ha : f a with
    | error e => exact .inr ⟨[], a, l, e, rfl, by simp, ha, rfl⟩
    | ok b =>
      have hcons : ∀ x, l.mapM f = x → (do
          let b' ← Except.ok b
          let bs ← l.mapM f
          pure (b' :: bs)) = x.map (b :: ·) := by
        rintro x rfl
        cases l.mapM f <;> rfl
      obtain ⟨bs, hl, hbs⟩ | ⟨before, x, after, e, rfl, hbefore, hx, hl⟩ := ih
      · exact .inl ⟨b :: bs, hcons _ hl, .cons ha hbs⟩
      · refine .inr ⟨a :: before, x, after, e, rfl, ?_, hx, hcons _ hl⟩
        intro y hy
        rcases List.mem_cons.mp hy with rfl | hy
        · exact isOk_iff.mpr ⟨b, ha⟩
        · exact hbefore y hy

end FirstFailure

namespace WritesValue

variable {part : List Char} {v : NoteValue}

theorem inLowestTerms (h : WritesValue part v) : v.InLowestTerms := by
  cases h with
  | plain hd hl hu =>
    refine ⟨Nat.coprime_one_left _, ?_⟩
    rw [UInt64.toNat_ofNat_of_lt' hu]
    omega
  | dotted hd hl hu hv => exact hv.inLowestTerms (by omega)

theorem numerator_eq (h : WritesValue part v) :
    v.numerator.toNat = 1 ∨ v.numerator.toNat = 3 := by
  cases h with
  | plain => exact .inl rfl
  | dotted hd hl hu hv =>
    have hdvd := hv.coprime.dvd_of_dvd_mul_right (Dvd.intro _ hv.eq)
    exact (Nat.dvd_prime Nat.prime_three).mp hdvd

end WritesValue

namespace WrittenNote

theorem value_of_parse {unit : String} {note : WrittenNote} (h : parse unit = .ok note) :
    ∃ part, WritesValue part note.value := by
  rw [parse] at h
  split at h
  · next hread =>
    cases h
    obtain ⟨_, right, -, -, -, -, hv⟩ := Notation.readUnit_eq_ok_iff.mp hread
    exact ⟨right, hv⟩
  · cases h

theorem parseAll_cases (melody : String) :
    (∃ notes, parseAll melody = .ok notes ∧
      ∀ n ∈ notes, ∃ part, WritesValue part n.value) ∨
      ∃ before unit after fault, Notation.units melody = before ++ unit :: after ∧
        (∀ u ∈ before, (parse u).isOk) ∧ parse unit = .error (.unit unit fault) ∧
          parseAll melody = .error (.unit unit fault) := by
  obtain ⟨notes, hall, hnotes⟩ | ⟨before, unit, after, e, hunits, hbefore, hunit, hall⟩ :=
    mapM_cases parse (Notation.units melody)
  · refine .inl ⟨notes, hall, ?_⟩
    intro n hn
    obtain ⟨i, hi, rfl⟩ := List.mem_iff_getElem.mp hn
    have hunit := hnotes.get (hnotes.length_eq.symm ▸ hi) hi
    exact value_of_parse hunit
  · obtain ⟨fault, rfl⟩ : ∃ fault, e = .unit unit fault := by
      rw [parse] at hunit
      split at hunit <;> cases hunit
      exact ⟨_, rfl⟩
    exact .inr ⟨before, unit, after, fault, hunits, hbefore, hunit, hall⟩

end WrittenNote

theorem numeral_repr (n : ℕ) : Numeral n.repr.toList n where
  ne_nil := by simp
  digits c hc := by
    rw [Nat.toList_repr] at hc
    exact Nat.isDigit_of_mem_toDigits (by omega) (by omega) hc
  value := by simp

theorem signedNumeral_repr (i : ℤ) : SignedNumeral i.repr.toList i := by
  cases i with
  | ofNat n => exact .plain (numeral_repr n)
  | negSucc n =>
    have h := SignedNumeral.minus (numeral_repr (n + 1))
    simpa [Int.repr, Int.negSucc_eq] using h

def IsSeparator (c : Char) : Prop := c = ' ' ∨ c = '/'

section Separators

variable {cs : List Char} {n : ℕ} {c : Char}

theorem IsSeparator.isDigit (hc : IsSeparator c) : c.isDigit = false := by
  cases hc with
  | inl h => simp [h]
  | inr h => simp [h]

theorem Numeral.not_mem (h : Numeral cs n) (hc : IsSeparator c) : c ∉ cs := by
  intro hmem
  have hdigit := h.digits c hmem
  simp [hc.isDigit] at hdigit

theorem SignedNumeral.not_mem {i : ℤ} (h : SignedNumeral cs i) (hc : IsSeparator c) : c ∉ cs := by
  have hplus : c ≠ '+' := by
    intro h
    simp [h, IsSeparator] at hc
  have hminus : c ≠ '-' := by
    intro h
    simp [h, IsSeparator] at hc
  cases h with
  | plain h => exact h.not_mem hc
  | plus h => simp [hplus, h.not_mem hc]
  | minus h => simp [hminus, h.not_mem hc]

theorem Spells.not_mem {p : PitchClass} (h : Spells cs p) (hc : IsSeparator c) : c ∉ cs := by
  have hname : ∀ d ∈ p.name.toList, ¬ IsSeparator d ∧ ¬ IsSeparator d.toLower := by
    cases p <;> simp [PitchClass.name, IsSeparator]
  intro hmem
  cases h with
  | inl h => exact (hname c (h ▸ hmem)).1 hc
  | inr h =>
    obtain ⟨d, hd, rfl⟩ := List.mem_map.mp (h ▸ hmem)
    exact (hname d hd).2 hc

theorem WritesPitch.not_mem {p : Option Pitch} (h : WritesPitch cs p) (hc : IsSeparator c) :
    c ∉ cs := by
  cases h with
  | rest =>
    intro hmem
    simp [IsSeparator, List.mem_singleton.mp hmem] at hc
  | tone hp ho hl hu => simp [hp.not_mem hc, ho.not_mem hc]

theorem WritesValue.not_mem {v : NoteValue} (h : WritesValue cs v) (hc : IsSeparator c) :
    c ∉ cs := by
  cases h with
  | plain hd hl hu => exact hd.not_mem hc
  | dotted hd hl hu hv =>
    have hdot : c ≠ '.' := by
      intro h
      simp [h, IsSeparator] at hc
    simp [hd.not_mem hc, hdot]

theorem writesNote_append {left right : List Char} {p : Option Pitch} {v : NoteValue}
    (hp : WritesPitch left p) (hv : WritesValue right v) : WritesNote (left ++ '/' :: right) p v :=
  ⟨left, right, rfl, hp.not_mem (.inr rfl), hv.not_mem (.inr rfl), hp, hv⟩

theorem WritesNote.blank_not_mem {p : Option Pitch} {v : NoteValue} (h : WritesNote cs p v) :
    ' ' ∉ cs := by
  obtain ⟨left, right, rfl, -, -, hp, hv⟩ := h
  have hblank : IsSeparator ' ' := .inl rfl
  simp [hp.not_mem hblank, hv.not_mem hblank]

end Separators

namespace Notation

/-- The part of a whole note that a division stands for, as numerator and denominator. A dot makes
it half as long again. -/
def lengthOf (division : ℕ) (dotted : Bool) : ℕ × ℕ :=
  if dotted then (3, 2 * division) else (1, division)

/-- A note to be written down: a rest or a pitch, whose letter may be small, and its length. -/
structure Item where
  pitch : Option Pitch
  small : Bool
  division : ℕ
  dotted : Bool
  one_le : 1 ≤ division
  fits : (lengthOf division dotted).2 < 2 ^ 64

namespace Item

def pitchText (i : Item) : String :=
  match i.pitch with
  | none => "_"
  | some p => if i.small then p.pitchClass.name.toLower ++ toString p.octave.toInt else p.name

def valueText (i : Item) : String :=
  toString i.division ++ if i.dotted then "." else ""

def text (i : Item) : String := i.pitchText ++ "/" ++ i.valueText

def melody (items : List Item) : String := " ".intercalate (items.map text)

structure Reads [Elementary] (i : Item) (n : WrittenNote) : Prop where
  text : n.text = i.text
  pitch : n.pitch = i.pitch
  value : n.value.Reduces (lengthOf i.division i.dotted).1 (lengthOf i.division i.dotted).2
  frequency : ∀ p ∈ i.pitch, ∃ f, n.tuned.frequency = some f ∧
    ∀ name : String, Spells name.toList p.pitchClass → Pitch.resolve name p.octave = .ok f

theorem writesPitch_pitchText (i : Item) : WritesPitch i.pitchText.toList i.pitch := by
  rw [pitchText]
  cases i.pitch with
  | none => simpa using WritesPitch.rest
  | some p =>
    have hlarge : Spells p.pitchClass.name.toList p.pitchClass := .inl rfl
    have hsmall : Spells p.pitchClass.name.toLower.toList p.pitchClass :=
      .inr (by simp [String.toLower])
    have hoctave := signedNumeral_repr p.octave.toInt
    cases i.small with
    | false => simpa [Pitch.name] using
        WritesPitch.tone hlarge hoctave p.octave.le_toInt p.octave.toInt_lt
    | true => simpa using WritesPitch.tone hsmall hoctave p.octave.le_toInt p.octave.toInt_lt

theorem exists_writesValue (i : Item) : ∃ v, WritesValue i.valueText.toList v ∧
    v.Reduces (lengthOf i.division i.dotted).1 (lengthOf i.division i.dotted).2 := by
  have hl := i.one_le
  have hfits := i.fits
  have hdigits := numeral_repr i.division
  rw [valueText]
  cases hdot : i.dotted with
  | false =>
    have hu : i.division < 2 ^ 64 := by simpa [lengthOf, hdot] using hfits
    refine ⟨⟨1, .ofNat i.division⟩, ?_, ?_, Nat.coprime_one_left _⟩
    · simpa using WritesValue.plain hdigits hl hu
    · simp [lengthOf, UInt64.toNat_ofNat_of_lt' hu]
  | true =>
    have hu : 2 * i.division < 2 ^ 64 := by simpa [lengthOf, hdot] using hfits
    have hthree : 3 < 2 ^ 64 := by omega
    have hr := (NoteValue.lowestTerms_eq_iff hthree hu (by omega)).mp rfl
    exact ⟨_, by simpa using WritesValue.dotted hdigits hl hu hr, hr⟩

theorem exists_writesNote (i : Item) : ∃ v, WritesNote i.text.toList i.pitch v ∧
    v.Reduces (lengthOf i.division i.dotted).1 (lengthOf i.division i.dotted).2 := by
  obtain ⟨v, hv, hr⟩ := i.exists_writesValue
  have h := writesNote_append i.writesPitch_pitchText hv
  exact ⟨v, by simpa [text] using h, hr⟩

variable [Elementary]

theorem resolve_of_spells {s : String} {p : Pitch} (h : Spells s.toList p.pitchClass) :
    Pitch.resolve s p.octave = .ok p.frequency := by
  rw [Pitch.resolve, PitchClass.ofName, PitchClass.named?_eq_some_iff.mpr h]
  rfl

theorem exists_parse_text (i : Item) : ∃ n, WrittenNote.parse i.text = .ok n ∧ i.Reads n := by
  obtain ⟨v, hv, hr⟩ := i.exists_writesNote
  refine ⟨⟨i.text, i.pitch, v⟩, ?_, rfl, rfl, hr, ?_⟩
  · rw [WrittenNote.parse, readUnit_eq_ok_iff.mpr hv]
  · intro p hp
    refine ⟨p.frequency, ?_, fun name hname ↦ resolve_of_spells hname⟩
    simp [WrittenNote.tuned, Option.mem_def.mp hp]

theorem reads_of_parse {i : Item} {n : WrittenNote} (h : WrittenNote.parse i.text = .ok n) :
    i.Reads n := by
  obtain ⟨m, hm, hread⟩ := i.exists_parse_text
  rw [hm] at h
  cases h
  exact hread

end Item

theorem units_melody {items : List Item} (h : items ≠ []) :
    units (Item.melody items) = items.map Item.text := by
  have hblank : ∀ l ∈ items.map fun i ↦ i.text.toList, ' ' ∉ l := by
    intro l hl
    obtain ⟨i, -, rfl⟩ := List.mem_map.mp hl
    obtain ⟨v, hv, -⟩ := i.exists_writesNote
    exact hv.blank_not_mem
  have hsplit := List.splitOn_intercalate ' ' hblank (by simpa using h)
  rw [units, Item.melody, String.toList_intercalate, List.map_map]
  exact (congrArg (List.map String.ofList) hsplit).trans (by simp)

end Notation

/-- A melody that has been written down is read back note by note. -/
theorem WrittenNote.parseAll_melody [Elementary] {items : List Notation.Item} (h : items ≠ []) :
    ∃ notes, WrittenNote.parseAll (Notation.Item.melody items) = .ok notes ∧
      List.Forall₂ Notation.Item.Reads items notes := by
  rw [parseAll, Notation.units_melody h]
  obtain ⟨notes, hall, hnotes⟩ | ⟨before, unit, after, e, hunits, -, hunit, -⟩ :=
    mapM_cases parse (items.map Notation.Item.text)
  · refine ⟨notes, hall, (List.forall₂_map_left_iff.mp hnotes).imp fun i n hn ↦ ?_⟩
    exact i.reads_of_parse hn
  · have hmem : unit ∈ items.map Notation.Item.text := by simp [hunits]
    obtain ⟨i, -, rfl⟩ := List.mem_map.mp hmem
    obtain ⟨n, hn, -⟩ := i.exists_parse_text
    rw [hunit] at hn
    cases hn

def refrain : List Notation.Item :=
  [⟨some ⟨.cSharp, -1⟩, true, 8, true, by decide, by decide⟩,
    ⟨none, false, 18446744073709551615, false, by decide, by decide⟩,
    ⟨some ⟨.b, .minValue⟩, false, 9223372036854775807, true, by decide, by decide⟩]

theorem parseAll_refrain : refrain ≠ [] ∧ Notation.Item.melody refrain =
      "c#-1/8. _/18446744073709551615 B-2147483648/9223372036854775807." ∧
    ∃ notes, WrittenNote.parseAll (Notation.Item.melody refrain) = .ok notes ∧
      List.Forall₂ Notation.Item.Reads refrain notes :=
  ⟨by simp [refrain], by cbv, WrittenNote.parseAll_melody (by simp [refrain])⟩

end Polyphony
