import Polyphony.Notation
import Polyphony.Proofs.Notation.NoteValue

namespace Polyphony

-- The arithmetic of note values once more, with every step that may leave its words as one that
-- can fail.
namespace Guarded

def remainder (a b : UInt64) : Except ArithmeticFault UInt64 :=
  if b = 0 then .error .zeroDivisor else .ok (a % b)

def commonDivisor (a b : UInt64) : Except ArithmeticFault UInt64 :=
  if b = 0 then .ok a
  else
    match _h : remainder a b with
    | .error f => .error f
    | .ok r => commonDivisor b r
termination_by b.toNat
decreasing_by
  rename_i hb
  rw [remainder, if_neg hb] at _h
  cases _h
  rw [UInt64.toNat_mod]
  exact Nat.mod_lt _ (Nat.pos_of_ne_zero (toNat_ne_zero.mpr hb))

def lowestTerms (v : NoteValue) : Except ArithmeticFault NoteValue := do
  let d ← commonDivisor v.numerator v.denominator
  if d = 0 then return v
  else return ⟨← quotient v.numerator d, ← quotient v.denominator d⟩

def dotted? (v : NoteValue) : Except ArithmeticFault (Option NoteValue) :=
  match times? v.numerator 3, times? v.denominator 2 with
  | some n, some d => (lowestTerms ⟨n, d⟩).map some
  | _, _ => .ok none

def addOver? (left right common : UInt64) : Except ArithmeticFault (Option NoteValue) :=
  match plus? left right with
  | none => .ok none
  | some n => (lowestTerms ⟨n, common⟩).map some

def add? (v w : NoteValue) : Except ArithmeticFault (Option NoteValue) := do
  let share ← quotient v.denominator (← commonDivisor v.denominator w.denominator)
  match times? share w.denominator with
  | none => return none
  | some common =>
    match times? v.numerator (← quotient common v.denominator) with
    | none => return none
    | some left =>
      match times? w.numerator (← quotient common w.denominator) with
      | none => return none
      | some right => addOver? left right common

def readValue? (part : List Char) : Except ArithmeticFault (Option NoteValue) :=
  let (digits, dot) := Notation.splitDot part
  match (Text.word64? digits).bind NoteValue.ofDivision? with
  | none => .ok none
  | some v => if dot then dotted? v else .ok (some v)

theorem commonDivisor_eq (a b : UInt64) : commonDivisor a b = .ok (Polyphony.commonDivisor a b) := by
  induction a, b using Polyphony.commonDivisor.induct with
  | case1 a => simp [commonDivisor, Polyphony.commonDivisor]
  | case2 a b h ih =>
    have hr : remainder a b = .ok (a % b) := if_neg h
    rw [commonDivisor, if_neg h, Polyphony.commonDivisor, if_neg h, ← ih]
    split
    · next hf =>
      rw [hr] at hf
      cases hf
    · next r hf =>
      rw [hr] at hf
      cases hf
      rfl

theorem lowestTerms_eq (v : NoteValue) : lowestTerms v = .ok v.lowestTerms := by
  rw [lowestTerms, commonDivisor_eq, NoteValue.lowestTerms]
  simp only [bind, Except.bind, pure, Except.pure]
  split
  · rfl
  · next hd => rw [quotient, if_neg hd, quotient, if_neg hd]

theorem dotted?_eq (v : NoteValue) : dotted? v = .ok v.dotted? := by
  rw [dotted?, NoteValue.dotted?]
  cases times? v.numerator 3 with
  | none => rfl
  | some n =>
    cases times? v.denominator 2 with
    | none => rfl
    | some d =>
      simp only [lowestTerms_eq]
      rfl

theorem addOver?_eq (left right common : UInt64) :
    addOver? left right common = .ok (NoteValue.addOver? left right common) := by
  rw [addOver?, NoteValue.addOver?]
  cases plus? left right with
  | none => rfl
  | some n =>
    simp only [lowestTerms_eq]
    rfl

/-- Apart from what the divisors of a sum may do, nothing in it can fail. -/
theorem add?_eq (v w : NoteValue) : add? v w = v.add? w := by
  rw [add?, NoteValue.add?, commonDivisor_eq]
  simp only [addOver?_eq]
  rfl

theorem readValue?_eq (part : List Char) :
    readValue? part = .ok (Notation.readValue? part) := by
  rw [readValue?, Notation.readValue?]
  obtain ⟨digits, dot⟩ := Notation.splitDot part
  simp only [dotted?_eq]
  cases (Text.word64? digits).bind NoteValue.ofDivision? with
  | none => rfl
  | some v => cases dot <;> rfl

end Guarded

namespace Notation

def nameEnd : List Char → ℕ
  | [] => 0
  | c :: '#' :: _ => c.utf8Size + '#'.utf8Size
  | c :: _ => c.utf8Size

/-- The end of the name lies between two characters, and the name is what is in front of it. -/
theorem splitPitch_at_nameEnd {part name octave : List Char}
    (h : splitPitch part = some (name, octave)) :
    part = name ++ octave ∧ (String.ofList name).utf8ByteSize = nameEnd part := by
  rw [splitPitch.eq_def] at h
  split at h
  · cases h
  · cases h
    refine ⟨rfl, ?_⟩
    simp [nameEnd]
    rfl
  · next c octave hsharp =>
    cases h
    refine ⟨rfl, ?_⟩
    rw [nameEnd.eq_3 c octave hsharp]
    simp

theorem isValid_nameEnd (part : List Char) :
    (String.Pos.Raw.mk (nameEnd part)).IsValid (String.ofList part) := by
  cases hsplit : splitPitch part with
  | none =>
    obtain rfl : part = [] := by
      rw [splitPitch.eq_def] at hsplit
      split at hsplit
      · rfl
      · cases hsplit
      · cases hsplit
    simp [nameEnd]
  | some parts =>
    obtain ⟨hpart, hsize⟩ := splitPitch_at_nameEnd hsplit
    refine String.Pos.Raw.isValid_iff_exists_append.mpr
      ⟨String.ofList parts.1, String.ofList parts.2, ?_, ?_⟩
    · rw [hpart, String.ofList_append]
    · exact String.Pos.Raw.ext hsize.symm

end Notation

def FitsWord (i : ℤ) : Prop := -2 ^ 63 ≤ i ∧ i < 2 ^ 63

theorem PitchClass.index_lt (p : PitchClass) : p.index < 12 := by
  cases p <;> decide

theorem Pitch.fitsWord_semitones (p : Pitch) :
    FitsWord ((p.pitchClass.index : ℤ) - 9) ∧ FitsWord (p.octave.toInt - 4) ∧
      FitsWord ((p.octave.toInt - 4) * 12) ∧ FitsWord p.semitones := by
  have hindex := p.pitchClass.index_lt
  have hl := p.octave.le_toInt
  have hu := p.octave.toInt_lt
  simp only [FitsWord, semitones]
  omega

end Polyphony
