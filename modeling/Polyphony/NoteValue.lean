namespace Polyphony

inductive ArithmeticFault
  | productOverflow
  | sumOverflow
  | zeroDivisor
  deriving DecidableEq, Repr

def ArithmeticFault.message : ArithmeticFault → String
  | productOverflow => "attempt to multiply with overflow"
  | sumOverflow => "attempt to add with overflow"
  | zeroDivisor => "attempt to divide by zero"

def times? (a b : UInt64) : Option UInt64 :=
  if a.toNat * b.toNat < UInt64.size then some (a * b) else none

def plus? (a b : UInt64) : Option UInt64 :=
  if a.toNat + b.toNat < UInt64.size then some (a + b) else none

def quotient (a b : UInt64) : Except ArithmeticFault UInt64 :=
  if b = 0 then .error .zeroDivisor else .ok (a / b)

def commonDivisor (a b : UInt64) : UInt64 :=
  if b = 0 then a else commonDivisor b (a % b)
termination_by b.toNat
decreasing_by
  rename_i h
  rw [UInt64.toNat_mod]
  exact Nat.mod_lt _ (Nat.pos_of_ne_zero fun hb ↦ h (UInt64.toNat_inj.1 hb))

/-- A length of time as a fraction of a whole note, so that sums of lengths stay exact. -/
structure NoteValue where
  numerator : UInt64
  denominator : UInt64
  deriving DecidableEq, Repr

namespace NoteValue

def zero : NoteValue := ⟨0, 1⟩
def whole : NoteValue := ⟨1, 1⟩
def half : NoteValue := ⟨1, 2⟩
def quarter : NoteValue := ⟨1, 4⟩
def eighth : NoteValue := ⟨1, 8⟩
def sixteenth : NoteValue := ⟨1, 16⟩
def dottedQuarter : NoteValue := ⟨3, 8⟩
def dottedEighth : NoteValue := ⟨3, 16⟩

def ofDivision? (n : UInt64) : Option NoteValue :=
  if n = 0 then none else some ⟨1, n⟩

def lowestTerms (v : NoteValue) : NoteValue :=
  let d := commonDivisor v.numerator v.denominator
  if d = 0 then v else ⟨v.numerator / d, v.denominator / d⟩

def dotted? (v : NoteValue) : Option NoteValue := do
  let n ← times? v.numerator 3
  let d ← times? v.denominator 2
  return lowestTerms ⟨n, d⟩

def dotted (v : NoteValue) : Except ArithmeticFault NoteValue :=
  if v.numerator.toNat * 3 < UInt64.size ∧ v.denominator.toNat * 2 < UInt64.size then
    .ok (lowestTerms ⟨v.numerator * 3, v.denominator * 2⟩)
  else .error .productOverflow

/-- The length in quarter notes. -/
def beats (v : NoteValue) : Float :=
  4.0 * v.numerator.toFloat / v.denominator.toFloat

def addOver? (left right common : UInt64) : Option NoteValue :=
  (plus? left right).map fun n ↦ lowestTerms ⟨n, common⟩

/-- The sum over the least common denominator, in lowest terms; nothing where it does not fit. -/
def add? (v w : NoteValue) : Except ArithmeticFault (Option NoteValue) := do
  let share ← quotient v.denominator (commonDivisor v.denominator w.denominator)
  match times? share w.denominator with
  | none => return none
  | some common =>
    match times? v.numerator (← quotient common v.denominator) with
    | none => return none
    | some left =>
      match times? w.numerator (← quotient common w.denominator) with
      | none => return none
      | some right => return addOver? left right common

end NoteValue

end Polyphony
