namespace Polyphony.Text

/-- One or more ASCII digits. -/
def isNumeral (cs : List Char) : Bool :=
  !cs.isEmpty && cs.all Char.isDigit

def natural? (cs : List Char) : Option Nat :=
  if isNumeral cs then some (Nat.ofDigitChars 10 cs 0) else none

def integer? : List Char → Option Int
  | '-' :: cs => (natural? cs).map fun n ↦ -(n : Int)
  | '+' :: cs => (natural? cs).map Int.ofNat
  | cs => (natural? cs).map Int.ofNat

def word64? (cs : List Char) : Option UInt64 :=
  (natural? cs).bind fun n ↦ if n < UInt64.size then some (UInt64.ofNat n) else none

def int32? (cs : List Char) : Option Int32 :=
  (integer? cs).bind fun n ↦
    if Int32.minValue.toInt ≤ n ∧ n ≤ Int32.maxValue.toInt then some (Int32.ofInt n) else none

inductive NumeralFault
  | empty
  | strayCharacter
  | tooLarge
  deriving DecidableEq, Repr

def NumeralFault.message : NumeralFault → String
  | empty => "cannot parse integer from empty string"
  | strayCharacter => "invalid digit found in string"
  | tooLarge => "number too large to fit in target type"

/-- Reads digits from the left; the first character that breaks the numeral decides the fault. -/
def readDigits : List Char → Nat → Except NumeralFault Nat
  | [], n => .ok n
  | c :: cs, n =>
    if !c.isDigit then .error .strayCharacter
    else
      let next := 10 * n + (c.toNat - '0'.toNat)
      if next < UInt32.size then readDigits cs next else .error .tooLarge

/-- An unsigned 32-bit numeral. A plus sign may stand in front of its digits. -/
def word32 (cs : List Char) : Except NumeralFault UInt32 :=
  match cs with
  | [] => .error .empty
  | ['+'] => .error .strayCharacter
  | '+' :: ds => (readDigits ds 0).map UInt32.ofNat
  | ds => (readDigits ds 0).map UInt32.ofNat

end Polyphony.Text
