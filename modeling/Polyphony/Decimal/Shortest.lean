import Polyphony.Decimal.Places

namespace Polyphony.Decimal

/-- The number `digits * 10 ^ exponent`. -/
structure Digits where
  digits : Nat
  exponent : Int

namespace Digits

def num (d : Digits) : Nat := d.digits * Nat.pow 10 d.exponent.toNat

def den (d : Digits) : Nat := Nat.pow 10 (-d.exponent).toNat

def trim : Nat → Digits → Digits
  | 0, d => d
  | n + 1, d =>
    if d.digits ≠ 0 ∧ d.digits % 10 = 0 then trim n ⟨d.digits / 10, d.exponent + 1⟩ else d

def positional (d : Digits) : String :=
  let written := Nat.toDigits 10 d.digits
  String.ofList <|
    if 0 ≤ d.exponent then written ++ List.replicate d.exponent.toNat '0'
    else placePoint written (-d.exponent).toNat

end Digits

namespace Exact

variable (v : Exact)

/-- `d` lies among the reals that round to the value: between the midpoints to its two
neighbours, which belong to it when the mantissa is even. -/
def readsBack (d : Digits) : Bool :=
  let below := (4 * v.mantissa - if v.narrowBelow then 1 else 2) * Nat.pow 2 v.exponent.toNat * d.den
  let above := (4 * v.mantissa + 2) * Nat.pow 2 v.exponent.toNat * d.den
  let here := 4 * d.num * v.den
  if v.mantissa % 2 = 0 then below ≤ here ∧ here ≤ above else below < here ∧ here < above

/-- The least `p` with a value below `10 ^ p`. -/
def scale : Int :=
  if v.den ≤ v.num then (Nat.toDigits 10 (v.num / v.den)).length
  else 1 - (Nat.toDigits 10 ((v.den - 1) / v.num)).length

/-- The nearest of the numbers with `n` digits that read back; of two equally near ones the
larger. -/
def withDigits? (n : Nat) : Option Digits :=
  let k := v.scale - n
  let unit : Digits := ⟨1, k⟩
  let below := v.num * unit.den / (v.den * unit.num)
  let lower : Digits := ⟨below, k⟩
  let upper : Digits := ⟨below + 1, k⟩
  match v.readsBack lower, v.readsBack upper with
  | false, false => none
  | true, false => some lower
  | false, true => some upper
  | true, true =>
    if 2 * v.num * unit.den < (2 * below + 1) * (v.den * unit.num) then some lower
    else some upper

/-- Seventeen digits always read back; the last line keeps the search total. -/
def shortestDigits : Digits :=
  match (List.range 17).findSome? (fun n ↦ v.withDigits? (n + 1)) with
  | some d => d.trim 17
  | none => ⟨v.num * Nat.pow 5 (-v.exponent).toNat, min v.exponent 0⟩

def inFewest : String :=
  if v.mantissa = 0 then "0" else v.shortestDigits.positional

end Exact

def shortest (x : Float) : String :=
  signed x Exact.inFewest

end Polyphony.Decimal
