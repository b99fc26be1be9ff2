namespace Polyphony.Decimal

/-- The exact value `mantissa * 2 ^ exponent` of a finite number without its sign. -/
structure Exact where
  mantissa : Nat
  exponent : Int
  /-- The gap to the number below is half the gap to the number above. -/
  narrowBelow : Bool

def Exact.ofFloat (x : Float) : Exact :=
  let bits := x.toBits.toNat % Nat.pow 2 63
  let e : Nat := bits / Nat.pow 2 52
  let f : Nat := bits % Nat.pow 2 52
  if e = 0 then ⟨f, -1074, false⟩
  else ⟨Nat.pow 2 52 + f, e - 1075, f = 0 ∧ 1 < e⟩

namespace Exact

variable (v : Exact)

def num : Nat := v.mantissa * Nat.pow 2 v.exponent.toNat

def den : Nat := Nat.pow 2 (-v.exponent).toNat

end Exact

/-- The sign and the texts of what is no finite number, around the text of a magnitude. -/
def signed (x : Float) (magnitude : Exact → String) : String :=
  if x.isNaN then "NaN"
  else
    let sign := if Nat.pow 2 63 ≤ x.toBits.toNat then "-" else ""
    sign ++ if x.isFinite then magnitude (.ofFloat x) else "inf"

end Polyphony.Decimal
