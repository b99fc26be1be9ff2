namespace Polyphony

/-- The larger of two numbers. Where one of them is not a number it is the other, and of two
equal ones it is the second. -/
def larger (a b : Float) : Float :=
  if b.isNaN || b < a then a else b

def smaller (a b : Float) : Float :=
  if b.isNaN || a < b then a else b

/-- The place of `x` in the total order of all floating point numbers, in which `-0` stands
before `0`. -/
def orderKey (x : Float) : Int :=
  let bits := x.toBits.toNat
  if bits < Nat.pow 2 63 then bits else Nat.pow 2 63 - 1 - bits

end Polyphony
