import Polyphony.Number.Rounding

namespace Polyphony

def infinityBits : Nat := 0x7f800000

/-- The magnitude bits, in single precision, of the number with the magnitude bits `bits` in
double precision: rounded to nearest, ties to even, infinite where that is too large. -/
def narrowMagnitude (bits : Nat) : Nat :=
  let e := bits / Nat.pow 2 52
  let f := bits % Nat.pow 2 52
  if e = 2047 then
    if f = 0 then infinityBits else 0x7fc00000
  else if 897 ≤ e then
    min ((e - 897) * Nat.pow 2 23 + nearestEven (Nat.pow 2 52 + f) (Nat.pow 2 29)) infinityBits
  else if e = 0 then 0
  else nearestEven (Nat.pow 2 52 + f) (Nat.pow 2 (926 - e))

def narrow (x : Float) : Float32 :=
  let bits := x.toBits.toNat
  let sign := if Nat.pow 2 63 ≤ bits then Nat.pow 2 31 else 0
  Float32.ofBits (UInt32.ofNat (sign + narrowMagnitude (bits % Nat.pow 2 63)))

/-- A sample is cut at full level, and what is not a number is left alone. -/
def clip (x : Float32) : Float32 :=
  if x < -1.0 then -1.0 else if 1.0 < x then 1.0 else x

end Polyphony
