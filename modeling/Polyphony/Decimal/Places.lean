import Polyphony.Number.Rounding
import Polyphony.Decimal.Exact

namespace Polyphony.Decimal

/-- Sets the point `places` digits from the right, with zeros in front where digits are missing. -/
def placePoint (digits : List Char) (places : Nat) : List Char :=
  let padded := List.replicate (places + 1 - digits.length) '0' ++ digits
  let whole := padded.length - places
  if places = 0 then padded
  else padded.take whole ++ '.' :: padded.drop whole

/-- The exact value rounded to `places` decimals, ties to even. -/
def Exact.inPlaces (places : Nat) (v : Exact) : String :=
  let units := nearestEven (v.num * Nat.pow 10 places) v.den
  String.ofList (placePoint (Nat.toDigits 10 units) places)

def fixed (places : Nat) (x : Float) : String :=
  signed x (Exact.inPlaces places)

end Polyphony.Decimal
