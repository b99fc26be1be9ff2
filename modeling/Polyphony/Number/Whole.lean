namespace Polyphony

/-- The sign bit, which zeros carry too. -/
def isNegative (x : Float) : Bool :=
  decide (Nat.pow 2 63 ≤ x.toBits.toNat)

def withSign (x magnitude : Float) : Float :=
  if isNegative x then -magnitude else magnitude

/-- From here on every finite number is whole. -/
def wholeFrom : Float := 4503599627370496.0

/-- The whole part, cut off towards zero. It keeps the sign, also that of zero. -/
def wholePart (x : Float) : Float :=
  if x.abs < wholeFrom then withSign x x.abs.toUInt64.toFloat else x

/-- What `wholePart` cuts off; not a number when `x` is infinite. -/
def fraction (x : Float) : Float :=
  x - wholePart x

/-- The whole number nearest to `x`; a half goes away from zero. -/
def nearestWhole (x : Float) : Float :=
  if x.abs < wholeFrom then
    let below := x.abs.toUInt64.toFloat
    withSign x (if 0.5 ≤ x.abs - below then below + 1.0 else below)
  else x

/-- `x` less a whole number of cycles, in `[0, 1]`. The upper end is reached from just below a
whole number, where adding the cycle back rounds up, and a whole `x` gives a zero of its sign. -/
def withinCycle (x : Float) : Float :=
  let rest := fraction x
  let rest := if rest == 0.0 then withSign x 0.0 else rest
  if rest < 0.0 then rest + 1.0 else rest

end Polyphony
