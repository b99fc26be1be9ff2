namespace Polyphony

/-- The two elementary functions that tones are made of. Their last digits belong to the
library of the machine, so whatever holds for every instance does not depend on them. -/
class Elementary where
  sin : Float → Float
  exp2 : Float → Float

instance : Elementary where
  sin := Float.sin
  exp2 x := Float.pow 2.0 x

/-- `2 ^ x`: infinite from 1024 on, zero where it is at most half the least positive number. -/
def twoTo [Elementary] (x : Float) : Float :=
  if 1024.0 ≤ x then 1.0 / 0.0
  else if x ≤ -1075.0 then 0.0
  else Elementary.exp2 x

end Polyphony
