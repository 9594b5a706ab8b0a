namespace Terrarium.Single

/-- The larger of two numbers; of equal ones, such as zeros of both signs, the second. An operand
that is no number gives way to the other one. -/
def larger (x y : Float32) : Float32 := if y.isNaN || y < x then x else y

/-- The smaller of two numbers; of equal ones the first. An operand that is no number gives way to
the other one. -/
def smaller (x y : Float32) : Float32 := if x.isNaN || y < x then y else x

/-- Holds `x` between `low` and `high`. What is no number is in no order with the bounds and
stays as it is. -/
def clamp (x low high : Float32) : Float32 :=
  if x < low then low else if high < x then high else x

/-- From here on every number is whole. -/
def wholeFrom : Float32 := 8388608

/-- The whole number at or above `x`, up to the sign of a zero. -/
def ceil (x : Float32) : Float32 :=
  if x.abs < wholeFrom then
    let whole := x.abs.toUInt32.toFloat32
    if x < 0 then -whole else if whole < x then whole + 1 else whole
  else x

/-- The magnitude of `x` rounded to a whole number, halves upwards. -/
def roundMagnitude (x : Float32) : Nat :=
  let whole := x.abs.toUInt64
  if x.abs < wholeFrom ∧ 0.5 ≤ x.abs - whole.toFloat32 then whole.toNat + 1 else whole.toNat

/-- The whole number nearest to `x`, halves going away from zero, held in the range of a signed
64-bit word; what is no number gives zero. -/
def round (x : Float32) : Int :=
  if x < 0 then max (-(roundMagnitude x : Int)) (-(Nat.pow 2 63 : Nat))
  else min (roundMagnitude x : Int) (Nat.pow 2 63 - 1 : Nat)

/-- The square of a number times the number. -/
def cube (x : Float32) : Float32 := x * x * x

/-- The point at fraction `t` of the way from `a` to `b`. -/
def interpolate (a b t : Float32) : Float32 := a + (b - a) * t

end Terrarium.Single
