import Stencil.Text.Basic

/-!
# Decimals

A decimal is a sign, a whole number and a power of ten. It is what a written number says before it
is rounded to a binary float; the rounding is to the nearest, ties to the even neighbour.
-/

namespace Stencil

/-- The number `± mantissa · 10 ^ exponent`. -/
structure Decimal where
  /-- Whether the number has a minus sign; zero may have one. -/
  negative : Bool
  /-- The digits as a whole number. -/
  mantissa : Nat
  /-- The power of ten. -/
  exponent : Int
deriving DecidableEq, Repr

/-- The whole number a list of decimal digits stands for. -/
def natOfDigits (digits : Text) : Nat :=
  digits.foldl (fun n c => 10 * n + (c.toNat - '0'.toNat)) 0

/-- The number of decimal digits of `n`. -/
def digitCount (n : Nat) : Nat := (Nat.toDigits 10 n).length

namespace Decimal

/-- The positive infinity. -/
def infinity : Float := 1.0 / 0.0

/-- The float that is no number. -/
def notANumber : Float := 0.0 / 0.0

/-- The float nearest to the size of the decimal. A size beyond `10 ^ 310` is infinite and one
below `10 ^ (-330)` is zero, so that no power of ten is computed for an absurd exponent. -/
def magnitude (d : Decimal) : Float :=
  let top := (digitCount d.mantissa : Int) + d.exponent
  if d.mantissa = 0 then 0.0
  else if 310 < top then infinity
  else if top < -330 then 0.0
  else Float.ofScientific d.mantissa (decide (d.exponent < 0)) d.exponent.natAbs

/-- The float nearest to the decimal. -/
def toFloat (d : Decimal) : Float :=
  if d.negative then -d.magnitude else d.magnitude

end Decimal

end Stencil
