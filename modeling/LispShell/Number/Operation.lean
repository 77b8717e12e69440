import LispShell.Number.Binary64

/-! # Operations on numbers
The remainder, the power and the conversion to whole numbers of doubles. Sum, difference, product,
quotient and order are those of `Float`: a quotient by zero is infinite with the sign of its
operands, and not a number for zero by zero. -/

namespace LispShell.Number

/-- What is not a number. -/
def nan : Float := 0 / 0

/-- Infinity with a sign. -/
def signedInfinity (negative : Bool) : Float :=
  Binary64.ofParts negative Binary64.infinity

/-- The whole part of a finite double, its fraction dropped. -/
def truncate (x : Float) : Int :=
  let (numerator, denominator) := Binary64.toFraction (Binary64.magnitude x)
  let whole : Int := numerator / denominator
  if Binary64.isNegative x then -whole else whole

/-- Whether a double is a whole number. -/
def isWhole (x : Float) : Bool :=
  let (numerator, denominator) := Binary64.toFraction (Binary64.magnitude x)
  Binary64.isFinite x && numerator % denominator == 0

/-- Whether a double is an odd whole number. -/
def isOdd (x : Float) : Bool :=
  isWhole x && truncate x % 2 == 1

/-- The remainder of the magnitudes of a finite dividend and a finite divisor other than zero, which
is exact. -/
def remainderBits (dividend divisor : Nat) : Nat :=
  let (a, b) := Binary64.toFraction dividend
  let (c, d) := Binary64.toFraction divisor
  -- over a common denominator the remainder is one of whole numbers
  Binary64.nearest (a * d % (c * b)) (b * d)

/-- The remainder with the sign of the dividend; not a number for an infinite dividend or the
divisor zero. -/
def remainder (x y : Float) : Float :=
  if x.isNaN || y.isNaN || !Binary64.isFinite x || Binary64.magnitude y == 0 then nan
  else if !Binary64.isFinite y then x
  else
    Binary64.ofParts (Binary64.isNegative x)
      (remainderBits (Binary64.magnitude x) (Binary64.magnitude y))

/-- The power with an infinite base. -/
def powerOfInfinity (base exponent : Float) : Float :=
  if 0 < exponent then if isOdd exponent then base else signedInfinity false
  else if exponent == 0 then 1
  else Binary64.ofParts (Binary64.isNegative base && isOdd exponent) 0

/-- The power with a finite base and an infinite exponent. -/
def powerToInfinity (base exponent : Float) : Float :=
  if base.abs == 1 then 1
  else if decide (0 < exponent) == decide (1 < base.abs) then signedInfinity false
  else 0

/-- Why there is no power. -/
inductive PowerFault where
  /-- The base and the exponent are outside the domain of powers, or at one of its poles. -/
  | domain
  /-- The power is beyond the greatest double. -/
  | overflow
  deriving Repr, DecidableEq

/-- The power of finite doubles that the platform computes, unless that tells a fault. -/
def finitePower (platform : Float → Float → Float) (base exponent : Float) :
    Except PowerFault Float :=
  let value := platform base exponent
  if value.isNaN then .error .domain
  else if Binary64.isFinite value then .ok value
  -- an infinite power of zero is a pole and any other one an overflow
  else .error (if base == 0 then .domain else .overflow)

/-- The power of two doubles, unless there is none. -/
def checkedPower (platform : Float → Float → Float) (base exponent : Float) :
    Except PowerFault Float :=
  if base.isNaN then .ok (if exponent == 0 then 1 else base)
  else if exponent.isNaN then .ok (if base == 1 then 1 else exponent)
  else if !Binary64.isFinite base then .ok (powerOfInfinity base exponent)
  else if !Binary64.isFinite exponent then .ok (powerToInfinity base exponent)
  else finitePower platform base exponent

/-- The power of two doubles, by way of how the platform computes those of finite ones. It is not a
number where the domain of powers ends, and infinite with the sign of the true value beyond the
greatest double. -/
def powerBy (platform : Float → Float → Float) (base exponent : Float) : Float :=
  match checkedPower platform base exponent with
  | .ok value => value
  | .error .domain => nan
  | .error .overflow => signedInfinity (base < 0 && isOdd exponent)

/-- The power of two doubles. -/
def power (base exponent : Float) : Float :=
  powerBy Float.pow base exponent

end LispShell.Number
