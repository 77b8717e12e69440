/-! # Double precision
The magnitude of a double is kept as its 63 low bits, and all conversions are exact arithmetic on
natural numbers: `decode` gives a finite magnitude as `mantissa · 2 ^ exponent`, and `nearest` gives
the magnitude nearest to a fraction, a tie going to the even mantissa. -/

namespace LispShell.Binary64

/-- The weight of the sign bit. -/
def signBit : Nat := 0x8000000000000000

/-- The weight of the lowest exponent bit; a mantissa has as many values below its leading bit. -/
def leadingBit : Nat := 0x10000000000000

/-- The magnitude bits of infinity; greater ones are not numbers. -/
def infinity : Nat := 0x7ff0000000000000

/-- The magnitude bits of a double. -/
def magnitude (x : Float) : Nat :=
  x.toBits.toNat % signBit

/-- The sign bit of a double. -/
def isNegative (x : Float) : Bool :=
  signBit ≤ x.toBits.toNat

/-- The double with the given sign and magnitude bits. -/
def ofParts (negative : Bool) (bits : Nat) : Float :=
  .ofBits (.ofNat (bits + if negative then signBit else 0))

/-- Whether the double is neither infinite nor NaN. -/
def isFinite (x : Float) : Bool :=
  magnitude x < infinity

/-- A finite magnitude as `mantissa · 2 ^ exponent`. -/
def decode (bits : Nat) : Nat × Int :=
  let biased : Nat := bits / leadingBit
  -- without an exponent field the leading bit is not implied
  if biased = 0 then (bits, -1074) else (bits % leadingBit + leadingBit, (biased : Int) - 1075)

/-- The fraction `numerator / denominator` times `base ^ exponent`, as a fraction. -/
def scale (base : Nat) (exponent : Int) (fraction : Nat × Nat) : Nat × Nat :=
  if 0 ≤ exponent then (fraction.1 * Nat.pow base exponent.toNat, fraction.2)
  else (fraction.1, fraction.2 * Nat.pow base (-exponent).toNat)

/-- A finite magnitude as a fraction. -/
def toFraction (bits : Nat) : Nat × Nat :=
  let (mantissa, exponent) := decode bits
  scale 2 exponent (mantissa, 1)

/-- The quotient rounded to the nearest whole number, a tie going to the even one. -/
def roundHalfEven (numerator denominator : Nat) : Nat :=
  let quotient := numerator / denominator
  let twice := 2 * (numerator % denominator)
  if twice < denominator then quotient
  else if denominator < twice then quotient + 1
  else quotient + quotient % 2

/-- The exponent of the last place of the doubles next to a positive fraction. -/
def lastPlace (numerator denominator : Nat) : Int :=
  -- the binary lengths tell the place up to one
  let low := max ((Nat.log2 numerator : Int) - Nat.log2 denominator - 53) (-1074)
  let (n, d) := scale 2 (-low) (numerator, denominator)
  if 2 * leadingBit ≤ n / d then low + 1 else low

/-- The bits of the magnitude nearest to a fraction; beyond the greatest finite one it is
infinity. -/
def nearest (numerator denominator : Nat) : Nat :=
  if numerator = 0 then 0
  else
    let place := lastPlace numerator denominator
    let (n, d) := scale 2 (-place) (numerator, denominator)
    -- the leading bit of the mantissa, or a carry out of it, adds one to the exponent field
    min ((place + 1074).toNat * leadingBit + roundHalfEven n d) infinity

end LispShell.Binary64
