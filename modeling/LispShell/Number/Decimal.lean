import LispShell.Number.Binary64

/-! # Decimals
A decimal is `digits · 10 ^ exponent`. Reading takes it to the nearest double; `shortest` goes back:
on the coarsest decimal grid that has a number which reads as the double, it is the number nearest
to the double, a tie going to the even digit. -/

namespace LispShell

/-- The number `digits · 10 ^ exponent`. -/
structure Decimal where
  /-- The digits as a whole number. -/
  digits : Nat
  /-- The power of ten that multiplies them. -/
  exponent : Int
  deriving Repr, DecidableEq

namespace Decimal

/-- The magnitude bits of the double nearest to a decimal. Beyond the two bounds the power of ten
need not be computed: the number is above every finite double, or nearer to zero than to any other
one. -/
def toBits (d : Decimal) : Nat :=
  if d.digits = 0 then 0
  else if 308 < d.exponent then Binary64.infinity
  -- a number has no more decimal digits than a third of its binary ones, and one
  else if (Nat.log2 d.digits / 3 + 1 : Int) + d.exponent < -323 then 0
  else
    let (numerator, denominator) := Binary64.scale 10 d.exponent (d.digits, 1)
    Binary64.nearest numerator denominator

/-- The number of decimal digits of a whole number. -/
def length (n : Nat) : Nat :=
  (Nat.toDigits 10 n).length

/-- The exponent of the first decimal digit of a positive fraction. -/
def firstPlace (numerator denominator : Nat) : Int :=
  -- the quotient begins at the difference of the lengths or one place after it
  let guess : Int := length numerator - length denominator
  let (n, d) := Binary64.scale 10 (-guess) (numerator, denominator)
  if d ≤ n then guess else guess - 1

/-- The multiple of `10 ^ exponent` next to the fraction that reads as the given magnitude; of two
the nearer. -/
def onGrid? (bits numerator denominator : Nat) (exponent : Int) : Option Decimal :=
  let (n, d) := Binary64.scale 10 (-exponent) (numerator, denominator)
  let below : Decimal := ⟨n / d, exponent⟩
  let above : Decimal := ⟨n / d + 1, exponent⟩
  -- of all numbers on the grid only the two neighbours of the fraction can be the nearest
  if below.toBits = bits then
    if above.toBits = bits then some ⟨Binary64.roundHalfEven n d, exponent⟩ else some below
  else if above.toBits = bits then some above
  else none

/-- A finite magnitude written out in full. -/
def exact (bits : Nat) : Decimal :=
  let (mantissa, exponent) := Binary64.decode bits
  if 0 ≤ exponent then ⟨mantissa * Nat.pow 2 exponent.toNat, 0⟩
  else ⟨mantissa * Nat.pow 5 (-exponent).toNat, exponent⟩

/-- The shortest decimal that reads as the positive finite magnitude. Seventeen digits are always
enough. -/
def shortest (bits : Nat) : Decimal :=
  let (numerator, denominator) := Binary64.toFraction bits
  let first := firstPlace numerator denominator
  ((List.range 17).findSome? fun (later : Nat) =>
    onGrid? bits numerator denominator (first - later)).getD (exact bits)

end Decimal

end LispShell
