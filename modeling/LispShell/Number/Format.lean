import LispShell.Number.Decimal

/-! # Number texts
The text of a double: the digits of its shortest decimal in positional notation, without an
exponent, without zeros at the end of a fraction and without a point before no fraction. -/

namespace LispShell

namespace Decimal

/-- The digits of a whole number. -/
def wholeText (n : Nat) : List Char :=
  Nat.toDigits 10 n

/-- The last `width` decimal digits of a whole number, with zeros in front where it has fewer. -/
def fixedText (width : Nat) (n : Nat) : List Char :=
  match width with
  | 0 => []
  | width + 1 => fixedText width (n / 10) ++ [Nat.digitChar (n % 10)]

/-- A fraction without the zeros at its end, after a point if anything is left. -/
def fractionText (digits : List Char) : List Char :=
  match (digits.reverse.dropWhile (· == '0')).reverse with
  | [] => []
  | kept => '.' :: kept

/-- Positional notation. -/
def positional (d : Decimal) : List Char :=
  if 0 ≤ d.exponent then wholeText (d.digits * Nat.pow 10 d.exponent.toNat)
  else
    let places := (-d.exponent).toNat
    wholeText (d.digits / Nat.pow 10 places) ++ fractionText (fixedText places d.digits)

end Decimal

/-- The text of a number. -/
def formatNumber (x : Float) : String :=
  let bits := Binary64.magnitude x
  if Binary64.infinity < bits then "NaN"
  else
    let digits :=
      if bits = Binary64.infinity then "inf".toList
      else if bits = 0 then ['0']
      else (Decimal.shortest bits).positional
    String.ofList (if Binary64.isNegative x then '-' :: digits else digits)

end LispShell
