import LispShell.Number.Decimal
import LispShell.Text.Digit

/-! # Numerals
The texts that stand for numbers: an optional sign and then decimal digits of any script with at
most one point and an optional exponent, or one of the words `inf`, `infinity` and `nan` in any
case. Case is folded as for all letters, so the dotless and the dotted `i` of Turkish pass for an
`i`, but a word spelled with one of them names no number. -/

namespace LispShell

/-- A text of the form of a number. -/
inductive Numeral where
  /-- Digits, perhaps with a point or an exponent. -/
  | decimal (negative : Bool) (value : Decimal)
  /-- The word for infinity. -/
  | infinity (negative : Bool)
  /-- The word for what is not a number. -/
  | nan
  /-- A word that passes for one of the others only by its case folding. -/
  | lookalike
  deriving Repr, DecidableEq

/-- Why a text gives no number. -/
inductive NumeralFault where
  /-- It does not have the form of a number. -/
  | notANumber
  /-- It is a word that only looks like a number. -/
  | lookalike
  deriving Repr, DecidableEq

namespace Numeral

/-- The digits at the start of the characters, and what follows them. -/
def spanDigits : List Char → List Nat × List Char
  | [] => ([], [])
  | c :: rest =>
    match Text.decimalDigit? c with
    | some digit =>
      let (digits, after) := spanDigits rest
      (digit :: digits, after)
    | none => ([], c :: rest)

/-- The whole number with the given digits. -/
def ofDigits (digits : List Nat) : Nat :=
  digits.foldl (fun value digit => 10 * value + digit) 0

/-- The sign at the start of the characters, and what follows it. -/
def spanSign : List Char → Bool × List Char
  | '-' :: rest => (true, rest)
  | '+' :: rest => (false, rest)
  | cs => (false, cs)

/-- The exponent that ends a numeral; no characters are the exponent zero. -/
def exponent? : List Char → Option Int
  | [] => some 0
  | c :: rest =>
    if c = 'e' ∨ c = 'E' then
      let (negative, unsigned) := spanSign rest
      match spanDigits unsigned with
      | (digit :: digits, []) =>
        let value : Int := ofDigits (digit :: digits)
        some (if negative then -value else value)
      | _ => none
    else none

/-- The digits after a point, and what follows them; without a point there are none. -/
def spanFraction : List Char → List Nat × List Char
  | '.' :: rest => spanDigits rest
  | cs => ([], cs)

/-- A numeral written with digits, without its sign. -/
def unsigned? (cs : List Char) : Option Decimal :=
  let (whole, afterWhole) := spanDigits cs
  let (fraction, afterFraction) := spanFraction afterWhole
  if whole.isEmpty && fraction.isEmpty then none
  else
    (exponent? afterFraction).map fun exponent =>
      ⟨ofDigits (whole ++ fraction), exponent - fraction.length⟩

/-- Whether the character is the lower-case letter up to case. -/
def isLetter (letter c : Char) : Bool :=
  c == letter || c == letter.toUpper || (letter == 'i' && (c == 'ı' || c == 'İ'))

/-- Whether the characters are the lower-case word up to case. -/
def isWord : (word cs : List Char) → Bool
  | [], [] => true
  | letter :: word, c :: cs => isLetter letter c && isWord word cs
  | _, _ => false

/-- The numeral that a word stands for, if its letters are those of the plain alphabet. -/
def ofWord? (negative : Bool) (cs : List Char) : Option Numeral :=
  let plain := cs.all fun c => c.toNat < 128
  if isWord "inf".toList cs || isWord "infinity".toList cs then
    some (if plain then .infinity negative else .lookalike)
  -- no letter of this word has a look-alike
  else if isWord "nan".toList cs then some .nan
  else none

/-- The numeral that the characters form. -/
def ofChars? (cs : List Char) : Option Numeral :=
  let (negative, rest) := spanSign cs
  match unsigned? rest with
  | some value => some (.decimal negative value)
  | none => ofWord? negative rest

/-- The double that the text stands for. -/
def read (text : String) : Except NumeralFault Float :=
  match ofChars? text.toList with
  | some (.decimal negative value) => .ok (Binary64.ofParts negative value.toBits)
  | some (.infinity negative) => .ok (Binary64.ofParts negative Binary64.infinity)
  | some .nan => .ok (0 / 0)
  | some .lookalike => .error .lookalike
  | none => .error .notANumber

end Numeral

end LispShell
