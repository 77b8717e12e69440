/-! # Patterns
Patterns of file names and of `case`: a star stands for any text, a question mark for any character,
brackets for one of some characters, and all else for itself. -/

namespace LispShell.Script

/-- A part of a pattern. -/
inductive PatternItem where
  /-- A character. -/
  | char (c : Char)
  /-- Any character. -/
  | anyChar
  /-- Any text. -/
  | anyText
  /-- A character inside, or outside, some closed ranges. -/
  | oneOf (negated : Bool) (ranges : List (Char × Char))
  deriving Repr, DecidableEq

/-- A pattern. -/
abbrev Pattern := List PatternItem

/-- A character of a pattern, which means itself if it is quoted. -/
structure PatternChar where
  /-- The character. -/
  char : Char
  /-- Whether it is quoted. -/
  quoted : Bool
  deriving Repr, DecidableEq

namespace Pattern

/-- Whether the pattern character has the given special meaning. -/
def isSpecial (special : Char) (c : PatternChar) : Bool :=
  c.char == special && !c.quoted

/-- The characters up to the closing bracket, and what follows it. -/
def setChars : (first : Bool) → List PatternChar → Option (List PatternChar × List PatternChar)
  | _, [] => none
  | first, c :: rest =>
    if isSpecial ']' c && !first then some ([], rest)
    else (setChars false rest).map fun (inner, after) => (c :: inner, after)

/-- The ranges that the characters between brackets stand for. -/
def ranges : List PatternChar → List (Char × Char)
  | [] => []
  | [c] => [(c.char, c.char)]
  | [c, d] => [(c.char, c.char), (d.char, d.char)]
  | low :: dash :: high :: rest =>
    if isSpecial '-' dash then (low.char, high.char) :: ranges rest
    else (low.char, low.char) :: ranges (dash :: high :: rest)

/-- The item that starts the characters, and what follows it. -/
def firstItem (c : PatternChar) (rest : List PatternChar) : PatternItem × List PatternChar :=
  if isSpecial '*' c then (.anyText, rest)
  else if isSpecial '?' c then (.anyChar, rest)
  else if isSpecial '[' c then
    let (negated, inner) :=
      match rest with
      | mark :: inner =>
        if isSpecial '!' mark || isSpecial '^' mark then (true, inner) else (false, rest)
      | [] => (false, rest)
    match setChars true inner with
    | some (found, after) => (.oneOf negated (ranges found), after)
    | none => (.char c.char, rest)
  else (.char c.char, rest)

/-- Reads a pattern; `bound` is at least the number of characters. -/
def read : (bound : Nat) → List PatternChar → Pattern
  | 0, _ => []
  | _ + 1, [] => []
  | bound + 1, c :: rest =>
    let (item, after) := firstItem c rest
    item :: read bound after

/-- Whether the item stands for the character. -/
def accepts (c : Char) : PatternItem → Bool
  | .char other => c == other
  | .anyChar => true
  | .anyText => true
  | .oneOf negated ranges => (ranges.any fun (low, high) => low ≤ c && c ≤ high) != negated

/-- Whether the pattern matches the whole text. -/
def isMatch : Pattern → List Char → Bool
  | [], text => text.isEmpty
  | .anyText :: rest, [] => isMatch rest []
  | .anyText :: rest, c :: text => isMatch rest (c :: text) || isMatch (.anyText :: rest) text
  | _ :: _, [] => false
  | item :: rest, c :: text => accepts c item && isMatch rest text
termination_by pattern text => (pattern.length, text.length)

/-- Whether the pattern is more than a text. -/
def isProper (pattern : Pattern) : Bool :=
  pattern.any fun item =>
    match item with
    | .char _ => false
    | _ => true

/-- The text without the shortest or longest match at its start. -/
def trimStart (pattern : Pattern) (longest : Bool) (text : List Char) : List Char :=
  let lengths := List.range (text.length + 1)
  let order := if longest then lengths.reverse else lengths
  match order.find? fun length => isMatch pattern (text.take length) with
  | some length => text.drop length
  | none => text

/-- The text without the shortest or longest match at its end. -/
def trimEnd (pattern : Pattern) (longest : Bool) (text : List Char) : List Char :=
  let lengths := List.range (text.length + 1)
  let order := if longest then lengths else lengths.reverse
  match order.find? fun length => isMatch pattern (text.drop length) with
  | some length => text.take length
  | none => text

end Pattern

end LispShell.Script
