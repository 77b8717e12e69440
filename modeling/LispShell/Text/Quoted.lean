import LispShell.Text.Digit
import LispShell.Text.Printable

/-! # Quoted texts
The quoted form of a text in reports: printable characters stand for themselves between single
quotes (double quotes where the text has a single quote and no double one), the others are escaped
by `numberedEscape`, the shortest escape that holds their number. -/

namespace LispShell.Text

/-- The quote to put around the characters. -/
def quoteFor (cs : List Char) : Char :=
  if cs.contains '\'' && !cs.contains '"' then '"' else '\''

/-- The shortest escape that gives the character by its number. -/
def numberedEscape (c : Char) : List Char :=
  if c.toNat < 0x100 then '\\' :: 'x' :: hexNumeral 2 c.toNat
  else if c.toNat < 0x10000 then '\\' :: 'u' :: hexNumeral 4 c.toNat
  else '\\' :: 'U' :: hexNumeral 8 c.toNat

/-- The written form of one character between quotes of the given kind. -/
def quotedChar (quote c : Char) : List Char :=
  if c = quote ∨ c = '\\' then ['\\', c]
  else if c = '\n' then ['\\', 'n']
  else if c = '\t' then ['\\', 't']
  else if c = '\r' then ['\\', 'r']
  else if isPrintable c then [c]
  else numberedEscape c

/-- The text between quotes, in one line of printable characters. -/
def quoted (s : String) : String :=
  let quote := quoteFor s.toList
  String.ofList (quote :: s.toList.flatMap (quotedChar quote) ++ [quote])

/-- Quoted texts in brackets, separated by commas. -/
def quotedList (texts : List String) : String :=
  "[" ++ String.intercalate ", " (texts.map quoted) ++ "]"

end LispShell.Text
