/-! # Blank characters
The white space of Unicode 14, which separates words, and the texts made of nothing else. -/

namespace LispShell.Text

/-- Whether the code point is white space. -/
def isBlankCode (code : Nat) : Bool :=
  (9 ≤ code && code ≤ 13) || (28 ≤ code && code ≤ 32) || code == 0x85 || code == 0xa0 ||
  code == 0x1680 || (0x2000 ≤ code && code ≤ 0x200a) || code == 0x2028 || code == 0x2029 ||
  code == 0x202f || code == 0x205f || code == 0x3000

/-- Whether the character is white space. -/
def isBlank (c : Char) : Bool :=
  isBlankCode c.toNat

/-- The characters without the blanks at both ends. -/
def trimBlanks (cs : List Char) : List Char :=
  ((cs.dropWhile isBlank).reverse.dropWhile isBlank).reverse

/-- The text without the blanks at both ends. -/
def strip (s : String) : String :=
  String.ofList (trimBlanks s.toList)

/-- Whether the text holds nothing but blanks. -/
def isBlankText (s : String) : Bool :=
  s.toList.all isBlank

end LispShell.Text
