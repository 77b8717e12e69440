import LispShell.Text.Blank
import LispShell.Text.Digit
import LispShell.Token.Basic

/-! # Scanning
The scanner reads a text one character at a time. Its mode is what it is in the middle of: a bare
word, a quoted text, a comment or an escape. Words are ended by blanks, parentheses, quotes and
comments; a quoted text is a token even when it is empty, and one left open keeps what it holds. -/

namespace LispShell

/-- What the scanner is in the middle of. The characters held are in reverse order. -/
inductive ScanMode where
  /-- Outside quotes, after the characters of a bare word. -/
  | bare (held : List Char)
  /-- Between double quotes. -/
  | quoted (held : List Char)
  /-- Between a semicolon and the end of the line. -/
  | comment
  /-- After a backslash, inside or outside quotes. -/
  | escape (inQuotes : Bool) (held : List Char)
  /-- After a backslash and an `x`. -/
  | hexEscape (inQuotes : Bool) (held : List Char)
  /-- After a backslash, an `x` and the first digit. -/
  | hexDigit (inQuotes : Bool) (held : List Char) (high : Char)
  deriving Repr, DecidableEq

namespace ScanMode

/-- The token of the characters held. -/
def heldToken (held : List Char) : Token :=
  .ident (String.ofList held.reverse)

/-- The bare word that ends here, if there is one. -/
def endWord (held : List Char) : List Token :=
  if held.isEmpty then [] else [heldToken held]

/-- The mode that goes on with a word or a quoted text. -/
def resume (inQuotes : Bool) (held : List Char) : ScanMode :=
  if inQuotes then .quoted held else .bare held

/-- The character with the number given by two hexadecimal digits. -/
def hexChar? (high low : Char) : Option Char := do
  let upper ← Text.hexDigit? high
  let lower ← Text.hexDigit? low
  return Char.ofNat (16 * upper + lower)

/-- One character outside quotes: the tokens that it completes and the mode after it. -/
def stepBare (held : List Char) (c : Char) : List Token × ScanMode :=
  if c = '"' then (endWord held, .quoted [])
  else if c = '\\' then ([], .escape false held)
  else if c = ';' then (endWord held, .comment)
  else if c = '\'' then (endWord held ++ [.quote], .bare [])
  else if c = '(' then (endWord held ++ [.lparen], .bare [])
  else if c = ')' then (endWord held ++ [.rparen], .bare [])
  else if Text.isBlank c then (endWord held, .bare [])
  else ([], .bare (c :: held))

/-- One character between double quotes. -/
def stepQuoted (held : List Char) (c : Char) : List Token × ScanMode :=
  if c = '"' then ([heldToken held], .bare [])
  else if c = '\\' then ([], .escape true held)
  else ([], .quoted (c :: held))

/-- One character: the tokens that it completes and the mode after it, or the fault it shows. -/
def step : ScanMode → Char → Except ReadError (List Token × ScanMode)
  | .bare held, c => .ok (stepBare held c)
  | .quoted held, c => .ok (stepQuoted held c)
  | .comment, c => .ok ([], if c = '\n' then .bare [] else .comment)
  -- only `n` and `x` mean something after a backslash
  | .escape inQuotes held, c =>
    if c = 'x' then .ok ([], .hexEscape inQuotes held)
    else .ok ([], resume inQuotes ((if c = 'n' then '\n' else c) :: held))
  | .hexEscape inQuotes held, c => .ok ([], .hexDigit inQuotes held c)
  | .hexDigit inQuotes held high, c =>
    match hexChar? high c with
    | some value => .ok ([], resume inQuotes (value :: held))
    | none => .error (.invalidEscape (String.ofList [high, c]))

/-- What the end of the text completes. -/
def finish : ScanMode → Scan
  | .bare held => ⟨endWord held, none⟩
  | .quoted held => ⟨[heldToken held], none⟩
  | .comment => .nil
  | .escape _ _ => ⟨[], some .endAfterBackslash⟩
  | .hexEscape _ _ => ⟨[], some (.invalidEscape "")⟩
  | .hexDigit _ _ high => ⟨[], some (.invalidEscape (String.ofList [high]))⟩

end ScanMode

namespace Token

/-- The scan of the rest of a text from a mode on. -/
def scanFrom (mode : ScanMode) : List Char → Scan
  | [] => mode.finish
  | c :: rest =>
    match mode.step c with
    | .error fault => ⟨[], some fault⟩
    | .ok (tokens, next) => (scanFrom next rest).prepend tokens

/-- The tokens of a text. -/
def scan (source : String) : Scan :=
  scanFrom (.bare []) source.toList

end Token

end LispShell
