/-! # Tokens
The lexical units of the shell's language, and a scan: the tokens found in a text up to its end or
to the first lexical fault. -/

namespace LispShell

/-- A lexical unit. -/
inductive Token where
  /-- An opening parenthesis. -/
  | lparen
  /-- A closing parenthesis. -/
  | rparen
  /-- The quote that turns the next form into data. -/
  | quote
  /-- A bare word or a quoted text. -/
  | ident (text : String)
  deriving Repr, DecidableEq, Inhabited

/-- The text that names a token in reports. -/
def Token.text : Token → String
  | .lparen => "("
  | .rparen => ")"
  | .quote => "'"
  | .ident text => text

/-- Why a text or a row of tokens cannot be read. -/
inductive ReadError where
  /-- The text ends after a backslash. -/
  | endAfterBackslash
  /-- A numbered escape has other characters than two hexadecimal digits. -/
  | invalidEscape (digits : String)
  /-- A quote has nothing after it. -/
  | unexpectedEnd
  /-- The text ends before a closing parenthesis. -/
  | unmatchedParen
  /-- The token cannot stand where it stands. -/
  | unexpectedToken (token : Token)
  /-- More forms are open at once than the reader holds. -/
  | nestingTooDeep
  deriving Repr, DecidableEq

/-- Whether more input could mend the fault. -/
def ReadError.isIncomplete : ReadError → Bool
  | .endAfterBackslash => true
  | .unexpectedEnd => true
  | .unmatchedParen => true
  | .invalidEscape _ => false
  | .unexpectedToken _ => false
  | .nestingTooDeep => false

/-- The wording of a fault of reading. -/
def ReadError.message : ReadError → String
  | .endAfterBackslash => "Unexpected end of input after '\\'"
  | .invalidEscape digits => "Invalid escape: \\x" ++ digits
  | .unexpectedEnd => "Unexpected end of input"
  | .unmatchedParen => "Unmatched '('"
  | .unexpectedToken token => "Unexpected token: " ++ token.text
  | .nestingTooDeep => "nesting too deep"

/-- Tokens up to the end of a text, or up to the fault that stops its scan. -/
structure Scan where
  /-- The tokens found, in order. -/
  tokens : List Token
  /-- The fault that ends the scan before the end of the text. -/
  failure : Option ReadError
  deriving Repr, DecidableEq

namespace Scan

/-- The scan of a text without tokens. -/
def nil : Scan := ⟨[], none⟩

/-- Puts tokens before a scan. -/
def prepend (tokens : List Token) (scan : Scan) : Scan :=
  ⟨tokens ++ scan.tokens, scan.failure⟩

/-- One scan after the other; what comes after a fault is never reached. -/
def append (first second : Scan) : Scan :=
  match first.failure with
  | some _ => first
  | none => second.prepend first.tokens

/-- All tokens, unless a fault stops the scan. -/
def toExcept (scan : Scan) : Except ReadError (List Token) :=
  match scan.failure with
  | some fault => .error fault
  | none => .ok scan.tokens

@[simp] theorem append_nil (scan : Scan) : scan.append nil = scan := by
  rcases scan with ⟨tokens, _ | fault⟩ <;> simp [append, nil, prepend]

@[simp] theorem nil_append (scan : Scan) : nil.append scan = scan := by
  simp [append, nil, prepend]

end Scan

end LispShell
