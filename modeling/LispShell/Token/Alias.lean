import LispShell.Table
import LispShell.Token.Scanner

/-! # Aliases
An alias is a name that stands for other words at the head of a call. A head that names an alias is
replaced by the tokens of the alias' texts, once: the new tokens are not looked up again. -/

namespace LispShell

/-- The texts that each alias stands for. -/
abbrev AliasTable := Table (List String)

namespace AliasTable

/-- The texts that the token stands for, if it is a head that names an alias. -/
def replacement? (aliases : AliasTable) (afterParen : Bool) : Token → Option (List String)
  | .ident name => if afterParen then aliases.find? name else none
  | _ => none

end AliasTable

namespace Token

/-- The scans of several texts, one after the other. -/
def scanAll : List String → Scan
  | [] => .nil
  | text :: rest => (scan text).append (scanAll rest)

/-- The tokens that a token of the source gives. -/
def expansion (aliases : AliasTable) (afterParen : Bool) (token : Token) : Scan :=
  match aliases.replacement? afterParen token with
  | some texts => scanAll texts
  | none => ⟨[token], none⟩

/-- Replaces every head that names an alias. -/
def expandFrom (aliases : AliasTable) (afterParen : Bool) : List Token → Scan
  | [] => .nil
  | token :: rest =>
    -- a head is what follows a parenthesis in the source, not in a replacement
    (expansion aliases afterParen token).append (expandFrom aliases (token == .lparen) rest)

/-- Replaces every head that names an alias in a row of tokens. -/
def expand (aliases : AliasTable) (tokens : List Token) : Scan :=
  expandFrom aliases false tokens

/-- Whether the tokens, read inside `depth + 1` open parentheses, close the outermost one with the
last of them and not before. -/
def closesAtEnd : (depth : Nat) → List Token → Bool
  | _, [] => false
  | depth, .lparen :: rest => closesAtEnd (depth + 1) rest
  | 0, .rparen :: rest => rest.isEmpty
  | depth + 1, .rparen :: rest => closesAtEnd depth rest
  | depth, .quote :: rest => closesAtEnd depth rest
  | depth, .ident _ :: rest => closesAtEnd depth rest

/-- Whether the tokens are exactly one parenthesised group. -/
def isGroup : List Token → Bool
  | .lparen :: rest => closesAtEnd 0 rest
  | _ => false

/-- A command line as one group: the outer parentheses may be left out. -/
def wrap (tokens : List Token) : List Token :=
  if tokens.isEmpty || isGroup tokens then tokens else .lparen :: tokens ++ [.rparen]

/-- The tokens of a command line. -/
def ofLine (aliases : AliasTable) (source : String) : Except ReadError (List Token) := do
  let tokens ← (scan source).toExcept
  (expand aliases (wrap tokens)).toExcept

/-- The tokens of a program, a text of several forms. -/
def ofProgram (aliases : AliasTable) (source : String) : Scan :=
  let scanned := scan source
  (expand aliases scanned.tokens).append ⟨[], scanned.failure⟩

end Token

end LispShell
