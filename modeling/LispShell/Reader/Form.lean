import LispShell.Expr.Basic
import LispShell.Token.Basic

/-! # Forms
Reading tokens into expressions: a form is an identifier, a quote and a form, or a parenthesised
row of forms. The reader keeps the forms that are open, innermost first, and takes one token at a
time; more than a given number of open forms is too deep. -/

namespace LispShell

/-- A form that waits for more tokens. -/
inductive OpenForm where
  /-- A quote before its form. -/
  | quote
  /-- A parenthesised row; the items read are in reverse order. -/
  | row (items : List Expr)
  deriving Repr

/-- Where the reader stands after a token. -/
inductive Reading where
  /-- Some forms are still open, innermost first. -/
  | unfinished (opened : List OpenForm)
  /-- The outermost form is complete. -/
  | finished (form : Expr)
  deriving Repr

namespace Reading

/-- Gives a complete form to the innermost open one. Quotes complete at once and turn it into
data. -/
def place (form : Expr) : List OpenForm → Reading
  | [] => .finished form
  | .quote :: outer => place form.toData outer
  | .row items :: outer => .unfinished (.row (form :: items) :: outer)

/-- Opens a form inside those that are open, of which there may be at most `limit`. -/
def enter (limit : Nat) (opened : List OpenForm) (inner : OpenForm) : Except ReadError Reading :=
  if opened.length < limit then .ok (.unfinished (inner :: opened)) else .error .nestingTooDeep

/-- Reads one token inside the open forms. -/
def feed (limit : Nat) (opened : List OpenForm) : Token → Except ReadError Reading
  | .ident text => .ok (place (.atom text) opened)
  | .lparen => enter limit opened (.row [])
  | .quote => enter limit opened .quote
  | .rparen =>
    match opened with
    | .row items :: outer => .ok (place (.call items.reverse) outer)
    | _ => .error (.unexpectedToken .rparen)

/-- What is missing where the tokens end inside open forms. -/
def missing : List OpenForm → ReadError
  | .row _ :: _ => .unmatchedParen
  | _ => .unexpectedEnd

/-- Reads tokens until the outermost form is complete: the form and the tokens after it. -/
def readForm (limit : Nat) (opened : List OpenForm) :
    List Token → Except ReadError (Expr × List Token)
  | [] => .error (missing opened)
  | token :: rest =>
    match feed limit opened token with
    | .error fault => .error fault
    | .ok (.finished form) => .ok (form, rest)
    | .ok (.unfinished inner) => readForm limit inner rest

end Reading

namespace Expr

/-- Reads a row of tokens as one expression; no tokens read as the empty atom. -/
def ofTokens (limit : Nat) (tokens : List Token) : Except ReadError Expr :=
  if tokens.isEmpty then .ok .empty
  else
    match Reading.readForm limit [] tokens with
    | .error fault => .error fault
    | .ok (form, []) => .ok form
    | .ok (_, token :: _) => .error (.unexpectedToken token)

end Expr

end LispShell
