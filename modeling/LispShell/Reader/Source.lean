import LispShell.Reader.Form
import LispShell.Token.Alias

/-! # Sources
Two ways to read a text. A command line is one form, whose outer parentheses may be left out. A
program is a row of forms; each is handed on as soon as it is complete, before the alias table is
consulted for the next token, so a form can change how the rest of the program is read. -/

namespace LispShell

/-- Reads a command line as one expression. -/
def readLine (limit : Nat) (aliases : AliasTable) (source : String) : Except ReadError Expr := do
  Expr.ofTokens limit (← Token.ofLine aliases source)

/-- Whether a command line is complete: false only if more input could mend it. -/
def isComplete (limit : Nat) (aliases : AliasTable) (source : String) : Bool :=
  match readLine limit aliases source with
  | .ok _ => true
  | .error fault => !fault.isIncomplete

/-- What reading a program needs from its surroundings. -/
structure ProgramReader (m : Type → Type) where
  /-- The greatest number of forms open at once. -/
  limit : Nat
  /-- The aliases now in force. -/
  aliases : m AliasTable
  /-- Takes over a complete form. -/
  accept : Expr → m Unit
  /-- Gives up because of a fault. -/
  refuse : ReadError → m (List OpenForm)

namespace ProgramReader

variable {m : Type → Type} [Monad m]

/-- Reads one token inside the open forms and hands on the form that it completes. -/
def feed (reader : ProgramReader m) (opened : List OpenForm) (token : Token) :
    m (List OpenForm) :=
  match Reading.feed reader.limit opened token with
  | .error fault => reader.refuse fault
  | .ok (.unfinished inner) => pure inner
  | .ok (.finished form) => do
    reader.accept form
    pure []

/-- Reads tokens in turn. -/
def feedAll (reader : ProgramReader m) (opened : List OpenForm) : List Token → m (List OpenForm)
  | [] => pure opened
  | token :: rest => do
    let inner ← reader.feed opened token
    reader.feedAll inner rest

/-- Reads a scan: its tokens and then its fault, if it has one. -/
def feedScan (reader : ProgramReader m) (opened : List OpenForm) (scan : Scan) :
    m (List OpenForm) := do
  let inner ← reader.feedAll opened scan.tokens
  match scan.failure with
  | some fault => reader.refuse fault
  | none => pure inner

/-- Reads the tokens of a source, each as the aliases of the moment expand it. -/
def feedSource (reader : ProgramReader m) (afterParen : Bool) (opened : List OpenForm) :
    List Token → m (List OpenForm)
  | [] => pure opened
  | token :: rest => do
    let aliases ← reader.aliases
    let inner ← reader.feedScan opened (Token.expansion aliases afterParen token)
    reader.feedSource (token == .lparen) inner rest

/-- Reads the forms of a program in order. -/
def run (reader : ProgramReader m) (source : String) : m Unit := do
  let scanned := Token.scan source
  let opened ← reader.feedSource false [] scanned.tokens
  match scanned.failure with
  | some fault => discard (reader.refuse fault)
  -- the text ends in the middle of a form
  | none => if opened.isEmpty then pure () else discard (reader.refuse (Reading.missing opened))

end ProgramReader

/-- The forms of a program under a fixed alias table, up to the first fault. -/
def readProgram (limit : Nat) (aliases : AliasTable) (source : String) :
    List Expr × Option ReadError :=
  let reader : ProgramReader (ExceptT ReadError (StateM (List Expr))) :=
    { limit := limit
      aliases := pure aliases
      accept := fun form => modify (form :: ·)
      refuse := throw }
  match ((reader.run source).run []) with
  | (.ok _, forms) => (forms.reverse, none)
  | (.error fault, forms) => (forms.reverse, some fault)

end LispShell
