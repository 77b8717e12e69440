/-! # Scripts
The syntax of the scripts that child processes run: words with their expansions, redirections and
commands. -/

namespace LispShell.Script

/-- What an expansion does where a parameter has no value. -/
inductive Fallback where
  /-- Gives a word instead. -/
  | substitute
  /-- Gives a word and assigns it. -/
  | assign
  /-- Ends the script with a report. -/
  | complain
  /-- Gives a word where there is a value, and nothing where there is none. -/
  | alternative
  deriving Repr, DecidableEq

/-- A part of a word. -/
inductive WordPart where
  /-- Text as written. -/
  | text (value : String) (quoted : Bool)
  /-- The value of a parameter. -/
  | param (name : String) (quoted : Bool)
  /-- The length of the value of a parameter. -/
  | length (name : String)
  /-- The value of a parameter, or what stands in for it. An empty value may count as none. -/
  | orElse (name : String) (fallback : Fallback) (emptyCounts : Bool) (word : List WordPart)
    (quoted : Bool)
  /-- The value of a parameter without the shortest or longest match of a pattern at one end. -/
  | trimmed (name : String) (atEnd longest : Bool) (pattern : List WordPart) (quoted : Bool)
  /-- The output of a script. -/
  | output (source : String) (quoted : Bool)
  /-- The value of an arithmetic expression. -/
  | arithmetic (expression : List WordPart) (quoted : Bool)
  /-- An expansion that makes no sense. -/
  | invalid
  deriving Inhabited, Repr

/-- A word: its parts in order. -/
abbrev Word := List WordPart

/-- A change of where a descriptor reads or writes. -/
inductive Redirect where
  /-- To a file, replaced or extended. -/
  | toFile (descriptor : Nat) (extend : Bool) (target : Word)
  /-- From a file. -/
  | fromFile (descriptor : Nat) (source : Word)
  /-- From a text in the script. -/
  | fromText (descriptor : Nat) (content : Word)
  /-- To where another descriptor writes. -/
  | copy (descriptor : Nat) (source : Word)
  deriving Repr

/-- A command of a script. -/
inductive Command where
  /-- Assignments, or a program or builtin with its arguments. -/
  | simple (line : Nat) (assignments : List (String × Word)) (words : List Word)
    (redirects : List Redirect)
  /-- Commands that each read what the one before writes. -/
  | pipe (stages : List Command)
  /-- A command with the opposite outcome. -/
  | negated (body : Command)
  /-- The second command if the first one succeeds. -/
  | both (first second : Command)
  /-- The second command if the first one fails. -/
  | either (first second : Command)
  /-- Commands one after the other. -/
  | sequence (commands : List Command)
  /-- One of two commands by the outcome of a test. -/
  | branch (condition consequent alternative : Command)
  /-- A command as long as a test has the outcome wanted. -/
  | loop (wanted : Bool) (condition body : Command)
  /-- A command for each of some words, or for each argument. -/
  | forEach (name : String) (words : Option (List Word)) (body : Command)
  /-- The command of the first pattern that a word matches. -/
  | choose (subject : Word) (cases : List (List Word × Command))
  /-- A command that cannot change the variables around it. -/
  | isolated (body : Command)
  /-- A command with redirections. -/
  | redirected (body : Command) (redirects : List Redirect)
  /-- The definition of a function. -/
  | define (name : String) (body : Command)
  deriving Inhabited, Repr

/-- Why a script cannot be read. -/
inductive SyntaxFault where
  /-- A token, as it is shown in reports, stands where it cannot; another may be expected there. -/
  | unexpected (line : Nat) (token : String) (expected : Option String)
  /-- A quoted text is not closed. -/
  | openQuote (line : Nat)
  deriving Repr, DecidableEq

/-- The wording of a syntax fault. -/
def SyntaxFault.message : SyntaxFault → String
  | .unexpected line token expected =>
    toString line ++ ": Syntax error: " ++ token ++ " unexpected" ++
      (match expected with
        | some other => " (expecting \"" ++ other ++ "\")"
        | none => "")
  | .openQuote line => toString line ++ ": Syntax error: Unterminated quoted string"

end LispShell.Script
