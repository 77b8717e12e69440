import LispShell.Script.Lexeme

/-! # Parsing scripts
Lexemes into commands, by recursive descent. Each function takes a bound on the number of calls that
may still be nested in it. -/

namespace LispShell.Script

namespace Parser

/-- A parser: takes lexemes from those that are left, or fails. It knows the last line. -/
abbrev Parse := ReaderT Nat (StateT (List Lexeme) (Except SyntaxFault))

/-- The words with a meaning of their own at the start of a command. -/
def reservedWords : List String :=
  ["if", "then", "elif", "else", "fi", "while", "until", "do", "done", "for", "case", "esac",
    "\x7b", "\x7d", "!"]

/-- The reserved word that stands next. -/
def nextReserved? : List Lexeme → Option String
  | .word parts _ :: _ => (Lexeme.plainText? parts).filter reservedWords.contains
  | _ => none

/-- The line of the lexeme that stands next. -/
def nextLine (lastLine : Nat) : List Lexeme → Nat
  | [] => lastLine
  | .word _ line :: _ => line
  | .operator _ line :: _ => line
  | .newline line :: _ => line + 1
  | .descriptor _ :: rest => nextLine lastLine rest
  | .below _ :: rest => nextLine lastLine rest

/-- What reports call the lexeme that stands next. -/
def nextToken (lexemes : List Lexeme) : String :=
  match lexemes with
  | [] => "end of file"
  | .newline _ :: _ => "newline"
  | .operator text _ :: _ => "\"" ++ text ++ "\""
  | .descriptor _ :: _ => "redirection"
  | .below _ :: _ => "redirection"
  | .word _ _ :: _ =>
    match nextReserved? lexemes with
    | some reserved => "\"" ++ reserved ++ "\""
    | none => "word"

/-- The lexemes without the line ends in front. -/
def afterNewlines (lexemes : List Lexeme) : List Lexeme :=
  lexemes.dropWhile fun lexeme =>
    match lexeme with
    | .newline _ => true
    | _ => false

/-- The lexemes without the line ends and separators in front. -/
def afterSeparators (lexemes : List Lexeme) : List Lexeme :=
  lexemes.dropWhile fun lexeme =>
    match lexeme with
    | .newline _ => true
    | .operator ";" _ => true
    | .operator "&" _ => true
    | _ => false

/-- Fails at the lexeme that stands next. -/
def fail {α : Type} (expected : Option String) : Parse α := do
  let lexemes ← get
  throw (.unexpected (nextLine (← read) lexemes) (nextToken lexemes) expected)

/-- Skips line ends. -/
def skipNewlines : Parse Unit :=
  modify afterNewlines

/-- Skips line ends and separators. -/
def skipSeparators : Parse Unit :=
  modify afterSeparators

/-- Takes the separator or the line end that stands next. -/
def trySeparator : Parse Bool := do
  match ← get with
  | .operator ";" _ :: rest =>
    set rest
    return true
  | .operator "&" _ :: rest =>
    set rest
    return true
  | .newline _ :: rest =>
    set rest
    return true
  | _ => return false

/-- Takes an operator if it stands next. -/
def tryOperator (text : String) : Parse Bool := do
  match ← get with
  | .operator found _ :: rest =>
    if found = text then
      set rest
      return true
    else return false
  | _ => return false

/-- Takes a reserved word if it stands next. -/
def tryReserved (reserved : String) : Parse Bool := do
  let lexemes ← get
  if nextReserved? lexemes = some reserved then
    set lexemes.tail
    return true
  else return false

/-- Takes a reserved word. -/
def expect (reserved : String) : Parse Unit := do
  unless ← tryReserved reserved do fail (some reserved)

/-- Takes a word. -/
def expectWord : Parse Word := do
  match ← get with
  | .word parts _ :: rest =>
    set rest
    return parts
  | _ => fail none

/-- A word that assigns a variable, as its name and the value. -/
def assignment? (parts : Word) : Option (String × Word) :=
  let name := parts.takeWhile fun part =>
    match part with
    | .text value false => value != "="
    | _ => false
  match parts.drop name.length, Lexeme.plainText? name with
  | .text "=" false :: value, some text => if Lexeme.isName text then some (text, value) else none
  | _, _ => none

/-- The redirection that an operator starts. -/
def redirect? (descriptor : Option Nat) (operator : String) (target : Word) : Option Redirect :=
  match operator with
  | ">" => some (.toFile (descriptor.getD 1) false target)
  | ">|" => some (.toFile (descriptor.getD 1) false target)
  | ">>" => some (.toFile (descriptor.getD 1) true target)
  | "<" => some (.fromFile (descriptor.getD 0) target)
  | ">&" => some (.copy (descriptor.getD 1) target)
  | "<&" => some (.copy (descriptor.getD 0) target)
  | _ => none

/-- The redirections that stand next. -/
def redirects : List Lexeme → List Redirect × List Lexeme
  | .descriptor number :: .operator "<<" _ :: .below content :: rest =>
    let (others, after) := redirects rest
    (.fromText number content :: others, after)
  | .operator "<<" _ :: .below content :: rest =>
    let (others, after) := redirects rest
    (.fromText 0 content :: others, after)
  | .descriptor number :: .operator operator line :: .word target targetLine :: rest =>
    match redirect? (some number) operator target with
    | some redirect =>
      let (others, after) := redirects rest
      (redirect :: others, after)
    | none => ([], .descriptor number :: .operator operator line :: .word target targetLine :: rest)
  | .operator operator line :: .word target targetLine :: rest =>
    match redirect? none operator target with
    | some redirect =>
      let (others, after) := redirects rest
      (redirect :: others, after)
    | none => ([], .operator operator line :: .word target targetLine :: rest)
  | lexemes => ([], lexemes)

/-- A simple command as far as it has been read. -/
structure Simple where
  /-- Its assignments. -/
  assignments : List (String × Word)
  /-- Its words. -/
  words : List Word
  /-- Its redirections. -/
  redirects : List Redirect

/-- The words, assignments and redirections that stand next. -/
def simple : (bound : Nat) → Simple → List Lexeme → Simple × List Lexeme
  | 0, soFar, lexemes => (soFar, lexemes)
  | bound + 1, soFar, lexemes =>
    match redirects lexemes with
    | ([], .word parts _ :: rest) =>
      match soFar.words, assignment? parts with
      | [], some assignment =>
        simple bound { soFar with assignments := soFar.assignments ++ [assignment] } rest
      | _, _ => simple bound { soFar with words := soFar.words ++ [parts] } rest
    | ([], rest) => (soFar, rest)
    | (found, rest) => simple bound { soFar with redirects := soFar.redirects ++ found } rest

/-- The words that stand next. -/
def words : List Lexeme → List Word × List Lexeme
  | .word parts _ :: rest =>
    let (others, after) := words rest
    (parts :: others, after)
  | lexemes => ([], lexemes)

/-- The patterns of a case up to the parenthesis after them. -/
def patterns : (bound : Nat) → Parse (List Word)
  | 0 => fail none
  | bound + 1 => do
    if (← get).isEmpty then fail (some ")")
    let first ← expectWord
    if ← tryOperator "|" then return first :: (← patterns bound)
    else if ← tryOperator ")" then return [first]
    else fail (some ")")

/-- Takes the redirections after a command. -/
def withRedirects (body : Command) : Parse Command := do
  let (found, rest) := redirects (← get)
  set rest
  return if found.isEmpty then body else .redirected body found

/-- Whether a list of commands ends before these lexemes. -/
def closesList (lexemes : List Lexeme) : Bool :=
  match lexemes with
  | [] => true
  | .operator ")" _ :: _ => true
  | .operator ";;" _ :: _ => true
  | _ =>
    match nextReserved? lexemes with
    | some reserved =>
      ["then", "elif", "else", "fi", "do", "done", "esac", "\x7d"].contains reserved
    | none => false

/-- A simple command. -/
def simpleCommand : Parse Command := do
  let lexemes ← get
  let line := nextLine (← read) lexemes
  let (found, rest) := simple (lexemes.length + 1) ⟨[], [], []⟩ lexemes
  if found.words.isEmpty && found.assignments.isEmpty && found.redirects.isEmpty then
    failAtRedirect rest
  else
    set rest
    refuseRedirect
    return .simple line found.assignments found.words found.redirects
where
  /-- Fails after the operator of a redirection without a target, or at what stands next. -/
  failAtRedirect (lexemes : List Lexeme) : Parse Command := do
    if (startsRedirect? lexemes).isSome then set lexemes.tail
    fail none
  /-- Fails where a redirection without a target stands next. -/
  refuseRedirect : Parse Unit := do
    match startsRedirect? (← get) with
    | some rest =>
      set rest
      fail none
    | none => pure ()
  /-- What follows the operator of a redirection that stands next. -/
  startsRedirect? : List Lexeme → Option (List Lexeme)
    | .operator text _ :: rest => if (redirect? none text []).isSome then some rest else none
    | .descriptor _ :: .operator _ _ :: rest => some rest
    | _ => none

mutual
/-- Commands up to a closing word or operator. -/
def list : (bound : Nat) → Parse Command
  | 0 => fail none
  | bound + 1 => return .sequence (← commands true bound)

/-- The commands of a list, of which one may be required. -/
def commands (required : Bool) : (bound : Nat) → Parse (List Command)
  | 0 => fail none
  | bound + 1 => do
    skipNewlines
    let lexemes ← get
    if closesList lexemes then
      if required && !lexemes.isEmpty then fail none else return []
    else
      let first ← andOr bound
      if ← trySeparator then return first :: (← commands false bound) else return [first]

/-- A command, and those that its outcome decides on. -/
def andOr : (bound : Nat) → Parse Command
  | 0 => fail none
  | bound + 1 => do
    let first ← pipeline bound
    moreAndOr first bound

/-- What `&&` and `||` join to a command. -/
def moreAndOr (first : Command) : (bound : Nat) → Parse Command
  | 0 => fail none
  | bound + 1 => do
    if ← tryOperator "&&" then
      skipNewlines
      let second ← pipeline bound
      moreAndOr (.both first second) bound
    else if ← tryOperator "||" then
      skipNewlines
      let second ← pipeline bound
      moreAndOr (.either first second) bound
    else return first

/-- A pipeline, perhaps negated. -/
def pipeline : (bound : Nat) → Parse Command
  | 0 => fail none
  | bound + 1 => do
    if ← tryReserved "!" then return .negated (← pipeline bound)
    else
      match ← stages bound with
      | [stage] => return stage
      | several => return .pipe several

/-- The stages of a pipeline. -/
def stages : (bound : Nat) → Parse (List Command)
  | 0 => fail none
  | bound + 1 => do
    let first ← command bound
    if ← tryOperator "|" then
      skipNewlines
      return first :: (← stages bound)
    else return [first]

/-- One command. -/
def command : (bound : Nat) → Parse Command
  | 0 => fail none
  | bound + 1 => do
    let lexemes ← get
    match lexemes with
    | .word name _ :: .operator "(" _ :: .operator ")" _ :: rest =>
      set rest
      skipNewlines
      return .define ((Lexeme.plainText? name).getD "") (← command bound)
    | .word _ _ :: .operator "(" _ :: rest =>
      set rest
      fail (some ")")
    | _ =>
      if ← tryOperator "(" then
        let body ← list bound
        if ← tryOperator ")" then withRedirects (.isolated body) else fail (some ")")
      else if ← tryReserved "\x7b" then
        let body ← list bound
        expect "\x7d"
        withRedirects body
      else if ← tryReserved "if" then withRedirects (← conditional bound)
      else if ← tryReserved "while" then withRedirects (← looping true bound)
      else if ← tryReserved "until" then withRedirects (← looping false bound)
      else if ← tryReserved "for" then withRedirects (← iteration bound)
      else if ← tryReserved "case" then withRedirects (← selection bound)
      else if (nextReserved? lexemes).isSome then fail none
      else simpleCommand

/-- A test and its branches, after `if` or `elif`. -/
def conditional : (bound : Nat) → Parse Command
  | 0 => fail none
  | bound + 1 => do
    let condition ← list bound
    expect "then"
    let consequent ← list bound
    if ← tryReserved "elif" then
      return .branch condition consequent (← conditional bound)
    else if ← tryReserved "else" then
      let alternative ← list bound
      expect "fi"
      return .branch condition consequent alternative
    else
      expect "fi"
      return .branch condition consequent (.sequence [])

/-- The body of a loop between `do` and `done`. -/
def loopBody : (bound : Nat) → Parse Command
  | 0 => fail none
  | bound + 1 => do
    expect "do"
    let body ← list bound
    expect "done"
    return body

/-- A loop after its first word. -/
def looping (wanted : Bool) : (bound : Nat) → Parse Command
  | 0 => fail none
  | bound + 1 => do
    let condition ← list bound
    return .loop wanted condition (← loopBody bound)

/-- A loop over words, after `for`. -/
def iteration : (bound : Nat) → Parse Command
  | 0 => fail none
  | bound + 1 => do
    let name := (Lexeme.plainText? (← expectWord)).getD ""
    skipNewlines
    match ← get with
    | .word second secondLine :: rest =>
      if Lexeme.plainText? second = some "in" then
        let (items, after) := words rest
        set after
        skipSeparators
        return .forEach name (some items) (← loopBody bound)
      else
        set (Lexeme.word second secondLine :: rest)
        return .forEach name none (← loopBody bound)
    | _ =>
      skipSeparators
      return .forEach name none (← loopBody bound)

/-- A choice by patterns, after `case`. -/
def selection : (bound : Nat) → Parse Command
  | 0 => fail none
  | bound + 1 => do
    let subject ← expectWord
    skipNewlines
    let second ← expectWord
    if Lexeme.plainText? second = some "in" then
      return .choose subject (← cases bound)
    else fail none

/-- The cases of a choice up to `esac`. -/
def cases : (bound : Nat) → Parse (List (List Word × Command))
  | 0 => fail none
  | bound + 1 => do
    skipNewlines
    if ← tryReserved "esac" then return []
    else
      let _ ← tryOperator "("
      let found ← patterns bound
      let body ← commands false bound
      let _ ← tryOperator ";;"
      return (found, .sequence body) :: (← cases bound)
end

/-- The commands up to the end of a line. -/
def line (depth : Nat) : (bound : Nat) → Parse (List Command)
  | 0 => fail none
  | bound + 1 => do
    let first ← andOr depth
    match ← get with
    | [] => return [first]
    | .newline _ :: _ => return [first]
    | _ =>
      if ← trySeparator then
        match ← get with
        | [] => return [first]
        | .newline _ :: _ => return [first]
        | _ => return first :: (← line depth bound)
      else fail none

/-- The commands of a script up to the first fault. A fault spoils all commands of its line. -/
def program (depth lastLine : Nat) :
    (bound : Nat) → List Lexeme → List Command × Option SyntaxFault
  | 0, _ => ([], none)
  | bound + 1, lexemes =>
    match afterNewlines lexemes with
    | [] => ([], none)
    | next =>
      match ((line depth bound).run lastLine).run next with
      | .error fault => ([], some fault)
      | .ok (commands, rest) =>
        let (others, fault) := program depth lastLine bound rest
        (commands ++ others, fault)

end Parser

/-- The commands of a script up to the first fault. -/
def parse (source : List Char) : List Command × Option SyntaxFault :=
  let (lexemes, openQuote) := Lexeme.ofText source
  let lastLine := source.count '\n' + 1
  let complete := if openQuote.isSome then wholeLines lexemes else lexemes
  let (commands, fault) :=
    Parser.program (8 * lexemes.length + 16) lastLine (lexemes.length + 2) complete
  (commands, match openQuote, fault with
    | some quote, some (.unexpected _ "end of file" _) => some quote
    | quote, other => other <|> quote)
where
  /-- The lexemes up to the last line end. -/
  wholeLines (lexemes : List Lexeme) : List Lexeme :=
    (lexemes.reverse.dropWhile fun lexeme =>
      match lexeme with
      | .newline _ => false
      | _ => true).reverse

end LispShell.Script
