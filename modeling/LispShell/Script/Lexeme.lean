import LispShell.Script.Syntax
import LispShell.World.Path

/-! # Lexemes of scripts
Words, operators and line ends. Quotes and expansions are read as part of the word they stand in.
Each function takes a bound on the number of characters it may still read. -/

namespace LispShell.Script

/-- A lexical unit of a script, with its line. -/
inductive Lexeme where
  /-- A word. -/
  | word (parts : Word) (line : Nat)
  /-- The descriptor before a redirection. -/
  | descriptor (number : Nat)
  /-- An operator. -/
  | operator (text : String) (line : Nat)
  /-- A text of the lines below, up to one that ends it. -/
  | below (content : Word)
  /-- The end of a line. -/
  | newline (line : Nat)
  deriving Repr

namespace Lexeme

/-- Whether a name may start with the character. -/
def startsName (c : Char) : Bool :=
  c.isAlpha || c == '_'

/-- Whether a name may go on with the character. -/
def continuesName (c : Char) : Bool :=
  c.isAlphanum || c == '_'

/-- Whether the text is a name. -/
def isName (text : String) : Bool :=
  match text.toList with
  | [] => false
  | c :: rest => startsName c && rest.all continuesName

/-- Whether the character ends a word outside quotes. -/
def endsWord (c : Char) : Bool :=
  " \t\n;&|()<>".toList.contains c

/-- Where the characters of a word part stand. -/
inductive Context where
  /-- Outside quotes; the word ends before a blank or an operator. -/
  | bare
  /-- Between double quotes; the part ends with the closing quote. -/
  | quoted
  /-- Between braces, which may be between double quotes; the part ends with the closing brace. -/
  | braced (quoted : Bool)
  /-- A text on its own, read like one between double quotes. -/
  | whole
  deriving DecidableEq

/-- Whether the context is between double quotes. -/
def Context.isQuoted : Context → Bool
  | .bare => false
  | .quoted => true
  | .braced inQuotes => inQuotes
  | .whole => true

/-- The characters up to the parenthesis that closes the open ones, quotes skipped, and what follows
it. -/
def takeBalanced (depth : Nat) (quote : Option Char) :
    List Char → Option (List Char × List Char)
  | [] => none
  | '\\' :: c :: rest =>
    (takeBalanced depth quote rest).map fun (inner, after) => ('\\' :: c :: inner, after)
  | c :: rest =>
    let goOn := fun depth quote =>
      (takeBalanced depth quote rest).map fun (inner, after) => (c :: inner, after)
    match quote with
    | some opening => goOn depth (if c = opening then none else some opening)
    | none =>
      if c = '\'' ∨ c = '"' then goOn depth (some c)
      else if c = '(' then goOn (depth + 1) none
      else if c = ')' then
        match depth with
        | 0 => some ([], rest)
        | outer + 1 => goOn outer none
      else goOn depth none

/-- The characters between back quotes, and what follows the closing one. -/
def takeBackquoted : List Char → Option (List Char × List Char)
  | [] => none
  | '\x60' :: rest => some ([], rest)
  | '\\' :: c :: rest =>
    (takeBackquoted rest).map fun (inner, after) =>
      (if "$`\\".toList.contains c then (c :: inner, after) else ('\\' :: c :: inner, after))
  | c :: rest => (takeBackquoted rest).map fun (inner, after) => (c :: inner, after)

/-- The characters up to the next single quote, and what follows it. -/
def takeSingle : List Char → Option (List Char × List Char)
  | [] => none
  | '\'' :: rest => some ([], rest)
  | c :: rest => (takeSingle rest).map fun (inner, after) => (c :: inner, after)

/-- The name of the parameter at the start of the characters, and what follows it. -/
def takeParamName : List Char → Option (String × List Char)
  | [] => none
  | c :: rest =>
    if startsName c then
      some (String.ofList (c :: rest.takeWhile continuesName), rest.dropWhile continuesName)
    else if c.isDigit then
      some (String.ofList (c :: rest.takeWhile Char.isDigit), rest.dropWhile Char.isDigit)
    else if "@*#?$!-".toList.contains c then some (String.singleton c, rest)
    else none

/-- The fallback that a character asks for. -/
def fallback? : Char → Option Fallback
  | '-' => some .substitute
  | '=' => some .assign
  | '?' => some .complain
  | '+' => some .alternative
  | _ => none

mutual
/-- The parts of a word in a context, and what follows the word. -/
def takeParts (context : Context) : (bound : Nat) → List Char → Option (Word × List Char)
  | 0, _ => none
  | _ + 1, [] =>
    match context with
    | .bare => some ([], [])
    | .whole => some ([], [])
    | _ => none
  | bound + 1, c :: rest =>
    let quoted := context.isQuoted
    let before := fun (part : WordPart) (after : List Char) =>
      (takeParts context bound after).map fun (parts, after) => (part :: parts, after)
    if context = .bare ∧ endsWord c then some ([], c :: rest)
    else if context = .quoted ∧ c = '"' then some ([], rest)
    else if context = .braced quoted ∧ c = '}' then some ([], rest)
    else if c = '\'' ∧ !quoted then
      match takeSingle rest with
      | some (inner, after) => before (.text (String.ofList inner) true) after
      | none => none
    else if c = '"' ∧ context ≠ .whole then
      match takeParts .quoted bound rest with
      | some ([], after) => before (.text "" true) after
      | some (inner, after) =>
        (takeParts context bound after).map fun (parts, after) => (inner ++ parts, after)
      | none => none
    else if c = '\\' then
      match rest with
      | [] => before (.text "\\" true) []
      | '\n' :: after => takeParts context bound after
      | escaped :: after =>
        if !quoted || "$`\"\\".toList.contains escaped then
          before (.text (String.singleton escaped) true) after
        else before (.text "\\" true) rest
    else if c = '$' then
      match takeExpansion quoted bound rest with
      | some (part, after) => before part after
      | none => none
    else if c = '\x60' then
      match takeBackquoted rest with
      | some (inner, after) => before (.output (String.ofList inner) quoted) after
      | none => none
    else before (.text (String.singleton c) quoted) rest

/-- The expansion after a dollar sign, and what follows it. -/
def takeExpansion (quoted : Bool) : (bound : Nat) → List Char → Option (WordPart × List Char)
  | 0, _ => none
  | bound + 1, '(' :: '(' :: rest =>
    match takeBalanced 1 none rest with
    | some (inner, after) =>
      match inner.getLast?, takeParts .whole bound inner.dropLast with
      | some ')', some (parts, _) => some (.arithmetic parts quoted, after)
      | _, _ => some (.output (String.ofList ('(' :: inner)) quoted, after)
    | none => none
  | _ + 1, '(' :: rest =>
    (takeBalanced 0 none rest).map fun (inner, after) =>
      (.output (String.ofList inner) quoted, after)
  | bound + 1, '{' :: rest => takeBraced quoted bound rest
  | _ + 1, cs =>
    match takeParamName cs with
    | none => some (.text "$" true, cs)
    | some (name, after) =>
      match cs with
      | c :: rest =>
        if c.isDigit then some (.param (String.singleton c) quoted, rest)
        else some (.param name quoted, after)
      | [] => some (.param name quoted, after)

/-- The expansion after a dollar sign and a brace, and what follows it. -/
def takeBraced (quoted : Bool) : (bound : Nat) → List Char → Option (WordPart × List Char)
  | 0, _ => none
  | bound + 1, cs =>
    match cs with
    | '#' :: c :: rest =>
      if c ≠ '}' then
        match takeParamName (c :: rest) with
        | some (name, '}' :: after) => some (.length name, after)
        | _ => none
      else some (.param "#" quoted, rest)
    | _ =>
      let senseless := (WordPart.invalid, (cs.dropWhile (· != '}')).tail)
      match takeParamName cs with
      | none => some senseless
      | some (name, '}' :: after) => some (.param name quoted, after)
      | some (name, ':' :: sign :: after) =>
        match fallback? sign, takeParts (.braced quoted) bound after with
        | some fallback, some (parts, after) =>
          some (.orElse name fallback true parts quoted, after)
        | some _, none => none
        | none, _ => some senseless
      | some (name, c :: after) =>
        if c = '#' ∨ c = '%' then
          let longest := after.head? = some c
          match takeParts (.braced false) bound (if longest then after.tail else after) with
          | some (pattern, after) =>
            some (.trimmed name (c = '%') longest pattern quoted, after)
          | none => none
        else
          match fallback? c, takeParts (.braced quoted) bound after with
          | some fallback, some (parts, after) =>
            some (.orElse name fallback false parts quoted, after)
          | some _, none => none
          | none, _ => some senseless
      | some (_, []) => none
end

/-- The operators, longer ones before their beginnings. -/
def operators : List String :=
  ["<<-", "&&", "||", ";;", ">>", "<<", ">&", "<&", ">|", "&", "|", ";", "(", ")", "<", ">"]

/-- The operator at the start of the characters. -/
def operator? (cs : List Char) : Option String :=
  operators.find? fun text => text.toList.isPrefixOf cs

/-- Whether the characters go on with a redirection. -/
def beforeRedirect (cs : List Char) : Bool :=
  cs.head? == some '<' || cs.head? == some '>'

/-- The number of line ends among the characters of one list that are not in its tail. -/
def linesBetween (whole rest : List Char) : Nat :=
  (whole.take (whole.length - rest.length)).count '\n'

/-- The text of a word in which nothing is expanded. -/
def literal : Word → String
  | [] => ""
  | .text value _ :: rest => value ++ literal rest
  | _ :: rest => literal rest

/-- Whether a part of the word is quoted. -/
def hasQuotes (parts : Word) : Bool :=
  parts.any fun part =>
    match part with
    | .text _ quoted => quoted
    | _ => false

/-- The lines up to the one that is the given text, with or without the tabs at their starts, and
the number of characters up to and with that one. -/
def linesUpTo (ending : List Char) (dropTabs : Bool) (cs : List Char) : List Char × Nat :=
  let lines := Path.splitOn '\n' cs
  let trim := fun (line : List Char) => if dropTabs then line.dropWhile (· == '\t') else line
  let kept := lines.takeWhile fun line => trim line != ending
  let endLength := ((lines.drop kept.length).head?.map (·.length + 1)).getD 0
  let shown := if lines.length = kept.length then kept.dropLast else kept
  (shown.flatMap fun line => trim line ++ ['\n'],
    kept.foldl (fun sum line => sum + line.length + 1) endLength)

/-- The lexemes of a script. `passed` is the number of characters below this line that are texts
already read. -/
def scan : (bound : Nat) → (line passed : Nat) → List Char → List Lexeme × Option SyntaxFault
  | 0, _, _, _ => ([], none)
  | _ + 1, _, _, [] => ([], none)
  | bound + 1, line, passed, c :: rest =>
    let before := fun (lexeme : Lexeme) (result : List Lexeme × Option SyntaxFault) =>
      (lexeme :: result.1, result.2)
    if c = '\n' then
      before (.newline line)
        (scan bound (line + 1 + (rest.take passed).count '\n') 0 (rest.drop passed))
    else if c = ' ' ∨ c = '\t' then scan bound line passed rest
    else if c = '\\' ∧ rest.head? = some '\n' then scan bound (line + 1) passed rest.tail
    else if c = '#' then scan bound line passed (rest.dropWhile (· != '\n'))
    else
      match operator? (c :: rest) with
      | some text =>
        let after := (c :: rest).drop text.length
        if "<<".toList.isPrefixOf text.toList then
          match takeParts .bare bound (after.dropWhile fun c => c == ' ' || c == '\t') with
          | some (ending, after) =>
            let lower := ((after.dropWhile (· != '\n')).tail).drop passed
            let (content, length) := linesUpTo (literal ending).toList (text == "<<-") lower
            let parts :=
              if hasQuotes ending then [.text (String.ofList content) true]
              else ((takeParts .whole bound content).map (·.1)).getD []
            before (.operator "<<" line)
              (before (.below parts) (scan bound line (passed + length) after))
          | none => ([], some (.openQuote (line + rest.count '\n')))
        else before (.operator text line) (scan bound line passed after)
      | none =>
        let digits := (c :: rest).takeWhile Char.isDigit
        let after := (c :: rest).dropWhile Char.isDigit
        if c.isDigit ∧ beforeRedirect after then
          before (.descriptor ((String.ofList digits).toNat?.getD 0)) (scan bound line passed after)
        else
          match takeParts .bare bound (c :: rest) with
          | some (parts, after) =>
            before (.word parts line)
              (scan bound (line + linesBetween (c :: rest) after) passed after)
          | none => ([], some (.openQuote (line + rest.count '\n')))

/-- The lexemes of a script text. -/
def ofText (source : List Char) : List Lexeme × Option SyntaxFault :=
  scan (2 * source.length + 8) 1 0 source

/-- The text of a word that is written without quotes and expansions. -/
def plainText? : Word → Option String
  | [] => some ""
  | .text value false :: rest => (plainText? rest).map (value ++ ·)
  | _ => none

end Lexeme

end LispShell.Script
