import LispShell.World.FileTree

/-! # Tests of scripts
The conditions of `test`: on files, on texts and on integers, joined by `-a` and `-o`. A reader
keeps its place as the words from the last one that it used on. -/

namespace LispShell.Script.Test

/-- What tests on files look at. -/
structure Files where
  /-- The files. -/
  tree : FileTree
  /-- The working directory. -/
  workingDirectory : WorkingDirectory

/-- The entry that a path names. -/
def Files.entry? (files : Files) (path : String) : Option Entry :=
  match files.tree.find? files.workingDirectory path with
  | .ok (_, entry) => some entry
  | .error _ => none

/-- Whether a path is a link. -/
def Files.isLink (files : Files) (path : String) : Bool :=
  match files.tree.resolve .link files.workingDirectory path with
  | .ok (.found _ (.link _)) => true
  | _ => false

/-- Why a test makes no sense. -/
inductive Fault where
  /-- A word stands where only an operator could. -/
  | unexpected (word : String)
  /-- An operator has no operand. -/
  | noOperand (operator : String)
  /-- An operand is no integer. -/
  | noInteger (operand : String)
  /-- A parenthesis is not closed. -/
  | openParen
  deriving Repr, DecidableEq

/-- The wording of a fault of a test. -/
def Fault.message : Fault → String
  | .unexpected word => word ++ ": unexpected operator"
  | .noOperand operator => operator ++ ": argument expected"
  | .noInteger operand => "Illegal number: " ++ operand
  | .openParen => "closing paren expected"

/-- What a word of a test is. -/
inductive Symbol where
  /-- There is no word. -/
  | none
  /-- A text. -/
  | operand
  /-- An operator before its operand. -/
  | unary (name : String)
  /-- An operator between its operands. -/
  | binary (name : String)
  /-- The sign of negation. -/
  | negation
  /-- The sign between conditions that must all hold. -/
  | conjunction
  /-- The sign between conditions of which one must hold. -/
  | disjunction
  /-- An opening parenthesis. -/
  | openParen
  /-- A closing parenthesis. -/
  | closeParen
  deriving Repr, DecidableEq

/-- The operators before an operand. -/
def unaryOperators : List String :=
  ["-n", "-z", "-e", "-r", "-w", "-x", "-f", "-d", "-s", "-h", "-L", "-c", "-b", "-p", "-u", "-g",
    "-k", "-t", "-O", "-G", "-S"]

/-- The operators between two operands. -/
def binaryOperators : List String :=
  ["=", "!=", "<", ">", "-eq", "-ne", "-lt", "-le", "-gt", "-ge", "-nt", "-ot", "-ef"]

/-- What a word is by its spelling, unless it is a text. -/
def operator? (word : String) : Option Symbol :=
  if unaryOperators.contains word then some (.unary word)
  else if binaryOperators.contains word then some (.binary word)
  else
    match word with
    | "!" => some .negation
    | "-a" => some .conjunction
    | "-o" => some .disjunction
    | "(" => some .openParen
    | ")" => some .closeParen
    | _ => none

/-- Whether the word of an operator before an operand is a text, by the words after it. -/
def isOperand : List String → Bool
  | [] => true
  | [_] => false
  | next :: _ => binaryOperators.contains next

/-- What the first word is. -/
def symbol : List String → Symbol
  | [] => .none
  | word :: rest =>
    match operator? word with
    | some (.unary name) => if isOperand rest then .operand else .unary name
    | some .openParen => if rest.isEmpty then .operand else .openParen
    | some other => other
    | none => .operand

/-- A test of one operand. -/
def unary (files : Files) (operator operand : String) : Bool :=
  let entry := files.entry? operand
  let isFile :=
    match entry with
    | some (.file _ _) => true
    | some .interpreter => true
    | _ => false
  match operator with
  | "-n" => operand != ""
  | "-z" => operand == ""
  | "-f" => isFile
  | "-d" => entry == some .directory
  | "-c" => entry == some .nullDevice
  | "-h" => files.isLink operand
  | "-L" => files.isLink operand
  | "-x" =>
    match entry with
    | some (.file _ isProgram) => isProgram
    | some .directory => true
    | some .interpreter => true
    | _ => false
  | "-s" =>
    match entry with
    | some (.file content _) => !content.isEmpty
    | some .directory => true
    | some .interpreter => true
    | _ => false
  | _ => ["-e", "-r", "-w", "-O", "-G"].contains operator && entry.isSome

/-- An integer operand. -/
def integer (text : String) : Except Fault Int :=
  let trimmed := ((text.toList.dropWhile Char.isWhitespace).reverse.dropWhile Char.isWhitespace)
  let unsigned := trimmed.reverse
  let (negative, digits) :=
    match unsigned with
    | '-' :: rest => (true, rest)
    | '+' :: rest => (false, rest)
    | other => (false, other)
  match (String.ofList digits).toNat? with
  | some size =>
    let value : Int := if negative then -size else size
    if digits.contains '_' ∨ value < -9223372036854775808 ∨ 9223372036854775807 < value then
      .error (.noInteger text)
    else .ok value
  | none => .error (.noInteger text)

/-- A test of two integers. -/
def compare (relation : Int → Int → Bool) (left right : String) : Except Fault Bool := do
  return relation (← integer left) (← integer right)

/-- A test of two operands. -/
def binary (left operator right : String) : Except Fault Bool :=
  match operator with
  | "=" => .ok (left == right)
  | "!=" => .ok (left != right)
  | "<" => .ok (left < right)
  | ">" => .ok (right < left)
  | "-eq" => compare (fun x y => x == y) left right
  | "-ne" => compare (fun x y => x != y) left right
  | "-lt" => compare (fun x y => x < y) left right
  | "-le" => compare (fun x y => x ≤ y) left right
  | "-gt" => compare (fun x y => x > y) left right
  | "-ge" => compare (fun x y => x ≥ y) left right
  | _ => .ok false

/-- A condition on two operands, whose first is the first word. -/
def betweenOperands : List String → Except Fault (Bool × List String)
  | left :: operator :: right :: rest => return (← binary left operator right, right :: rest)
  | [_, operator] => .error (.noOperand operator)
  | words => .ok (false, words)

mutual
/-- Conditions of which one must hold. -/
def alternatives (files : Files) :
    (bound : Nat) → Symbol → List String → Except Fault (Bool × List String)
  | 0, _, words => .ok (false, words)
  | bound + 1, found, words => do
    let (first, words) ← conjunction files bound found words
    if symbol words.tail = .disjunction then
      let next := words.tail.tail
      let (second, words) ← alternatives files bound (symbol next) next
      return (first || second, words)
    else return (first, words)

/-- Conditions that must all hold. -/
def conjunction (files : Files) :
    (bound : Nat) → Symbol → List String → Except Fault (Bool × List String)
  | 0, _, words => .ok (false, words)
  | bound + 1, found, words => do
    let (first, words) ← negated files bound found words
    if symbol words.tail = .conjunction then
      let next := words.tail.tail
      let (second, words) ← conjunction files bound (symbol next) next
      return (first && second, words)
    else return (first, words)

/-- A condition or its negation. -/
def negated (files : Files) :
    (bound : Nat) → Symbol → List String → Except Fault (Bool × List String)
  | 0, _, words => .ok (false, words)
  | bound + 1, found, words =>
    if found = .negation then do
      let next := symbol words.tail
      let (outcome, words) ←
        negated files bound next (if next = .none then words else words.tail)
      return (!outcome, words)
    else condition files bound found words

/-- A single condition. -/
def condition (files : Files) :
    (bound : Nat) → Symbol → List String → Except Fault (Bool × List String)
  | 0, _, words => .ok (false, words)
  | bound + 1, found, words =>
    match found with
    | .none => .ok (false, words)
    | .openParen => do
      let inner := words.tail
      if symbol inner = .closeParen then return (false, inner)
      else
        let (outcome, words) ← alternatives files bound (symbol inner) inner
        if symbol words.tail = .closeParen then return (outcome, words.tail)
        else throw .openParen
    | .unary name =>
      match words.tail with
      | [] => .error (.noOperand name)
      | operand :: rest => .ok (unary files name operand, operand :: rest)
    | _ =>
      match symbol words.tail with
      | .binary _ => betweenOperands words
      | _ => .ok (words.head? != some "", words)
end

/-- The outcome of a test that starts with a symbol. -/
def whole (files : Files) (found : Symbol) (words : List String) : Except Fault Bool := do
  let (outcome, left) ← alternatives files (8 * words.length + 16) found words
  match left with
  | word :: _ :: _ => throw (.unexpected word)
  | _ => return outcome

/-- The outcome of a test. Up to four words are read by their number first: an operator in the
middle of three words, outer parentheses or a negation count before all else. -/
def outcome (files : Files) : List String → Except Fault Bool
  | [] => .ok false
  | [left, operator, right] =>
    if binaryOperators.contains operator then whole files .operand [left, operator, right]
    else if left = "(" ∧ right = ")" then whole files (symbol [operator]) [operator]
    else if left = "!" then (outcome files [operator, right]).map not
    else whole files (symbol [left, operator, right]) [left, operator, right]
  | ["(", first, second, ")"] => whole files (symbol [first, second]) [first, second]
  | ["!", first, second, third] => (outcome files [first, second, third]).map not
  | words => whole files (symbol words) words

end LispShell.Script.Test
