import LispShell.Script.Lexeme
import LispShell.Table
import LispShell.Text.Digit

/-! # Arithmetic of scripts
Expressions over 64-bit integers and variables, with the usual operators and their precedence. -/

namespace LispShell.Script.Arithmetic

/-- A lexical unit of an expression. -/
inductive Symbol where
  /-- A number. -/
  | number (value : Int)
  /-- A variable. -/
  | name (text : String)
  /-- An operator or a parenthesis. -/
  | operator (text : String)
  deriving Repr, DecidableEq

/-- The operators, longer ones before their beginnings. -/
def operators : List String :=
  ["<<=", ">>=", "<<", ">>", "<=", ">=", "==", "!=", "&&", "||", "+=", "-=", "*=", "/=", "%=", "+",
    "-", "*", "/", "%", "(", ")", "<", ">", "!", "~", "&", "|", "^", "?", ":", "="]

/-- Why an expression has no value. -/
inductive Fault where
  /-- An operand is missing. -/
  | noOperand
  /-- There is more than one expression. -/
  | more
  /-- A parenthesis is not closed. -/
  | openParen
  /-- A choice has no alternative. -/
  | noAlternative
  /-- A division by zero. -/
  | divisionByZero
  /-- The value of a variable is no number. -/
  | noNumber (text : String)
  deriving Repr, DecidableEq

/-- The wording of a fault in an expression. -/
def Fault.message (text : String) : Fault → String
  | .noOperand => report "expecting primary"
  | .more => report "expecting EOF"
  | .openParen => report "expecting ')'"
  | .noAlternative => report "expecting ':'"
  | .divisionByZero => report "division by zero"
  | .noNumber value => "Illegal number: " ++ value
where
  /-- A report that shows the expression. -/
  report (reason : String) : String :=
    "arithmetic expression: " ++ reason ++ ": \"" ++ text ++ "\""

/-- The digits of a base at the start of the characters, as a whole number, and what follows. -/
def digits (base : Nat) : (value : Nat) → List Char → Nat × List Char
  | value, [] => (value, [])
  | value, c :: rest =>
    match (Text.hexDigit? c).filter (· < base) with
    | some digit => digits base (base * value + digit) rest
    | none => (value, c :: rest)

/-- The numeral at the start of the characters: decimal, octal after a zero, hexadecimal after
`0x`. -/
def numeral : List Char → Int × List Char
  | '0' :: 'x' :: c :: rest =>
    if (Text.hexDigit? c).isSome then
      let (value, after) := digits 16 0 (c :: rest)
      (value, after)
    else (0, 'x' :: c :: rest)
  | '0' :: rest =>
    let (value, after) := digits 8 0 rest
    (value, after)
  | cs =>
    let (value, after) := digits 10 0 cs
    (value, after)

/-- The symbols of an expression; `bound` is greater than the number of characters. -/
def symbols : (bound : Nat) → List Char → Except Fault (List Symbol)
  | 0, _ => .error .noOperand
  | _ + 1, [] => .ok []
  | bound + 1, c :: rest =>
    if c = ' ' ∨ c = '\t' ∨ c = '\n' then symbols bound rest
    else if c.isDigit then do
      let (value, after) := numeral (c :: rest)
      return .number value :: (← symbols bound after)
    else if Lexeme.startsName c then do
      let name := String.ofList ((c :: rest).takeWhile Lexeme.continuesName)
      return .name name :: (← symbols bound ((c :: rest).dropWhile Lexeme.continuesName))
    else
      match operators.find? fun operator => operator.toList.isPrefixOf (c :: rest) with
      | some operator => do
        return .operator operator :: (← symbols bound ((c :: rest).drop operator.length))
      | none => .error .noOperand

/-- An expression. -/
inductive Term where
  /-- A number. -/
  | number (value : Int)
  /-- A variable. -/
  | name (text : String)
  /-- An operator before its operand. -/
  | unary (operator : String) (operand : Term)
  /-- An operator between its operands. -/
  | binary (operator : String) (left right : Term)
  /-- A choice. -/
  | choice (condition consequent alternative : Term)
  /-- An assignment, perhaps with an operator. -/
  | assign (name : String) (operator : String) (value : Term)
  deriving Repr

/-- How tightly an operator between operands binds. -/
def precedence? : String → Option Nat
  | "||" => some 1
  | "&&" => some 2
  | "|" => some 3
  | "^" => some 4
  | "&" => some 5
  | "==" | "!=" => some 6
  | "<" | ">" | "<=" | ">=" => some 7
  | "<<" | ">>" => some 8
  | "+" | "-" => some 9
  | "*" | "/" | "%" => some 10
  | _ => none

/-- The operator that an assignment applies before it assigns. -/
def assignment? : String → Option String
  | "=" => some ""
  | "+=" => some "+"
  | "-=" => some "-"
  | "*=" => some "*"
  | "/=" => some "/"
  | "%=" => some "%"
  | "<<=" => some "<<"
  | ">>=" => some ">>"
  | _ => none

/-- A part of an expression and the symbols after it. -/
abbrev Parsed := Except Fault (Term × List Symbol)

mutual
/-- Reads an assignment or a choice. -/
def expression : (bound : Nat) → List Symbol → Parsed
  | 0, _ => .error .noOperand
  | bound + 1, .name name :: .operator operator :: rest =>
    match assignment? operator with
    | some inner => do
      let (value, after) ← expression bound rest
      return (.assign name inner value, after)
    | none => choice bound (.name name :: .operator operator :: rest)
  | bound + 1, symbols => choice bound symbols

/-- Reads a choice, or what stands before it. -/
def choice : (bound : Nat) → List Symbol → Parsed
  | 0, _ => .error .noOperand
  | bound + 1, symbols => do
    let (condition, rest) ← binaries bound 1 symbols
    match rest with
    | .operator "?" :: rest =>
      match ← expression bound rest with
      | (consequent, .operator ":" :: rest) =>
        let (alternative, rest) ← choice bound rest
        return (.choice condition consequent alternative, rest)
      | _ => throw .noAlternative
    | _ => return (condition, rest)

/-- Reads operands joined by operators that bind at least so tightly. -/
def binaries : (bound : Nat) → (least : Nat) → List Symbol → Parsed
  | 0, _, _ => .error .noOperand
  | bound + 1, least, symbols => do
    let (first, rest) ← operand bound symbols
    moreBinaries bound least first rest

/-- Reads the operators and operands after a first one. -/
def moreBinaries : (bound : Nat) → (least : Nat) → Term → List Symbol → Parsed
  | 0, _, _, _ => .error .noOperand
  | bound + 1, least, left, symbols =>
    match symbols with
    | .operator operator :: rest =>
      match precedence? operator with
      | some tightness =>
        if least ≤ tightness then do
          let (right, after) ← binaries bound (tightness + 1) rest
          moreBinaries bound least (.binary operator left right) after
        else .ok (left, symbols)
      | none => .ok (left, symbols)
    | _ => .ok (left, symbols)

/-- Reads an operand. -/
def operand : (bound : Nat) → List Symbol → Parsed
  | 0, _ => .error .noOperand
  | bound + 1, symbols =>
    match symbols with
    | .number value :: rest => .ok (.number value, rest)
    | .name text :: rest => .ok (.name text, rest)
    | .operator "(" :: rest => do
      match ← expression bound rest with
      | (inner, .operator ")" :: after) => return (inner, after)
      | _ => throw .openParen
    | .operator operator :: rest =>
      if ["-", "+", "!", "~"].contains operator then do
        let (inner, after) ← operand bound rest
        return (.unary operator inner, after)
      else .error .noOperand
    | [] => .error .noOperand
end

/-- The expression that a text holds. -/
def read (text : String) : Except Fault Term := do
  let all ← symbols (text.length + 1) text.toList
  match ← expression (8 * all.length + 16) all with
  | (term, []) => return term
  | _ => throw .more

/-- The number of values that 64 bits have. -/
def modulus : Nat := 0x10000000000000000

/-- The 64 low bits of an integer. -/
def lowBits (value : Int) : Nat :=
  (value % modulus).toNat

/-- The integer with the same 64 low bits. -/
def wrap (value : Int) : Int :=
  Int.bmod value modulus

/-- A power of two; the exponent counts modulo 64. -/
def powerOfTwo (exponent : Int) : Nat :=
  Nat.pow 2 (exponent % 64).toNat

/-- The number of a truth value. -/
def ofBool (truth : Bool) : Int :=
  if truth then 1 else 0

/-- The bits of two integers combined. -/
def onBits (combine : Nat → Nat → Nat) (x y : Int) : Int :=
  wrap (combine (lowBits x) (lowBits y))

/-- Applies an operator between operands. -/
def apply (operator : String) (x y : Int) : Except Fault Int :=
  match operator with
  | "||" => .ok (ofBool (x != 0 || y != 0))
  | "&&" => .ok (ofBool (x != 0 && y != 0))
  | "|" => .ok (onBits (· ||| ·) x y)
  | "^" => .ok (onBits (· ^^^ ·) x y)
  | "&" => .ok (onBits (· &&& ·) x y)
  | "==" => .ok (ofBool (x == y))
  | "!=" => .ok (ofBool (x != y))
  | "<" => .ok (ofBool (x < y))
  | ">" => .ok (ofBool (x > y))
  | "<=" => .ok (ofBool (x ≤ y))
  | ">=" => .ok (ofBool (x ≥ y))
  | "<<" => .ok (wrap (x * powerOfTwo y))
  | ">>" => .ok (x / powerOfTwo y)
  | "+" => .ok (wrap (x + y))
  | "-" => .ok (wrap (x - y))
  | "*" => .ok (wrap (x * y))
  | "/" => if y = 0 then .error .divisionByZero else .ok (wrap (x.tdiv y))
  | "%" => if y = 0 then .error .divisionByZero else .ok (x.tmod y)
  | _ => .ok y

/-- The number that the value of a variable stands for. -/
def numberOf (text : String) : Except Fault Int :=
  let (negative, unsigned) :=
    match text.toList with
    | '-' :: rest => (true, rest)
    | '+' :: rest => (false, rest)
    | other => (false, other)
  match unsigned with
  | [] => if text == "" then .ok 0 else .error (.noNumber text)
  | c :: rest =>
    match numeral (c :: rest) with
    | (value, []) =>
      if c.isDigit then .ok (if negative then -value else value) else .error (.noNumber text)
    | _ => .error (.noNumber text)

/-- The value of an expression, and the variables after its assignments. -/
def value (bindings : Table String) : Term → Except Fault (Int × Table String)
  | .number value => .ok (wrap value, bindings)
  | .name text => do
    let number ← numberOf ((bindings.find? text).getD "")
    return (wrap number, bindings)
  | .unary operator operand => do
    let (x, bindings) ← value bindings operand
    match operator with
    | "-" => return (wrap (-x), bindings)
    | "!" => return (ofBool (x == 0), bindings)
    | "~" => return (-x - 1, bindings)
    | _ => return (x, bindings)
  | .binary operator left right => do
    let (x, bindings) ← value bindings left
    if operator = "&&" ∧ x = 0 then return (0, bindings)
    else if operator = "||" ∧ x ≠ 0 then return (1, bindings)
    else
      let (y, bindings) ← value bindings right
      return (← apply operator x y, bindings)
  | .choice condition consequent alternative => do
    let (x, bindings) ← value bindings condition
    if x ≠ 0 then value bindings consequent else value bindings alternative
  | .assign name operator operand => do
    let (y, bindings) ← value bindings operand
    let old ← if operator = "" then pure 0 else numberOf ((bindings.find? name).getD "")
    let result ← apply operator old y
    return (result, bindings.insert name (toString result))

end LispShell.Script.Arithmetic
