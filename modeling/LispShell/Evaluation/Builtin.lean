/-! # Builtins
The names that mean something before any definition. -/

namespace LispShell

/-- An operation that the shell knows by itself. -/
inductive Builtin where
  /-- Sum of any number of operands. -/
  | add
  /-- Difference. -/
  | subtract
  /-- Product of any number of operands. -/
  | multiply
  /-- Quotient. -/
  | divide
  /-- Remainder with the sign of the dividend. -/
  | remainder
  /-- Power. -/
  | power
  /-- Strict order. -/
  | less
  /-- Strict order the other way round. -/
  | greater
  /-- Order. -/
  | lessOrEqual
  /-- Order the other way round. -/
  | greaterOrEqual
  /-- Equality of values. -/
  | equal
  /-- Choice between two branches. -/
  | ifThenElse
  /-- Whether all operands are true. -/
  | all
  /-- Whether any operand is true. -/
  | any
  /-- Negation. -/
  | negate
  /-- First item of a sequence. -/
  | first
  /-- A sequence without its first item. -/
  | rest
  /-- The list of the operands. -/
  | list
  /-- A sequence with an item before it. -/
  | cons
  /-- Definition of a name. -/
  | define
  /-- Definition of a function. -/
  | defineFunction
  /-- Definition of an alias. -/
  | defineAlias
  /-- Local bindings. -/
  | bind
  /-- Change of the working directory. -/
  | enter
  /-- End of the session. -/
  | exit
  /-- Value of an environment variable. -/
  | getVariable
  /-- Change of an environment variable. -/
  | setVariable
  /-- Replacement of a file. -/
  | write
  /-- Extension of a file. -/
  | append
  /-- Content of a file. -/
  | read
  deriving Repr, DecidableEq

namespace Builtin

/-- Every builtin. -/
def everyOne : List Builtin :=
  [.add, .subtract, .multiply, .divide, .remainder, .power, .less, .greater, .lessOrEqual,
    .greaterOrEqual, .equal, .ifThenElse, .all, .any, .negate, .first, .rest, .list, .cons,
    .define, .defineFunction, .defineAlias, .bind, .enter, .exit, .getVariable, .setVariable,
    .write, .append, .read]

/-- The name that calls the builtin. -/
def name : Builtin → String
  | .add => "+"
  | .subtract => "-"
  | .multiply => "*"
  | .divide => "/"
  | .remainder => "%"
  | .power => "^"
  | .less => "<"
  | .greater => ">"
  | .lessOrEqual => "<="
  | .greaterOrEqual => ">="
  | .equal => "="
  | .ifThenElse => "if"
  | .all => "and"
  | .any => "or"
  | .negate => "not"
  | .first => "first"
  | .rest => "rest"
  | .list => "list"
  | .cons => "cons"
  | .define => "def"
  | .defineFunction => "defun"
  | .defineAlias => "alias"
  | .bind => "let"
  | .enter => "cd"
  | .exit => "exit"
  | .getVariable => "getenv"
  | .setVariable => "export"
  | .write => "write"
  | .append => "append"
  | .read => "read"

/-- The builtin that a name calls. -/
def ofName? (name : String) : Option Builtin :=
  everyOne.find? (·.name == name)

/-- What the builtin says of the number of operands it needs. -/
def arityText : Builtin → String
  | .subtract | .divide | .remainder | .power | .less | .greater | .lessOrEqual
  | .greaterOrEqual | .equal => "requires exactly 2 arguments"
  | .ifThenElse | .defineFunction => "requires three arguments"
  | .negate | .first | .rest | .getVariable | .read => "requires one argument"
  | .cons | .define | .bind | .setVariable | .write | .append => "requires two arguments"
  | .defineAlias => "requires a name and a replacement"
  | .enter | .exit => "takes at most one argument"
  | .add | .multiply | .all | .any | .list => "takes any number of arguments"

end Builtin

end LispShell
