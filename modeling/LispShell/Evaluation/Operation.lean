import LispShell.Evaluation.Arithmetic
import LispShell.Evaluation.Definition
import LispShell.Evaluation.Environment
import LispShell.Evaluation.Logic
import LispShell.Evaluation.Sequence

/-! # Operations
What each builtin does. A choice and a local binding end in a branch, whose evaluation takes their
place; all others give a value by themselves. -/

namespace LispShell

/-- What applying a builtin comes to. -/
inductive Applied where
  /-- A value. -/
  | value (result : Expr)
  /-- The branch to evaluate in place of the call. -/
  | branch (e : Expr)

namespace Builtin

/-- The truth of a comparison of two numbers. -/
def compare (relation : Float → Float → Bool) (x y : Float) : Expr :=
  .ofBool (relation x y)

/-- Applies the choice between two branches. -/
def choose (operands : Operands) : List Expr → Run Expr
  | [condition, consequent, alternative] => do
    return if ← operands.isTrue condition then consequent else alternative
  | _ => Run.fail (.builtinArity .ifThenElse)

/-- Applies local bindings to a body. -/
def bindLocally (operands : Operands) : List Expr → Run Expr
  | [written, body] => do
    let pairs ← Definition.bindings operands written
    Definition.substituteBindings operands body pairs
  | _ => Run.fail (.builtinArity .bind)

/-- Applies a builtin that gives a value by itself. -/
def value (operands : Operands) : Builtin → List Expr → Run Expr
  | .add, es => Arithmetic.fold operands (· + ·) 0 es
  | .multiply, es => Arithmetic.fold operands (· * ·) 1 es
  | .subtract, es =>
    Arithmetic.binary operands .subtract (fun x y => Arithmetic.ofFloat (x - y)) es
  | .divide, es => Arithmetic.binary operands .divide (fun x y => Arithmetic.ofFloat (x / y)) es
  | .remainder, es =>
    Arithmetic.binary operands .remainder
      (fun x y => Arithmetic.ofFloat (Number.remainder x y)) es
  | .power, es =>
    Arithmetic.binary operands .power (fun x y => Arithmetic.ofFloat (Number.power x y)) es
  | .less, es => Arithmetic.binary operands .less (compare fun x y => x < y) es
  | .greater, es => Arithmetic.binary operands .greater (compare fun x y => y < x) es
  | .lessOrEqual, es => Arithmetic.binary operands .lessOrEqual (compare fun x y => x ≤ y) es
  | .greaterOrEqual, es =>
    Arithmetic.binary operands .greaterOrEqual (compare fun x y => y ≤ x) es
  | .equal, es => Logic.equal operands es
  | .ifThenElse, es => choose operands es
  | .all, es => Logic.all operands true es
  | .any, es => Logic.any operands false es
  | .negate, es => Logic.negate operands es
  | .first, es => Sequence.unary operands .first Sequence.first? es
  | .rest, es => Sequence.unary operands .rest Sequence.rest? es
  | .list, es => Sequence.list operands es
  | .cons, es => Sequence.cons operands es
  | .define, es => Definition.define operands es
  | .defineFunction, es => Definition.defineFunction operands es
  | .defineAlias, es => Definition.defineAlias operands es
  | .bind, es => bindLocally operands es
  | .enter, es => Environment.enter operands es
  | .exit, es => Environment.exit operands es
  | .getVariable, es => Environment.getVariable operands es
  | .setVariable, es => Environment.setVariable operands es
  | .write, es => Environment.store operands .write .replace es
  | .append, es => Environment.store operands .append .extend es
  | .read, es => Environment.read operands es

/-- Whether the builtin ends in a branch that is evaluated in its place. -/
def endsInBranch : Builtin → Bool
  | .ifThenElse => true
  | .bind => true
  | _ => false

/-- Applies a builtin to its operands. -/
def apply (operands : Operands) (builtin : Builtin) (es : List Expr) : Run Applied := do
  let result ← builtin.value operands es
  return if builtin.endsInBranch then .branch result else .value result

end Builtin

end LispShell
