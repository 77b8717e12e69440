import LispShell.Evaluation.Run
import LispShell.Number.Numeral

/-! # Operands
What a builtin may do with its operands, which it gets unevaluated: evaluate them, take their text
or their number, print them and substitute in them. Walks over an expression go no deeper than the
room that evaluation has left. -/

namespace LispShell

/-- How a builtin evaluates its operands. -/
structure Operands where
  /-- The levels of evaluation left. -/
  room : Nat
  /-- Evaluates an operand to a value. -/
  value : Expr → Run Expr

namespace Operands

/-- Goes on only if there is room for so many levels. -/
def within {α : Type} (room levels : Nat) (result : α) : Run α :=
  if levels ≤ room then pure result else Run.fail .evaluationTooDeep

/-- The flattened text of an expression. -/
def flatten (room : Nat) (e : Expr) : Run String :=
  within room e.height e.flatten

/-- The printed form of an expression. -/
def render (room : Nat) (e : Expr) : Run String :=
  within room e.height e.render

/-- Substitution in an expression. -/
def substitute (room : Nat) (body : Expr) (name : String) (value : Expr) : Run Expr :=
  within room body.callHeight (body.substitute name value)

/-- The number that a value stands for. -/
def number (room : Nat) (e : Expr) : Run Float := do
  let text ← flatten room e
  match Numeral.read text with
  | .ok x => pure x
  | .error .notANumber => Run.fail (.notANumber text)
  | .error .lookalike => Run.fail (.lookalikeNumber text)

/-- Evaluates an operand and takes its text. -/
def text (operands : Operands) (e : Expr) : Run String := do
  flatten operands.room (← operands.value e)

/-- Evaluates an operand and takes its number. -/
def numeric (operands : Operands) (e : Expr) : Run Float := do
  number operands.room (← operands.value e)

/-- Whether an operand evaluates to the text of truth. -/
def isTrue (operands : Operands) (e : Expr) : Run Bool := do
  return (← operands.text e) == "true"

end Operands

end LispShell
