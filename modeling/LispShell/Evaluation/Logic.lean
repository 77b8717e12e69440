import LispShell.Evaluation.Operands

/-! # Logic
Truth is the text `true`; every other text is false. The connectives evaluate all their operands,
since an operand may be a command that is run for what it does. -/

namespace LispShell.Logic

/-- Whether all operands are true. -/
def all (operands : Operands) (soFar : Bool) : List Expr → Run Expr
  | [] => pure (.ofBool soFar)
  | e :: rest => do
    let truth ← operands.isTrue e
    all operands (truth && soFar) rest

/-- Whether any operand is true. -/
def any (operands : Operands) (soFar : Bool) : List Expr → Run Expr
  | [] => pure (.ofBool soFar)
  | e :: rest => do
    let truth ← operands.isTrue e
    any operands (truth || soFar) rest

/-- The other truth value. -/
def negated? : Expr → Option Expr
  | .atom "true" => some (.ofBool false)
  | .atom "false" => some (.ofBool true)
  | _ => none

/-- Negation. -/
def negate (operands : Operands) : List Expr → Run Expr
  | [e] => do
    match negated? (← operands.value e) with
    | some negated => pure negated
    | none => Run.fail .notABoolean
  | _ => Run.fail (.builtinArity .negate)

/-- Equality of two values. -/
def equal (operands : Operands) : List Expr → Run Expr
  | [first, second] => do
    let a ← operands.value first
    let b ← operands.value second
    -- the comparison goes no deeper than the flatter of the two
    Operands.within operands.room (min a.height b.height) (.ofBool (a.equals b))
  | _ => Run.fail (.builtinArity .equal)

end LispShell.Logic
