import LispShell.Evaluation.Operands
import LispShell.Number.Format
import LispShell.Number.Operation

/-! # Arithmetic
The numeric builtins. Operands are taken as doubles, from left to right, and results are the texts
of doubles. -/

namespace LispShell.Arithmetic

/-- The atom of a number. -/
def ofFloat (x : Float) : Expr :=
  .atom (formatNumber x)

/-- Combines any number of operands, starting from the neutral one. -/
def fold (operands : Operands) (combine : Float → Float → Float) (neutral : Float) :
    List Expr → Run Expr
  | [] => pure (ofFloat neutral)
  | e :: rest => do
    let x ← operands.numeric e
    fold operands combine (combine neutral x) rest

/-- Combines exactly two operands. -/
def binary (operands : Operands) (builtin : Builtin) (combine : Float → Float → Expr) :
    List Expr → Run Expr
  | [first, second] => do
    let x ← operands.numeric first
    let y ← operands.numeric second
    return combine x y
  | _ => Run.fail (.builtinArity builtin)

end LispShell.Arithmetic
