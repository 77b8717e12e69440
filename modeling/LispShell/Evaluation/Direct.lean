import LispShell.Evaluation.Evaluator

/-! # Direct evaluation
The evaluation that the language promises, with no thought of room: the body of a function is
evaluated on the spot, inside the call. `depth` bounds the activations at once and nothing else, so
a deeper bound never changes a finished evaluation. -/

namespace LispShell.Evaluation

variable [OperatingSystem]

/-- Evaluates an expression to its value; branches and bodies are evaluated where they arise. -/
def direct : (depth : Nat) → (isLine : Bool) → Expr → Run Expr
  | 0, _, _ => Run.fail .evaluationTooDeep
  | depth + 1, isLine, e =>
    activate
      { room := depth
        value := direct depth false }
      { value := id
        branch := direct depth false
        body := direct depth false }
      isLine e

end LispShell.Evaluation
