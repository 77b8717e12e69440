import LispShell.Evaluation.Operands
import LispShell.Text.Lines
import LispShell.World.Process

/-! # Commands
A call whose head is neither a `Builtin` nor a `Function` runs a program. A command that is the
whole line writes to the output of the shell and leaves its status in `Session.lastStatus`; the
output of any other is captured, and its value is `linesOf` the output. -/

namespace LispShell.Command

variable [OperatingSystem]

/-- Runs a program with `World.runProcess` and keeps a record of it. -/
def runProcess (path : String) (arguments : List String) (capture : Bool) :
    Run ProcessResult := do
  let past ← Run.effects
  let (result, world) ←
    Run.consult (.argumentUnfit (arguments.headD "")) (·.runProcess past path arguments capture)
  Run.perform (.launch path arguments capture result.status) fun _ => world
  return result

/-- The list of the lines of an output, cut by `Text.splitLines`. -/
def linesOf (output : String) : Expr :=
  .list ((Text.splitLines output).map .atom)

/-- Runs the program that a name stands for. `World.findProgram` looks the name up before any
operand is evaluated. -/
def run (operands : Operands) (isLine : Bool) (name : String) (es : List Expr) : Run Expr := do
  match ← Run.consult .noWorkingDirectory (·.findProgram name) with
  | none => Run.fail (.commandNotFound name)
  | some path =>
    -- the name as written is the first argument
    let texts ← es.mapM operands.text
    let result ← runProcess path (name :: texts) (!isLine)
    if isLine then
      Run.changeSession fun session => { session with lastStatus := result.status }
      return .empty
    else return linesOf (result.output.getD "")

end LispShell.Command
