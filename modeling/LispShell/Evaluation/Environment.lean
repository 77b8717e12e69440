import LispShell.Evaluation.Operands
import LispShell.Number.Operation

/-! # Environment and files
The builtins that act on the world: the working directory, the environment variables and whole
files. -/

namespace LispShell.Environment

/-- Enters the directory at a path and sets the variable `PWD` to the path that it has. -/
def enterAt (path : String) : Run Expr := do
  Run.tryPerform (.enter path) .cannotEnter (·.enter path)
  -- a directory that was removed can be entered, but has no path
  let here ← Run.consult .noWorkingDirectory (·.workingDirectoryPath)
  Run.perform (.setVariable "PWD" here) (·.setVariable "PWD" here)
  return .empty

/-- Enters a directory, by default the home directory. -/
def enter (operands : Operands) : List Expr → Run Expr
  | [] => Run.home >>= enterAt
  | [e] => operands.text e >>= enterAt
  | _ => Run.fail (.builtinArity .enter)

/-- Ends the session. -/
def exit (operands : Operands) : List Expr → Run Expr
  | [] => throw (.exit 0)
  | [e] => do
    let value ← operands.value e
    let status ← Operands.number operands.room value
    if Binary64.isFinite status then throw (.exit (Number.truncate status))
    else Run.fail (.invalidStatus value.flatten)
  | _ => Run.fail (.builtinArity .exit)

/-- The value of an environment variable. -/
def getVariable (operands : Operands) : List Expr → Run Expr
  | [e] => do
    let name ← operands.text e
    Run.consult .uncodedVariableName (·.names.check name)
    match (← Run.world).environment.find? name with
    | some value => pure (.atom value)
    | none => Run.fail (.unsetVariable name)
  | _ => Run.fail (.builtinArity .getVariable)

/-- Why the variable cannot be set, if it cannot. -/
def variableFault? (world : World) (name value : String) : Option Fault :=
  match [name, value].forM world.names.check with
  | .error report => some (.variableRefused (.unfit (.uncoded report)))
  | .ok () =>
    if World.hasNul name || World.hasNul value then some (.variableRefused (.unfit .nul))
    else if name.toList.contains '=' then some (.variableRefused .illegalName)
    else if name == "" then some .emptyVariableName
    else none

/-- Sets an environment variable. -/
def setVariable (operands : Operands) : List Expr → Run Expr
  | [target, e] => do
    let name ← operands.text target
    let value ← operands.text e
    match variableFault? (← Run.world) name value with
    | some cause => Run.fail cause
    | none =>
      Run.perform (.setVariable name value) (·.setVariable name value)
      return .empty
  | _ => Run.fail (.builtinArity .setVariable)

/-- Stores the text of one operand in the file named by another. -/
def store (operands : Operands) (builtin : Builtin) (mode : FileTree.WriteMode) :
    List Expr → Run Expr
  | [first, second] => do
    let content ← operands.text first
    let path ← operands.text second
    Run.tryPerform (.store mode content path) (.fileFailed builtin)
      (·.writeText mode content path)
    return .empty
  | _ => Run.fail (.builtinArity builtin)

/-- The content of a file as one atom. -/
def read (operands : Operands) : List Expr → Run Expr
  | [e] => do
    let path ← operands.text e
    let content ← Run.consult (.fileFailed .read) (·.readText path)
    return .atom content
  | _ => Run.fail (.builtinArity .read)

end LispShell.Environment
