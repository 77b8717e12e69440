import LispShell.Evaluation.Command
import LispShell.Evaluation.Operation

/-! # Evaluation
Evaluation puts in place of a call the branch of a choice, the body of a local binding or the body
of a function, its arguments in place of the parameters. One activation does one such step. In
operand position it goes on until there is a value; in tail position it hands the body of a function
back, and `settle` takes one body after the other, so tail calls need no more room however many
there are. The type of a step keeps bodies out of operand position. -/

namespace LispShell

/-- How far evaluation may go. -/
structure Limits where
  /-- The greatest number of activations at once, and of levels walked at once. -/
  depth : Nat
  /-- The greatest number of bodies that one settling takes. -/
  steps : Nat

/-- The limits of a real session. -/
def Limits.standard : Limits := ⟨450, 1000000000000000⟩

/-- What an evaluation comes to. Only in tail position may it be less than a value. -/
inductive Step : (isTail : Bool) → Type where
  /-- A value. -/
  | value {isTail : Bool} (result : Expr) : Step isTail
  /-- A function body still to be evaluated. -/
  | tail (body : Expr) : Step true

/-- The value that an evaluation comes to in operand position. -/
def Step.result : Step false → Expr
  | .value result => result

/-- Goes on to the value, given how a function body gets to its own. -/
def Step.finish {isTail : Bool} (settled : Expr → Run Expr) : Step isTail → Run Expr
  | .value result => pure result
  | .tail body => settled body

/-- How an activation ends. -/
structure Ending (α : Type) where
  /-- With a value. -/
  value : Expr → α
  /-- With a branch that takes the place of the call. -/
  branch : Expr → Run α
  /-- With the body of a function. -/
  body : Expr → Run α

namespace Evaluation

variable [OperatingSystem]

/-- The name that the head of a call stands for. -/
def headName (operands : Operands) : Expr → Run String
  | .atom text => pure text
  -- a head that is a list is named by its text and not evaluated
  | .list items => Operands.flatten operands.room (.list items)
  | .call items => operands.text (.call items)

/-- Substitutes arguments for parameters, one after the other. -/
def substituteParams (room : Nat) (body : Expr) : List (String × Expr) → Run Expr
  | [] => pure body
  | (param, argument) :: rest => do
    let substituted ← Operands.substitute room body param argument
    substituteParams room substituted rest

/-- The body of a function with its arguments in place. -/
def instantiate (room : Nat) (function : Function) (arguments : List Expr) : Run Expr :=
  if arguments.length = function.params.length then
    substituteParams room function.body (function.params.zip arguments)
  else
    Run.fail (.functionArity function.name function.params.length arguments.length)

/-- The value of an atom: the status of the last command, a definition, or the atom itself. A
definition that is pending syntax is evaluated. -/
def valueOfAtom (operands : Operands) (text : String) : Run Expr := do
  let session ← Run.session
  if text == "$?" then return .atom (toString session.lastStatus)
  else
    match session.definitions.find? text with
    | none => return .atom text
    | some (.call items) => operands.value (.call items)
    | some other => return other

/-- One activation: evaluates an expression up to its ending. -/
def activate {α : Type} (operands : Operands) (ending : Ending α) (isLine : Bool) :
    Expr → Run α
  | .list items => pure (ending.value (.list items))
  | .atom text => ending.value <$> valueOfAtom operands text
  | .call [] => Run.fail .emptyCall
  | .call (head :: es) => do
    let name ← headName operands head
    match Builtin.ofName? name with
    | some builtin =>
      match ← builtin.apply operands es with
      | .value result => pure (ending.value result)
      | .branch e => ending.branch e
    | none =>
      match (← Run.session).functions.find? name with
      | some function =>
        let arguments ← es.mapM operands.value
        ending.body (← instantiate operands.room function arguments)
      | none => ending.value <$> Command.run operands isLine name es

/-- Takes steps until there is a value. -/
def settle (step : Expr → Run (Step true)) : (steps : Nat) → Expr → Run Expr
  | 0, _ => throw .outOfSteps
  -- the room of a body ends with its step, so the next one starts afresh
  | steps + 1, e => step e >>= Step.finish (settle step steps)

/-- What becomes of the body of a function: in tail position it is handed back as it is, in operand
position it is settled on the spot. -/
def giveBody (settled : Expr → Run Expr) : (isTail : Bool) → Expr → Run (Step isTail)
  | true, body => pure (.tail body)
  | false, body => .value <$> settled body

/-- Evaluates an expression in tail position or in operand position. -/
def evaluate (steps : Nat) : (room : Nat) → (isLine isTail : Bool) → Expr → Run (Step isTail)
  | 0, _, _, _ => Run.fail .evaluationTooDeep
  | room + 1, isLine, isTail, e =>
    activate
      { room := room
        value := fun operand => Step.result <$> evaluate steps room false false operand }
      { value := .value
        branch := evaluate steps room false isTail
        body := giveBody (settle (evaluate steps room false true) steps) isTail }
      isLine e

/-- Takes what an evaluation in tail position came to, to its value. -/
def resume (limits : Limits) : Step true → Run Expr :=
  Step.finish (settle (evaluate limits.steps limits.depth false true) limits.steps)

/-- Evaluates an expression to its value. -/
def run (limits : Limits) (isLine : Bool) (e : Expr) : Run Expr :=
  evaluate limits.steps limits.depth isLine true e >>= resume limits

end Evaluation

end LispShell
