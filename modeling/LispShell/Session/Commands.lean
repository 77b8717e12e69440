import LispShell.Evaluation.Evaluator
import LispShell.Reader.Source

/-! # Commands of a session
What can be asked of a session: to evaluate an expression, a command line or a whole program, to
show a value, and to give the prompt. -/

namespace LispShell

namespace Session

variable [OperatingSystem]

/-- Evaluates a command line. A program that is the whole line writes to the output of the shell. -/
def evalLine (limits : Limits) (line : String) : Run Expr := do
  let session ← Run.session
  let e ← Run.ofExcept .unreadable (readLine limits.depth session.aliases line)
  Evaluation.run limits true e

/-- How a session reads a program: it evaluates each form before it reads the next. -/
def programReader (limits : Limits) : ProgramReader Run where
  limit := limits.depth
  aliases := return (← Run.session).aliases
  accept form := discard (Evaluation.run limits false form)
  refuse fault := Run.fail (.unreadable fault)

/-- Evaluates the forms of a program in order. -/
def evalProgram (limits : Limits) (source : String) : Run Unit :=
  (programReader limits).run source

/-- The printed form of a value. -/
def shown? (limits : Limits) (value : Expr) : Except Fault String :=
  if value.height ≤ limits.depth then .ok value.render else .error .printingTooDeep

/-- The prompt where none is defined. -/
def defaultPrompt : String := "> "

/-- The name whose definition is the prompt. -/
def promptName : String := "lishp_prompt"

/-- The prompt: the text of its definition, evaluated anew each time. -/
def prompt (limits : Limits) : Run String := do
  if (← Run.session).definitions.contains promptName then
    let value ← Evaluation.run limits false (.atom promptName)
    if value.height ≤ limits.depth then return value.flatten else Run.fail .promptTooDeep
  else return defaultPrompt

end Session

end LispShell
