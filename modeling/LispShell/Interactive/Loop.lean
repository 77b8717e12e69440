import LispShell.Session.Commands

/-! # The interactive loop
Lines are read until they form a complete command, which is then evaluated and its value printed;
what goes wrong is reported and the loop goes on. -/

namespace LispShell.Interactive

variable [OperatingSystem]

/-- The prompt for a line that continues a command. -/
def continuationPrompt : String := "... "

/-- Writes text to the standard output. -/
def print (text : String) : Run Unit := do
  let printed ← Run.consult .unprintable (·.print text)
  Run.changeWorld fun _ => printed

/-- Reports a fault on the standard error. -/
def report (cause : Fault) : Run Unit :=
  Run.changeWorld (·.printError ("Error: " ++ cause.message ++ "\n"))

/-- The text that is printed for the value of a line; the empty atom prints as nothing. -/
def answer (limits : Limits) (line : String) : Run String := do
  let value ← Session.evalLine limits line
  if value == .empty then return "" else Run.ofExcept id (Session.shown? limits value)

/-- Evaluates a line and prints its value or the report of what went wrong. -/
def runLine (limits : Limits) (line : String) : Run Unit := do
  match ← Run.caught Fault.isReported (answer limits line) with
  | .ok text => print (text ++ "\n")
  | .error cause => report cause

/-- The prompt for a new command; the default one if its definition fails. -/
def promptText (limits : Limits) : Run String := do
  match ← Run.caught Fault.isReported (Session.prompt limits) with
  | .ok text => pure text
  | .error _ => pure Session.defaultPrompt

/-- The prompt for the next line, after the lines of a command that is not complete, if any. -/
def nextPrompt (limits : Limits) : (unfinished : Option String) → Run String
  | none => promptText limits
  | some _ => pure continuationPrompt

/-- A command with one more line. -/
def extend : (unfinished : Option String) → (line : String) → String
  | none, line => line
  | some command, line => command ++ "\n" ++ line

/-- Whether a command is complete under the aliases now in force. -/
def isComplete (limits : Limits) (command : String) : Run Bool := do
  return LispShell.isComplete limits.depth (← Run.session).aliases command

/-- Evaluates a complete command unless it is blank. -/
def runCommand (limits : Limits) (command : String) : Run Unit :=
  if Text.isBlankText command then pure () else runLine limits command

/-- Reads lines to the end of the input, asking for each with a prompt. A command that the end of
the input leaves incomplete is dropped. -/
def loop (limits : Limits) (ask : String → Run Unit) (unfinished : Option String) :
    List String → Run Unit
  | [] => do
    -- the end of the input is only seen after one more prompt
    ask (← nextPrompt limits unfinished)
    print "\n"
  | line :: rest => do
    ask (← nextPrompt limits unfinished)
    let command := extend unfinished line
    if ← isComplete limits command then
      runCommand limits command
      loop limits ask none rest
    else loop limits ask (some command) rest

end LispShell.Interactive
