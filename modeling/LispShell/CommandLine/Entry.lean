import LispShell.CommandLine.Options
import LispShell.Interactive.Loop
import LispShell.Script.Run
import LispShell.Startup.Load
import LispShell.Text.Lines

/-! # Entry
Running the shell from a command line: one command, or the interactive loop over the standard
input. -/

namespace LispShell

namespace Entry

variable [OperatingSystem]

/-- The line that sums up the options. -/
def usage : String :=
  "usage: lishp [-h] [--version] [--log-level LOG_LEVEL] [--no-rc] [-c ...]\n"

/-- The line that tells the version. -/
def version : String := "lishp 0.1.0\n"

/-- The status for a command line that is refused. -/
def refusedStatus : Int := 2

/-- The lines of an input; an end of the input without a line feed ends the last line too. -/
def inputLines (input : String) : List String :=
  (Text.dropEmptyLast (Text.splitAtNewlines input.toList)).map String.ofList

/-- Starts a session as asked and runs the command or the loop. -/
def start (limits : Limits) (invocation : Invocation) (input : String) : Run Unit := do
  Startup.start limits .configured (if invocation.noStartupFile then .skip else .configured)
  match invocation.command with
  | some words => Interactive.runLine limits (String.intercalate " " words)
  | none => Interactive.loop limits Interactive.print none (inputLines input)

/-- Whether a command line starts the loop over the standard input. -/
def readsInput (words : List String) : Bool :=
  match CommandLine.ofWords words with
  | .start invocation => invocation.command.isNone
  | _ => false

/-- Runs a command line. -/
def run (limits : Limits) (words : List String) (input : String) : Run Unit :=
  match CommandLine.ofWords words with
  | .start invocation => start limits invocation input
  | .showHelp => do
    Interactive.print usage
    throw (.exit 0)
  | .showVersion => do
    Interactive.print version
    throw (.exit 0)
  | .refuse reason => do
    Run.changeWorld (·.printError (usage ++ "lishp: error: " ++ reason ++ "\n"))
    throw (.exit refusedStatus)

end Entry

end LispShell
