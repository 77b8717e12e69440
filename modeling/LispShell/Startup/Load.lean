import LispShell.Session.Commands
import LispShell.Startup.Prelude
import LispShell.Text.Lines
import LispShell.World.Locations

/-! # Startup
A session starts with its prelude, `loadPrelude`, and then the startup file of the user, `loadFile`.
Without a prelude there is no session, but a fault of the startup file that
`Fault.isReportedAtStartup` accepts is only reported. -/

namespace LispShell

/-- Which program to load at the start. -/
inductive StartupChoice where
  /-- None. -/
  | skip
  /-- The one at the configured location. -/
  | configured
  /-- The file at a path. -/
  | file (path : String)
  deriving Repr, DecidableEq

namespace Startup

variable [OperatingSystem]

/-- The text of a startup file, with every line end as a line feed, by `Text.unifyNewlines`. -/
def readSource (path : String) : Run String := do
  let text ← Run.consult .startupUnreadable (·.readText path)
  return String.ofList (Text.unifyNewlines text.toList)

/-- Where the prelude is: at a path, or by default where `World.prelude?` has it. -/
def preludeLocation : Option String → Run World.PreludeLocation
  | some path => pure (.file (Path.tidy path))
  | none => Run.consult (fun () => .noStartupPath) fun world => world.prelude?.elim (.error ()) .ok

/-- Evaluates the program in a file with `Session.evalProgram`. -/
def evalFile (limits : Limits) (path : String) : Run Unit :=
  readSource path >>= Session.evalProgram limits

/-- Evaluates the prelude at a location. -/
def evalPrelude (limits : Limits) : World.PreludeLocation → Run Unit
  | .packaged => Session.evalProgram limits prelude
  | .file path => evalFile limits path

/-- Evaluates the prelude at its `preludeLocation`. -/
def loadPrelude (limits : Limits) (path : Option String) : Run Unit :=
  preludeLocation path >>= evalPrelude limits

/-- Whether there is a startup file to load at a path. Of all that can be wrong with the path, only
`Refusal.nameTooLong` is worth a fault. -/
def isThere (path : String) : Run Bool := do
  let world ← Run.world
  if (world.textFault? path).isSome then return false
  else
    match world.files.find? world.workingDirectory path with
    | .ok (_, .file _ _) => return true
    | .error .nameTooLong => Run.fail (.startupUnreadable (.refused .nameTooLong path))
    | _ => return false

/-- Where the startup file is: at a path, or by default where `World.startupFile?` has it. -/
def startupPath : Option String → Run String
  | some path => pure (Path.tidy path)
  | none => do
    -- the home directory is looked up even where the variable names another path
    let home ← Run.home
    Run.consult (fun () => .noStartupPath) fun world =>
      (world.startupFile? home).elim (.error ()) .ok

/-- Reports what is wrong with the startup file at a path. -/
def report (path : String) (cause : Fault) : Run Unit :=
  Run.changeWorld (·.printError ("Error: " ++ path ++ ": " ++ cause.message ++ "\n"))

/-- Evaluates the startup file at a path if `isThere` finds it. Gives whether all of it was
evaluated. -/
def evalIfThere (limits : Limits) (path : String) : Run Bool := do
  if ← isThere path then
    -- a file that cannot be read is reported like a form that fails
    match ← Run.caught Fault.isReportedAtStartup (evalFile limits path) with
    | .ok () => return true
    | .error cause =>
      report path cause
      return false
  else return false

/-- Evaluates the startup file at its `startupPath` if it is there. Gives whether all of it was
evaluated. -/
def loadFile (limits : Limits) (path : Option String) : Run Bool :=
  startupPath path >>= evalIfThere limits

/-- Loads the chosen prelude. -/
def choosePrelude (limits : Limits) : StartupChoice → Run Unit
  | .skip => pure ()
  | .configured => loadPrelude limits none
  | .file path => loadPrelude limits (some path)

/-- Loads the chosen startup file. -/
def chooseFile (limits : Limits) : StartupChoice → Run Unit
  | .skip => pure ()
  | .configured => discard (loadFile limits none)
  | .file path => discard (loadFile limits (some path))

/-- Starts a session. -/
def start (limits : Limits) (preludeChoice fileChoice : StartupChoice) : Run Unit := do
  choosePrelude limits preludeChoice
  chooseFile limits fileChoice

end Startup

end LispShell
