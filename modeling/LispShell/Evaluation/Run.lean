import LispShell.Evaluation.Fault
import LispShell.Session.Basic
import LispShell.World.Locations
import LispShell.World.OperatingSystem

/-! # Runs
A run acts on a shell, a session and the world around it, and ends with a value or comes to a halt.
What it did before a halt stays done, and a record is kept of what it did to the world. -/

namespace LispShell

/-- A session and the world around it. -/
structure Shell where
  /-- What the shell remembers. -/
  session : Session
  /-- What the shell acts on. -/
  world : World

/-- How far a run has come. -/
structure Course where
  /-- The shell as it is now. -/
  shell : Shell
  /-- What was done to the world, in order. -/
  effects : List Effect

/-- Why a run ends without a value. -/
inductive Halt where
  /-- Something went wrong. -/
  | fault (cause : Fault)
  /-- The session was told to end with a status. -/
  | exit (status : Int)
  /-- The run took more steps than it was given. -/
  | outOfSteps
  deriving Repr, DecidableEq

/-- A computation that acts on a shell. -/
abbrev Run := ExceptT Halt (StateM Course)

namespace Run

variable {α : Type}

/-- Comes to a halt because of a fault. -/
def fail (cause : Fault) : Run α :=
  throw (.fault cause)

/-- The session as it is now. -/
def session : Run Session :=
  return (← get).shell.session

/-- The world as it is now. -/
def world : Run World :=
  return (← get).shell.world

/-- What was done to the world so far. -/
def effects : Run (List Effect) :=
  return (← get).effects

/-- Changes the session. -/
def changeSession (change : Session → Session) : Run Unit :=
  modify fun course =>
    { course with shell := { course.shell with session := change course.shell.session } }

/-- Changes the world. -/
def changeWorld (change : World → World) : Run Unit :=
  modify fun course =>
    { course with shell := { course.shell with world := change course.shell.world } }

/-- Changes the world and puts the effect on record. -/
def perform (effect : Effect) (change : World → World) : Run Unit :=
  modify fun course =>
    { shell := { course.shell with world := change course.shell.world }
      effects := course.effects ++ [effect] }

/-- Gives the value of an attempt or fails with the fault made of its error. -/
def ofExcept {ε : Type} (cause : ε → Fault) : Except ε α → Run α
  | .ok value => pure value
  | .error error => fail (cause error)

/-- Gives the value of an attempt on the world as it is now, like `ofExcept`. -/
def consult {ε : Type} (cause : ε → Fault) (attempt : World → Except ε α) : Run α := do
  ofExcept cause (attempt (← world))

/-- Attempts a change of the world, which has the effect if it succeeds. -/
def tryPerform {ε : Type} (effect : Effect) (cause : ε → Fault)
    (change : World → Except ε World) : Run Unit := do
  let changed ← consult cause change
  perform effect fun _ => changed

/-- The home directory. -/
def home : Run String :=
  consult (fun () => .noHomeDirectory) fun world => world.home?.elim (.error ()) .ok

/-- Goes on from a course: the outcome and the course afterwards. -/
def exec (run : Run α) (course : Course) : Except Halt α × Course :=
  (ExceptT.run run).run course

/-- Runs on a shell: the outcome and the shell afterwards. -/
def on (run : Run α) (shell : Shell) : Except Halt α × Shell :=
  let (outcome, after) := run.exec ⟨shell, []⟩
  (outcome, after.shell)

/-- Takes a fault of the run that a condition accepts as a value. -/
def caught (accepts : Fault → Bool) (run : Run α) : Run (Except Fault α) :=
  tryCatch (Except.ok <$> run) fun halt =>
    match halt with
    | .fault cause => if accepts cause then pure (.error cause) else throw halt
    | other => throw other

end Run

end LispShell
