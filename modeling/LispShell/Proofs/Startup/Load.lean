import LispShell.Proofs.Session.Commands
import LispShell.Startup.Load

/-! # Startup under a discipline
Loading the prelude and the startup file keeps a discipline that allows for reports on the error
output. -/

namespace LispShell

namespace Discipline

variable [OperatingSystem] {d : Discipline} (forms : ∀ {e : Expr}, e.isProper → d.form e)

/-- Reading the text of a startup file. -/
theorem keeps_readSource (path : String) : d.Keeps (fun _ => True) (Startup.readSource path) :=
  (keeps_consult _ _).bind fun _ _ => keeps_pure trivial

/-- Looking for a startup file. -/
theorem keeps_isThere (path : String) : d.Keeps (fun _ => True) (Startup.isThere path) := by
  refine keeps_world.bind fun world _ => ?_
  split
  · exact keeps_pure trivial
  · split
    · exact keeps_pure trivial
    · exact keeps_fail _
    · exact keeps_pure trivial

/-- Finding the prelude. -/
theorem keeps_preludeLocation (path : Option String) :
    d.Keeps (fun _ => True) (Startup.preludeLocation path) := by
  cases path with
  | some path => exact keeps_pure trivial
  | none => exact keeps_consult _ _

/-- Finding the startup file. -/
theorem keeps_startupPath (path : Option String) :
    d.Keeps (fun _ => True) (Startup.startupPath path) := by
  cases path with
  | some path => exact keeps_pure trivial
  | none => exact (keeps_consult _ _).bind fun home _ => keeps_consult _ _

include forms

/-- Evaluating the program in a file. -/
theorem keeps_evalFile (limits : Limits) (path : String) :
    d.Keeps (fun _ => True) (Startup.evalFile limits path) :=
  (keeps_readSource path).bind fun source _ => keeps_evalProgram forms limits source

/-- Loading a prelude. -/
theorem keeps_loadPrelude (limits : Limits) (path : Option String) :
    d.Keeps (fun _ => True) (Startup.loadPrelude limits path) := by
  refine (keeps_preludeLocation path).bind fun location _ => ?_
  cases location with
  | packaged => exact keeps_evalProgram forms limits _
  | file path => exact keeps_evalFile forms limits path

/-- Loading a startup file. -/
theorem keeps_loadFile
    (reports : ∀ {world past} text, d.outside world past → d.outside (world.printError text) past)
    (limits : Limits) (path : Option String) :
    d.Keeps (fun _ => True) (Startup.loadFile limits path) := by
  refine (keeps_startupPath path).bind fun path _ => (keeps_isThere path).bind fun isThere _ => ?_
  cases isThere with
  | false => exact keeps_pure trivial
  | true =>
    refine (keeps_caught _ (keeps_evalFile forms limits path)).bind fun loaded _ => ?_
    cases loaded with
    | ok _ => exact keeps_pure trivial
    | error cause =>
      have keepsReport : d.Keeps (fun _ => True) (Startup.report path cause) :=
        keeps_of_exec fun course holds => ⟨⟨holds.1, reports _ holds.2⟩, fun _ _ => trivial⟩
      exact keepsReport.bind fun _ _ => keeps_pure trivial

end Discipline

end LispShell
