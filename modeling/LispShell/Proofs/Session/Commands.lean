import LispShell.Proofs.Evaluation.Activation
import LispShell.Proofs.Reader.Shape
import LispShell.Session.Commands

/-! # Sessions under a discipline
Everything that can be asked of a session keeps a discipline that takes every proper expression as a
form. A session is reachable if it comes of a fresh one by what can be asked of it, in whatever
world each request finds it. -/

namespace LispShell

/-- A fresh session in an empty world, before anything is done. -/
def Course.fresh : Course :=
  ⟨⟨.fresh, .ofFiles .empty⟩, []⟩

/-- The sessions that come of requests to a fresh one, whether they succeed or fail. Between two
requests anything may happen to the world. -/
inductive Session.Reachable [OperatingSystem] : Session → Prop
  /-- Nothing is asked for yet. -/
  | fresh : Reachable .fresh
  /-- A command line is evaluated. -/
  | line (limits : Limits) (line : String) {course : Course} :
    Reachable course.shell.session →
      Reachable ((Session.evalLine limits line).exec course).2.shell.session
  /-- A program is evaluated. -/
  | program (limits : Limits) (source : String) {course : Course} :
    Reachable course.shell.session →
      Reachable ((Session.evalProgram limits source).exec course).2.shell.session
  /-- The prompt is asked for. -/
  | prompt (limits : Limits) {course : Course} :
    Reachable course.shell.session →
      Reachable ((Session.prompt limits).exec course).2.shell.session

/-- A form that is handed on is evaluated, and its value dropped. -/
theorem Session.programReader_accept [OperatingSystem] (limits : Limits) (form : Expr) :
    (programReader limits).accept form =
      Function.const Expr () <$> Evaluation.run limits false form := by
  simp only [programReader, discard, Functor.discard, map_const, Function.comp_apply]

namespace Discipline

variable [OperatingSystem] {d : Discipline}

variable (d) in
/-- To keep a discipline, as a relation between the actions of a program reader. -/
def keeping : ProgramReader.Relation Run Run where
  relates good run refined := d.Refines good run refined
  relates_pure isGood := keeps_pure isGood
  relates_bind first second := first.bind second

/-- A fault that is caught leaves a discipline kept. -/
theorem keeps_caught {α : Type} {good : α → Prop} {run : Run α} (accepts : Fault → Bool)
    (keeps : d.Keeps good run) : d.Keeps (fun _ => True) (Run.caught accepts run) := by
  refine keeps_of_exec fun course holds => ⟨?_, fun _ _ => trivial⟩
  rw [Run.exec_caught_course]
  exact (keeps course holds).1

variable (forms : ∀ {e : Expr}, e.isProper → d.form e)
include forms

/-- Evaluating the forms of a program. -/
theorem keeps_evalProgram (limits : Limits) (source : String) :
    d.Keeps (fun _ => True) (Session.evalProgram limits source) := by
  have related : ProgramReader.Related d.keeping (Session.programReader limits)
      (Session.programReader limits) := by
    refine ⟨rfl, ?aliases, ?accept, ?refuse⟩
    case aliases => exact keeps_session.bind fun _ _ => keeps_pure trivial
    case accept =>
      intro form isProper
      have keeps : d.Keeps d.value (Evaluation.run limits false form) :=
        keeps_run limits (by simp) (forms isProper)
      rw [Session.programReader_accept]
      exact keeps.map fun _ _ => trivial
    case refuse => exact fun fault => keeps_fail _
  exact ProgramReader.relates_run related source

/-- Evaluating a command line. -/
theorem keeps_evalLine (covers : d.coversLines) (limits : Limits) (line : String) :
    d.Keeps d.value (Session.evalLine limits line) := by
  refine keeps_session.bind fun session _ => ?_
  have reads : d.Keeps (fun e => e.isProper)
      (Run.ofExcept .unreadable (readLine limits.depth session.aliases line)) :=
    keeps_ofExcept fun e isRead => isProper_readLine isRead
  refine reads.bind fun e isProper => ?_
  exact keeps_run limits (fun _ => covers) (forms isProper)

/-- Giving the prompt. -/
theorem keeps_prompt (limits : Limits) : d.Keeps (fun _ => True) (Session.prompt limits) := by
  refine keeps_session.bind fun session _ => ?_
  split
  · have keeps : d.Keeps d.value (Evaluation.run limits false (.atom Session.promptName)) :=
      keeps_run limits (by simp) (forms (by simp))
    refine keeps.bind fun value _ => ?_
    split
    · exact keeps_pure trivial
    · exact keeps_fail _
  · exact keeps_pure trivial

/-- A discipline for sessions in all worlds holds of every reachable session if it holds of a fresh
one. -/
theorem session_of_reachable (covers : d.coversLines) (isFresh : d.session .fresh)
    (everywhere : ∀ world past, d.outside world past) {s : Session} (reachable : s.Reachable) :
    d.session s := by
  induction reachable with
  | fresh => exact isFresh
  | line limits line _ inductionHypothesis =>
    exact (keeps_evalLine forms covers limits line _ ⟨inductionHypothesis, everywhere _ _⟩).1.1
  | program limits source _ inductionHypothesis =>
    exact (keeps_evalProgram forms limits source _ ⟨inductionHypothesis, everywhere _ _⟩).1.1
  | prompt limits _ inductionHypothesis =>
    exact (keeps_prompt forms limits _ ⟨inductionHypothesis, everywhere _ _⟩).1.1

end Discipline

end LispShell
