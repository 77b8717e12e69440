import LispShell.Proofs.Run.Exec
import LispShell.World.Process

/-! # Disciplines
A discipline says what holds of values, of pending syntax, of the session and of the world outside
all through a run, so that it holds after every step because it held before. Runs are compared
under a discipline: one refines another if it ends in the same way wherever the other comes to an
end of its own, which is how a run with more room compares with the same run with less. -/

namespace LispShell

/-- What an effect does to the world, given all that was done before. -/
inductive World.Does [OperatingSystem] (past : List Effect) (world : World) :
    Effect → World → Prop
  /-- A directory is entered. -/
  | enter {path : String} {after : World} (entered : world.enter path = .ok after) :
    Does past world (.enter path) after
  /-- A variable is set. -/
  | setVariable {name value : String} :
    Does past world (.setVariable name value) (world.setVariable name value)
  /-- A text is stored. -/
  | store {mode : FileTree.WriteMode} {content path : String} {after : World}
    (stored : world.writeText mode content path = .ok after) :
    Does past world (.store mode content path) after
  /-- A program is run. -/
  | launch {path : String} {arguments : List String} {capture : Bool} {result : ProcessResult}
    {after : World}
    (ended : world.runProcess past path arguments capture = .ok (result, after)) :
    Does past world (.launch path arguments capture result.status) after

/-- Whether the effect leaves the output of the shell to the shell: all do but a program whose
output is not captured. -/
def Effect.sparesOutput : Effect → Bool
  | .launch _ _ capture _ => capture
  | _ => true

/-- The fresh names of parameters, the first of which gets the given number. -/
def Session.freshNamesFrom (number : Nat) : List String → List String
  | [] => []
  | param :: rest => Session.freshName param number :: freshNamesFrom (number + 1) rest

/-- What holds of values, of pending syntax, of the session and of the world outside all through a
run. -/
structure Discipline [OperatingSystem] where
  /-- What holds of every value. -/
  value : Expr → Prop
  /-- What holds of every form that is evaluated. -/
  form : Expr → Prop
  /-- What holds of the session. -/
  session : Session → Prop
  /-- What holds of the world and of what was done to it. -/
  outside : World → List Effect → Prop
  /-- Whether the discipline is one for command lines too. -/
  coversLines : Prop
  value_atom (text : String) : value (.atom text)
  value_list (items : List Expr) : value (.list items) ↔ ∀ item ∈ items, value item
  form_of_value {e : Expr} : value e → form e
  form_call (items : List Expr) : form (.call items) ↔ ∀ item ∈ items, form item
  value_of_form_list {items : List Expr} : form (.list items) → value (.list items)
  form_of_definition {s : Session} {name : String} {e : Expr} :
    session s → s.definitions.find? name = some e → form e
  form_of_function {s : Session} {name : String} {function : Function} :
    session s → s.functions.find? name = some function → form function.body
  session_define {s : Session} {name : String} {e : Expr} :
    session s → name ≠ "" → form e → session { s with definitions := s.definitions.insert name e }
  session_defineFunction {s : Session} {name : String} {params : List String} {body : Expr} :
    session s → name ≠ "" → form body →
      session
        { s with
          functions := s.functions.insert name
            ⟨name, Session.freshNamesFrom s.freshNames params, body⟩
          freshNames := s.freshNames + params.length }
  session_freshNames {s : Session} (count : Nat) :
    session s → session { s with freshNames := s.freshNames + count }
  session_defineAlias {s : Session} {name : String} (texts : List String) :
    session s → name ≠ "" → session { s with aliases := s.aliases.insert name texts }
  session_status {s : Session} (status : Nat) :
    coversLines → session s → session { s with lastStatus := status }
  outside_does {past : List Effect} {world after : World} {effect : Effect} :
    outside world past → world.Does past effect after →
      (effect.sparesOutput = true ∨ coversLines) → outside after (past ++ [effect])

/-- Whether the halt is due to a bound on how far evaluation may go. -/
def Halt.isBound : Halt → Bool
  | .fault .evaluationTooDeep => true
  | .outOfSteps => true
  | _ => false

/-- Whether a run came to an end of its own and was not stopped by a bound. -/
def Conclusive {α : Type} : Except Halt α → Prop
  | .ok _ => True
  | .error halt => halt.isBound = false

namespace Discipline

variable [OperatingSystem] (d : Discipline) {α β : Type}

/-- Whether the discipline holds of a course. -/
def Holds (course : Course) : Prop :=
  d.session course.shell.session ∧ d.outside course.shell.world course.effects

/-- Whether a run keeps the discipline and gives only good results, and another ends in the same
way wherever it comes to an end of its own. -/
def Refines (good : α → Prop) (run refined : Run α) : Prop :=
  ∀ course, d.Holds course →
    d.Holds (run.exec course).2 ∧
      (∀ result, (run.exec course).1 = .ok result → good result) ∧
      (Conclusive (run.exec course).1 → refined.exec course = run.exec course)

/-- Whether a run keeps the discipline and gives only good results. -/
abbrev Keeps (good : α → Prop) (run : Run α) : Prop :=
  d.Refines good run run

variable {d}

/-- A run keeps a discipline if it does so from every course of which it holds. -/
theorem keeps_of_exec {good : α → Prop} {run : Run α}
    (kept : ∀ course, d.Holds course →
      d.Holds (run.exec course).2 ∧ ∀ result, (run.exec course).1 = .ok result → good result) :
    d.Keeps good run :=
  fun course holds => ⟨(kept course holds).1, (kept course holds).2, fun _ => rfl⟩

/-- Good results are good in any weaker sense. -/
theorem Refines.weaken {good better : α → Prop} {run refined : Run α}
    (refines : d.Refines better run refined) (weaker : ∀ result, better result → good result) :
    d.Refines good run refined := fun course holds =>
  let ⟨kept, results, same⟩ := refines course holds
  ⟨kept, fun result ended => weaker result (results result ended), same⟩

/-- A finished run keeps every discipline. -/
theorem keeps_pure {good : α → Prop} {result : α} (isGood : good result) :
    d.Keeps good (pure result : Run α) := by
  refine keeps_of_exec fun course holds => ⟨holds, ?_⟩
  rintro _ ⟨⟩
  exact isGood

/-- A halt keeps every discipline. -/
theorem keeps_throw {good : α → Prop} (halt : Halt) : d.Keeps good (throw halt : Run α) := by
  refine keeps_of_exec fun course holds => ⟨holds, ?_⟩
  rintro _ ⟨⟩

/-- A failure keeps every discipline. -/
theorem keeps_fail {good : α → Prop} (cause : Fault) : d.Keeps good (Run.fail cause : Run α) :=
  keeps_throw _

/-- Any run refines one that is stopped by a bound. -/
theorem refines_of_isBound {good : α → Prop} {halt : Halt} (refined : Run α)
    (stopped : halt.isBound = true) : d.Refines good (throw halt : Run α) refined := by
  refine fun course holds => ⟨holds, ?_, fun conclusive => ?_⟩
  · rintro _ ⟨⟩
  · exact absurd stopped (Bool.eq_false_iff.mp conclusive)

/-- Any run refines one without room. -/
theorem refines_tooDeep {good : α → Prop} (refined : Run α) :
    d.Refines good (Run.fail .evaluationTooDeep : Run α) refined :=
  refines_of_isBound refined rfl

/-- Any run refines one without steps. -/
theorem refines_outOfSteps {good : α → Prop} (refined : Run α) :
    d.Refines good (throw .outOfSteps : Run α) refined :=
  refines_of_isBound refined rfl

/-- What follows a run refines if the run does and every continuation from a good result does. -/
theorem Refines.bind {good : α → Prop} {better : β → Prop} {run refined : Run α}
    {next refinedNext : α → Run β} (first : d.Refines good run refined)
    (second : ∀ result, good result → d.Refines better (next result) (refinedNext result)) :
    d.Refines better (run >>= next) (refined >>= refinedNext) := by
  intro course holds
  obtain ⟨kept, results, same⟩ := first course holds
  match ended : run.exec course with
  | (.error halt, after) =>
    rw [ended] at kept same
    rw [Run.exec_bind_error course ended]
    refine ⟨kept, ?_, fun conclusive => ?_⟩
    · rintro _ ⟨⟩
    · exact Run.exec_bind_error course (same conclusive)
  | (.ok result, after) =>
    rw [ended] at kept results same
    rw [Run.exec_bind_ok course ended, Run.exec_bind_ok course (same trivial)]
    exact second result (results result rfl) after kept

/-- A function applied to the results changes what is good about them. -/
theorem Refines.map {good : α → Prop} {better : β → Prop} {f : α → β} {run refined : Run α}
    (refines : d.Refines good run refined) (maps : ∀ result, good result → better (f result)) :
    d.Refines better (f <$> run) (f <$> refined) := by
  rw [map_eq_pure_bind, map_eq_pure_bind]
  exact refines.bind fun result isGood => keeps_pure (maps result isGood)

/-- One run after another for each item refines if each of them does. -/
theorem refines_mapM {γ : Type} {good : α → Prop} {items : List γ} {each refinedEach : γ → Run α}
    (refines : ∀ item ∈ items, d.Refines good (each item) (refinedEach item)) :
    d.Refines (fun results => ∀ result ∈ results, good result) (items.mapM each)
      (items.mapM refinedEach) := by
  induction items with
  | nil => exact keeps_pure (by simp)
  | cons item rest inductionHypothesis =>
    rw [List.mapM_cons, List.mapM_cons]
    refine (refines item (by simp)).bind fun result isGood => ?_
    have restRefines := inductionHypothesis fun other isOther => refines other (by simp [isOther])
    refine restRefines.bind fun results areGood => keeps_pure ?_
    simpa using ⟨isGood, areGood⟩

/-- The session is as the discipline says. -/
theorem keeps_session : d.Keeps d.session Run.session :=
  keeps_of_exec fun course holds => ⟨holds, by rintro _ ⟨⟩; exact holds.1⟩

/-- Looking at the world keeps every discipline. -/
theorem keeps_world : d.Keeps (fun _ => True) Run.world :=
  keeps_of_exec fun _ holds => ⟨holds, fun _ _ => trivial⟩

/-- A change of the session keeps a discipline that the changed session satisfies. -/
theorem keeps_changeSession {change : Session → Session}
    (kept : ∀ s, d.session s → d.session (change s)) :
    d.Keeps (fun _ => True) (Run.changeSession change) :=
  keeps_of_exec fun course holds =>
    ⟨⟨kept course.shell.session holds.1, holds.2⟩, fun _ _ => trivial⟩

/-- An attempt fails or gives a value that is good if the attempt promises so. -/
theorem keeps_ofExcept {ε : Type} {good : α → Prop} {cause : ε → Fault} {attempt : Except ε α}
    (promised : ∀ result, attempt = .ok result → good result) :
    d.Keeps good (Run.ofExcept cause attempt) := by
  cases attempt with
  | ok result => exact keeps_pure (promised result rfl)
  | error error => exact keeps_fail _

/-- An attempt on the world keeps every discipline. -/
theorem keeps_consult {ε : Type} (cause : ε → Fault) (attempt : World → Except ε α) :
    d.Keeps (fun _ => True) (Run.consult cause attempt) :=
  keeps_world.bind fun _ _ => keeps_ofExcept fun _ _ => trivial

/-- An effect that leaves the output alone keeps every discipline. -/
theorem keeps_perform {effect : Effect} {change : World → World}
    (does : ∀ past (world : World), world.Does past effect (change world))
    (spares : effect.sparesOutput = true) :
    d.Keeps (fun _ => True) (Run.perform effect change) :=
  keeps_of_exec fun _ holds =>
    ⟨⟨holds.1, d.outside_does holds.2 (does _ _) (.inl spares)⟩, fun _ _ => trivial⟩

/-- An attempted effect keeps every discipline. -/
theorem keeps_tryPerform {ε : Type} {effect : Effect} {cause : ε → Fault}
    {change : World → Except ε World}
    (does : ∀ past (world after : World), change world = .ok after → world.Does past effect after)
    (spares : effect.sparesOutput = true) :
    d.Keeps (fun _ => True) (Run.tryPerform effect cause change) := by
  refine keeps_of_exec fun course holds => ⟨?_, fun _ _ => trivial⟩
  rw [Run.exec_tryPerform]
  cases changed : change course.shell.world with
  | error error => exact holds
  | ok after =>
    exact ⟨holds.1, d.outside_does holds.2 (does course.effects _ _ changed) (.inl spares)⟩

/-- The discipline that asks for nothing. -/
def unrestricted : Discipline where
  value _ := True
  form _ := True
  session _ := True
  outside _ _ := True
  coversLines := True
  value_atom _ := trivial
  value_list _ := by simp
  form_of_value _ := trivial
  form_call _ := by simp
  value_of_form_list _ := trivial
  form_of_definition _ _ := trivial
  form_of_function _ _ := trivial
  session_define _ _ _ := trivial
  session_defineFunction _ _ _ := trivial
  session_freshNames _ _ := trivial
  session_defineAlias _ _ _ := trivial
  session_status _ _ _ := trivial
  outside_does _ _ _ := trivial

end Discipline

end LispShell
