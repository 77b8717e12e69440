import LispShell.Proofs.Evaluation.Definitions
import LispShell.Proofs.Evaluation.Lines

/-! # Definitions that are refused
A definition changes the session in its last step, when nothing can go wrong any more. So one that
is refused leaves everything as it was. Only want of room can stop the definition of a function
between its fresh names and that step. -/

namespace LispShell

namespace Run

variable {α β γ : Type}

/-- Whether a run leaves everything as it finds it. -/
def IsIdle (run : Run α) : Prop :=
  ∀ course, (run.exec course).2 = course

/-- Whether a run that comes to a halt, other than for want of room, leaves everything as it
finds it. -/
def HaltsInPlace (run : Run α) : Prop :=
  ∀ course halt after, run.exec course = (.error halt, after) →
    halt ≠ .fault .evaluationTooDeep → after = course

namespace IsIdle

/-- A finished run is idle. -/
theorem pure (result : α) : IsIdle (pure result : Run α) :=
  fun _ => rfl

/-- A failure is idle. -/
theorem fail (cause : Fault) : IsIdle (fail cause : Run α) :=
  fun _ => rfl

/-- An idle run ends in the course from which it starts. -/
theorem eq_of_exec {run : Run α} (isIdle : run.IsIdle) {course after : Course}
    {outcome : Except Halt α} (ended : run.exec course = (outcome, after)) : after = course := by
  have same := isIdle course
  rw [ended] at same
  exact same

/-- What follows an idle run is idle if every continuation is. -/
theorem bind {run : Run α} {next : α → Run β} (first : run.IsIdle)
    (second : ∀ result, (next result).IsIdle) : (run >>= next).IsIdle := by
  intro course
  rcases ended : run.exec course with ⟨halt | result, after⟩
  · rw [exec_bind_error course ended]
    exact first.eq_of_exec ended
  · obtain rfl := first.eq_of_exec ended
    rw [exec_bind_ok after ended]
    exact second result after

/-- One idle run after another for each item. -/
theorem mapM {each : γ → Run α} (areIdle : ∀ item, (each item).IsIdle) (items : List γ) :
    (items.mapM each).IsIdle := by
  induction items with
  | nil => exact pure _
  | cons item rest inductionHypothesis =>
    rw [List.mapM_cons]
    exact (areIdle item).bind fun _ => inductionHypothesis.bind fun _ => pure _

/-- An idle run halts in place. -/
theorem haltsInPlace {run : Run α} (isIdle : run.IsIdle) : run.HaltsInPlace :=
  fun _ _ _ halted _ => isIdle.eq_of_exec halted

/-- What follows an idle run halts in place if every continuation does. -/
theorem bind_haltsInPlace {run : Run α} {next : α → Run β} (first : run.IsIdle)
    (second : ∀ result, (next result).HaltsInPlace) : (run >>= next).HaltsInPlace := by
  intro course halt after halted notTooDeep
  obtain stopped | ⟨result, middle, ended, continued⟩ := exec_bind_error_cases halted
  · exact first.eq_of_exec stopped
  · obtain rfl := first.eq_of_exec ended
    exact second result middle halt after continued notTooDeep

end IsIdle

/-- A change of the session and a value after it come to no halt. -/
theorem haltsInPlace_changeSession (change : Session → Session) (result : α) :
    HaltsInPlace (do changeSession change; return result) := by
  rintro course halt after ⟨⟩

end Run

/-! ## The builtins that define -/

/-- Whether the builtin gives a name a meaning for the rest of the session. -/
def Builtin.isDefinition : Builtin → Bool
  | .define => true
  | .defineFunction => true
  | .defineAlias => true
  | _ => false

namespace Definition

/-- Going no deeper than there is room leaves everything as it is. -/
theorem isIdle_within {α : Type} (room levels : Nat) (result : α) :
    Run.IsIdle (Operands.within room levels result) := by
  unfold Operands.within
  split
  · exact .pure _
  · exact .fail _

/-- Taking an operand as a symbol leaves everything as it is. -/
theorem isIdle_symbol (operands : Operands) (builtin : Builtin) (e : Expr) :
    Run.IsIdle (symbol operands builtin e) := by
  cases e with
  | atom text =>
    rw [symbol]
    split
    · exact .fail _
    · exact .pure _
  | call items => exact (isIdle_within _ _ _).bind fun _ => .fail _
  | list items => exact (isIdle_within _ _ _).bind fun _ => .fail _

/-- Printing a replacement leaves everything as it is. -/
theorem isIdle_replacementTexts (operands : Operands) (e : Expr) :
    Run.IsIdle (replacementTexts operands e) := by
  cases e with
  | atom text => exact .pure _
  | call items => exact .mapM (fun _ => isIdle_within _ _ _) items
  | list items => exact .mapM (fun _ => isIdle_within _ _ _) items

/-- A refused definition of a name leaves everything as it is. -/
theorem haltsInPlace_define (operands : Operands) (es : List Expr) :
    Run.HaltsInPlace (define operands es) := by
  match es with
  | [target, value] =>
    refine (isIdle_symbol operands .define target).bind_haltsInPlace fun name => ?_
    exact Run.haltsInPlace_changeSession _ _
  | [] => exact (Run.IsIdle.fail _).haltsInPlace
  | [_] => exact (Run.IsIdle.fail _).haltsInPlace
  | _ :: _ :: _ :: _ => exact (Run.IsIdle.fail _).haltsInPlace

/-- A refused definition of a function leaves everything as it is. -/
theorem haltsInPlace_defineFunction (operands : Operands) (es : List Expr) :
    Run.HaltsInPlace (defineFunction operands es) := by
  match es with
  | [target, params, body] =>
    refine (isIdle_symbol operands .defineFunction target).bind_haltsInPlace fun name => ?_
    refine (isIdle_within _ _ _).bind_haltsInPlace fun atoms => ?_
    intro course halt after halted notTooDeep
    rcases exec_renameParams operands body atoms course with ⟨count, stopped⟩ | renamed
    · rw [Run.exec_bind_error course stopped] at halted
      cases halted
      exact absurd rfl notTooDeep
    · rw [Run.exec_bind_ok course renamed] at halted
      cases halted
  | [] => exact (Run.IsIdle.fail _).haltsInPlace
  | [_] => exact (Run.IsIdle.fail _).haltsInPlace
  | [_, _] => exact (Run.IsIdle.fail _).haltsInPlace
  | _ :: _ :: _ :: _ :: _ => exact (Run.IsIdle.fail _).haltsInPlace

/-- A refused definition of an alias leaves everything as it is. -/
theorem haltsInPlace_defineAlias (operands : Operands) (es : List Expr) :
    Run.HaltsInPlace (defineAlias operands es) := by
  match es with
  | target :: replacement :: more =>
    refine (isIdle_symbol operands .defineAlias target).bind_haltsInPlace fun name => ?_
    have prints : Run.IsIdle ((replacement :: more).mapM (replacementTexts operands)) :=
      .mapM (isIdle_replacementTexts operands) _
    refine prints.bind_haltsInPlace fun texts => ?_
    exact Run.haltsInPlace_changeSession _ _
  | [] => exact (Run.IsIdle.fail _).haltsInPlace
  | [_] => exact (Run.IsIdle.fail _).haltsInPlace

/-- A refused definition leaves everything as it is. -/
theorem haltsInPlace_value (operands : Operands) {builtin : Builtin}
    (defines : builtin.isDefinition = true) (es : List Expr) :
    Run.HaltsInPlace (builtin.value operands es) := by
  cases builtin with
  | define => exact haltsInPlace_define operands es
  | defineFunction => exact haltsInPlace_defineFunction operands es
  | defineAlias => exact haltsInPlace_defineAlias operands es
  | _ => cases defines

end Definition

/-! ## Definitions that are evaluated -/

namespace Evaluation

variable [OperatingSystem] {course named after : Course} {head : Expr} {es : List Expr}
  {name : String} {builtin : Builtin} {halt : Halt}

omit [OperatingSystem] in
/-- A head that is no call is named without changing anything. -/
theorem isIdle_headName (operands : Operands) (notCall : ∀ items, head ≠ .call items) :
    Run.IsIdle (headName operands head) := by
  cases head with
  | atom text => exact .pure _
  | list items => exact Definition.isIdle_within _ _ _
  | call items => exact absurd rfl (notCall items)

section

variable (isBuiltin : Builtin.ofName? name = some builtin) (defines : builtin.isDefinition = true)
include isBuiltin defines

/-- A call of a definition ends with the value that the definition gives. -/
theorem exec_activate_definition {α : Type} {operands : Operands} {ending : Ending α}
    {isLine : Bool} (isNamed : (headName operands head).exec course = (.ok name, named)) :
    (activate operands ending isLine (.call (head :: es))).exec course =
      (builtin.value operands es >>= fun result => pure (ending.value result)).exec named := by
  have noBranch : builtin.endsInBranch = false := by
    cases builtin with
    | define => rfl
    | defineFunction => rfl
    | defineAlias => rfl
    | _ => cases defines
  rw [activate, Run.exec_bind_ok course isNamed]
  simp only [isBuiltin, Builtin.apply, noBranch, bind_assoc, pure_bind]
  rfl

/-- What the call of a definition comes to is a value. -/
theorem exists_of_activate {α : Type} {operands : Operands} {ending : Ending α} {isLine : Bool}
    {taken : α} (isNamed : (headName operands head).exec course = (.ok name, named))
    (ended : (activate operands ending isLine (.call (head :: es))).exec course =
      (.ok taken, after)) :
    ∃ result, taken = ending.value result := by
  rw [exec_activate_definition isBuiltin defines isNamed] at ended
  obtain ⟨result, middle, -, isTaken⟩ := Run.exists_of_exec_bind_ok ended
  cases isTaken
  exact ⟨result, rfl⟩

variable (notTooDeep : halt ≠ .fault .evaluationTooDeep)
include notTooDeep

/-- A call of a definition that comes to a halt leaves everything as it was when its head had been
named. -/
theorem eq_named_of_activate {α : Type} {operands : Operands} {ending : Ending α} {isLine : Bool}
    (isNamed : (headName operands head).exec course = (.ok name, named))
    (halted : (activate operands ending isLine (.call (head :: es))).exec course =
      (.error halt, after)) :
    after = named := by
  rw [exec_activate_definition isBuiltin defines isNamed] at halted
  obtain stopped | ⟨result, middle, -, continued⟩ := Run.exec_bind_error_cases halted
  · exact Definition.haltsInPlace_value operands defines es named halt after stopped notTooDeep
  · cases continued

/-- The same of the call wherever it is evaluated. -/
theorem eq_named_of_evaluate (limits : Limits) {isLine isTail : Bool}
    (isNamed : (headName (lineOperands limits) head).exec course = (.ok name, named))
    (halted : (evaluate limits.steps limits.depth isLine isTail (.call (head :: es))).exec course =
      (.error halt, after)) :
    after = named := by
  obtain ⟨_ | room, steps⟩ := limits
  · cases halted
    exact absurd rfl notTooDeep
  · exact eq_named_of_activate isBuiltin defines notTooDeep isNamed halted

/-- The same of the call that is evaluated to its value. -/
theorem eq_named_of_run (limits : Limits) {isLine : Bool}
    (isNamed : (headName (lineOperands limits) head).exec course = (.ok name, named))
    (halted : (run limits isLine (.call (head :: es))).exec course = (.error halt, after)) :
    after = named := by
  obtain stopped | ⟨taken, middle, ended, continued⟩ := Run.exec_bind_error_cases halted
  · exact eq_named_of_evaluate isBuiltin defines notTooDeep limits isNamed stopped
  · -- what a definition comes to is a value, so nothing is left to settle
    obtain ⟨_ | room, steps⟩ := limits
    · cases ended
    · obtain ⟨result, rfl⟩ := exists_of_activate isBuiltin defines isNamed ended
      cases continued

end

end Evaluation

end LispShell
