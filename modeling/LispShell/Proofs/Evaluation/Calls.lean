import LispShell.Proofs.Evaluation.Steps
import LispShell.Proofs.Expr.Shape
import LispShell.Proofs.Run.Halts
import LispShell.Script.Run
import Mathlib

/-! # Calls that cannot be made
A builtin looks at the number of its operands before anything else, and a program is looked up
before its arguments are evaluated. So a call with a wrong number of operands, or of a name that
stands for nothing, is refused with nothing done. That no operand is evaluated shows in that the
refusal is the same however operands are evaluated. -/

namespace LispShell

/-! ## Numbers of operands -/

/-- How many operands are taken. -/
inductive Arity where
  /-- Just so many. -/
  | exactly (count : Nat)
  /-- So many or more. -/
  | atLeast (count : Nat)
  /-- So many or fewer. -/
  | atMost (count : Nat)
  deriving Repr, DecidableEq

/-- Whether so many operands are taken. -/
def Arity.admits : Arity → Nat → Bool
  | .exactly count, given => given == count
  | .atLeast count, given => count ≤ given
  | .atMost count, given => given ≤ count

namespace Builtin

/-- The number of operands that a builtin takes. -/
def arity : Builtin → Arity
  | .add | .multiply | .all | .any | .list => .atLeast 0
  | .subtract | .divide | .remainder | .power => .exactly 2
  | .less | .greater | .lessOrEqual | .greaterOrEqual | .equal => .exactly 2
  | .ifThenElse | .defineFunction => .exactly 3
  | .negate | .first | .rest | .getVariable | .read => .exactly 1
  | .cons | .define | .bind | .setVariable | .write | .append => .exactly 2
  | .defineAlias => .atLeast 2
  | .enter | .exit => .atMost 1

section Refused

variable {α : Type} {refused : α} {f : List Expr → α} {es : List Expr}

/-- What refuses all but one operand. -/
theorem eq_refused_of_ne_one (none : f [] = refused) (more : ∀ a b es, f (a :: b :: es) = refused)
    (wrong : ((Arity.exactly 1).admits es.length) = false) : f es = refused := by
  match es with
  | [] => exact none
  | [_] => cases wrong
  | _ :: _ :: _ => exact more _ _ _

/-- What refuses all but two operands. -/
theorem eq_refused_of_ne_two (none : f [] = refused) (one : ∀ a, f [a] = refused)
    (more : ∀ a b c es, f (a :: b :: c :: es) = refused)
    (wrong : ((Arity.exactly 2).admits es.length) = false) : f es = refused := by
  match es with
  | [] => exact none
  | [_] => exact one _
  | [_, _] => cases wrong
  | _ :: _ :: _ :: _ => exact more _ _ _ _

/-- What refuses all but three operands. -/
theorem eq_refused_of_ne_three (none : f [] = refused) (one : ∀ a, f [a] = refused)
    (two : ∀ a b, f [a, b] = refused) (more : ∀ a b c d es, f (a :: b :: c :: d :: es) = refused)
    (wrong : ((Arity.exactly 3).admits es.length) = false) : f es = refused := by
  match es with
  | [] => exact none
  | [_] => exact one _
  | [_, _] => exact two _ _
  | [_, _, _] => cases wrong
  | _ :: _ :: _ :: _ :: _ => exact more _ _ _ _ _

/-- What refuses more than one operand. -/
theorem eq_refused_of_two_le (more : ∀ a b es, f (a :: b :: es) = refused)
    (wrong : ((Arity.atMost 1).admits es.length) = false) : f es = refused := by
  match es with
  | [] => cases wrong
  | [_] => cases wrong
  | _ :: _ :: _ => exact more _ _ _

/-- What refuses fewer than two operands. -/
theorem eq_refused_of_lt_two (none : f [] = refused) (one : ∀ a, f [a] = refused)
    (wrong : ((Arity.atLeast 2).admits es.length) = false) : f es = refused := by
  match es with
  | [] => exact none
  | [_] => exact one _
  | _ :: _ :: es => simp [Arity.admits] at wrong

end Refused

/-- A builtin refuses a wrong number of operands, however operands are evaluated. -/
theorem value_of_not_admits {builtin : Builtin} {es : List Expr} (operands : Operands)
    (wrong : builtin.arity.admits es.length = false) :
    builtin.value operands es = Run.fail (.builtinArity builtin) := by
  cases builtin with
  | add | multiply | all | any | list => simp [arity, Arity.admits] at wrong
  | subtract | divide | remainder | power | less | greater | lessOrEqual | greaterOrEqual | equal
  | cons | define | bind | setVariable | write | append =>
    exact eq_refused_of_ne_two rfl (fun _ => rfl) (fun _ _ _ _ => rfl) wrong
  | ifThenElse | defineFunction =>
    exact eq_refused_of_ne_three rfl (fun _ => rfl) (fun _ _ => rfl) (fun _ _ _ _ _ => rfl) wrong
  | negate | first | rest | getVariable | read =>
    exact eq_refused_of_ne_one rfl (fun _ _ _ => rfl) wrong
  | defineAlias => exact eq_refused_of_lt_two rfl (fun _ => rfl) wrong
  | enter | exit => exact eq_refused_of_two_le (fun _ _ _ => rfl) wrong

/-- Operands that do not come to a value, with no room for anything else. -/
def stuck : Operands := ⟨0, fun _ => throw .outOfSteps⟩

/-- A builtin does not refuse every row of operands of a right number. -/
theorem value_stuck_ne {builtin : Builtin} {count : Nat}
    (right : builtin.arity.admits count = true) :
    builtin.value stuck (List.replicate count (.list [])) ≠
      Run.fail (.builtinArity builtin) := by
  intro same
  have halted : ((builtin.value stuck (List.replicate count (.list []))).exec .fresh).1 =
      .error (.fault (.builtinArity builtin)) := by
    rw [same, Run.exec_fail]
  cases builtin with
  | add | multiply | all | any | list =>
    cases count with
    | zero => cases halted
    | succ count => cases halted
  | exit =>
    match count with
    | 0 => cases halted
    | 1 => cases halted
  | enter =>
    match count with
    | 0 =>
      -- whether the home directory is there is up to the world
      have enters : Run.HaltsOnly (fun _ halt => halt ≠ .fault (.builtinArity .enter))
          (Environment.enter stuck []) :=
        (Run.HaltsOnly.consult fun _ _ _ => nofun).bind fun _ =>
          (Run.HaltsOnly.tryPerform _ _ fun _ _ => nofun).bind fun _ =>
            (Run.HaltsOnly.consult fun _ _ _ => nofun).bind fun _ =>
              (Run.HaltsOnly.perform _ _).bind fun _ => .pure _
      exact enters _ _ _ (Prod.ext halted rfl) rfl
    | 1 => cases halted
  | defineAlias =>
    match count with
    | _ + 2 => cases halted
  | _ =>
    obtain rfl := eq_of_beq right
    cases halted

/-- The number of operands that a builtin refuses, whatever they are and however they are evaluated,
is just that which it does not take. -/
theorem refuses_iff (builtin : Builtin) (count : Nat) :
    (∀ operands es, es.length = count →
      builtin.value operands es = Run.fail (.builtinArity builtin)) ↔
      builtin.arity.admits count = false := by
  constructor
  · intro refuses
    rw [← Bool.not_eq_true]
    exact fun right => value_stuck_ne right (refuses _ _ List.length_replicate)
  · rintro wrong operands es rfl
    exact value_of_not_admits operands wrong

end Builtin

/-! ## Calls -/

namespace Evaluation

/-- The levels that are walked to name the head of a call. -/
def headLevels : Expr → Nat
  | .list items => (Expr.list items).height
  | _ => 0

/-- A head that is no call is named by its text, if there is room to take it, and nothing is done.
-/
theorem exec_headName {head : Expr} (notCall : ∀ items, head ≠ .call items) (operands : Operands)
    (course : Course) :
    (headName operands head).exec course =
      (if headLevels head ≤ operands.room then .ok head.flatten
        else .error (.fault .evaluationTooDeep), course) := by
  cases head with
  | call items => exact absurd rfl (notCall items)
  | atom text => rfl
  | list items =>
    rw [headName, Operands.flatten, Operands.within, headLevels]
    split
    · rfl
    · rfl

section

variable [OperatingSystem]

/-- Whether a call is refused for a fault, with nothing done. -/
structure RefusesCall (head : Expr) (es : List Expr) (course : Course) (cause : Fault) : Prop where
  /-- However operands are evaluated and whatever becomes of the end: where there is room to name
  the head, the fault is all that comes of the call. -/
  activation {α : Type} (operands : Operands) (ending : Ending α) (isLine : Bool) :
    headLevels head ≤ operands.room →
      (activate operands ending isLine (.call (head :: es))).exec course =
        (.error (.fault cause), course)
  /-- The call comes to the fault within all limits in which its head can be named, and to the fault
  of the limits within all others. -/
  run (limits : Limits) (isLine : Bool) :
    (run limits isLine (.call (head :: es))).exec course =
      (.error (.fault (if headLevels head < limits.depth then cause else .evaluationTooDeep)),
        course)

variable {head : Expr} {es : List Expr} {course : Course} {cause : Fault}
  (notCall : ∀ items, head ≠ .call items)
include notCall

/-- A call is refused if the fault is all that comes of it once its head has been named. -/
theorem RefusesCall.of_named
    (refuses : ∀ {α : Type} (operands : Operands) (ending : Ending α) (isLine : Bool),
      (headName operands head).exec course = (.ok head.flatten, course) →
        (activate operands ending isLine (.call (head :: es))).exec course =
          (.error (.fault cause), course)) :
    RefusesCall head es course cause := by
  have activation {α : Type} (operands : Operands) (ending : Ending α) (isLine : Bool)
      (fits : headLevels head ≤ operands.room) :
      (activate operands ending isLine (.call (head :: es))).exec course =
        (.error (.fault cause), course) := by
    refine refuses operands ending isLine ?_
    rw [exec_headName notCall, if_pos fits]
  refine ⟨activation, fun limits isLine => ?_⟩
  obtain ⟨_ | room, steps⟩ := limits
  · rfl
  · refine Run.exec_bind_error course ?_
    dsimp only
    rw [evaluate_succ]
    by_cases fits : headLevels head ≤ room
    · rw [if_pos (Nat.lt_succ_of_le fits)]
      exact activation (operandsAt steps room) _ isLine fits
    · have isStopped : (headName (operandsAt steps room) head).exec course =
          (.error (.fault .evaluationTooDeep), course) := by
        simp only [exec_headName notCall, operandsAt, if_neg fits]
      rw [if_neg (by omega), activate, Run.exec_bind_error course isStopped]

/-- A call of a builtin with a wrong number of operands is refused. -/
theorem refusesCall_of_not_admits {builtin : Builtin}
    (isBuiltin : Builtin.ofName? head.flatten = some builtin)
    (wrong : builtin.arity.admits es.length = false) :
    RefusesCall head es course (.builtinArity builtin) := by
  refine .of_named notCall fun operands ending isLine isNamed => ?_
  have isRefused : builtin.apply operands es = Run.fail (.builtinArity builtin) := by
    rw [Builtin.apply, Builtin.value_of_not_admits operands wrong]
    rfl
  rw [activate, Run.exec_bind_ok course isNamed]
  simp only [isBuiltin, isRefused]
  rfl

/-- A call of a name that stands for nothing is refused. -/
theorem refusesCall_of_not_found (notBuiltin : Builtin.ofName? head.flatten = none)
    (notFunction : course.shell.session.functions.find? head.flatten = none)
    (notFound : course.shell.world.findProgram head.flatten = .ok none) :
    RefusesCall head es course (.commandNotFound head.flatten) := by
  refine .of_named notCall fun operands ending isLine isNamed => ?_
  have consulted := Run.exec_consult course .noWorkingDirectory (·.findProgram head.flatten)
  rw [notFound] at consulted
  have isRefused : (Command.run operands isLine head.flatten es).exec course =
      (.error (.fault (.commandNotFound head.flatten)), course) := by
    rw [Command.run, Run.exec_bind_ok course consulted, Run.exec_fail]
  rw [activate, Run.exec_bind_ok course isNamed]
  simp only [notBuiltin]
  rw [Run.exec_bind_ok course (Run.exec_session course), notFunction, Run.exec_map, isRefused]
  rfl

omit notCall in
/-- A call that cannot be made evaluates nothing. Where the head is no call itself and names a
builtin that does not take so many operands, or names neither a builtin nor a function nor a
program, the call is refused for just that, and the session, the world and the record are left as
they were, whatever the operands are. And the number of operands for which a builtin refuses them
all is just that which it does not take. -/
theorem uncallable_heads_evaluate_nothing (head : Expr) (es : List Expr) (course : Course)
    (notCall : ∀ items, head ≠ .call items) :
    (∀ builtin, Builtin.ofName? head.flatten = some builtin →
      builtin.arity.admits es.length = false →
        RefusesCall head es course (.builtinArity builtin)) ∧
    (Builtin.ofName? head.flatten = none →
      course.shell.session.functions.find? head.flatten = none →
        course.shell.world.findProgram head.flatten = .ok none →
          RefusesCall head es course (.commandNotFound head.flatten)) ∧
    (∀ (builtin : Builtin) (count : Nat),
      (∀ operands es, es.length = count →
        builtin.value operands es = Run.fail (.builtinArity builtin)) ↔
        builtin.arity.admits count = false) := by
  refine ⟨?wrong, ?notFound, Builtin.refuses_iff⟩
  case wrong =>
    intro builtin isBuiltin wrong
    exact refusesCall_of_not_admits notCall isBuiltin wrong
  case notFound =>
    intro notBuiltin notFunction notFound
    exact refusesCall_of_not_found notCall notBuiltin notFunction notFound

end

/-- Two writes are not done where `cd`, which the head spells as a list of two letters, takes at
most one operand, nor where the head spells the name of nothing. -/
theorem misspelled_calls_write_nothing :
    let writes : List Expr := List.replicate 2 (.call [.atom "write", .atom "text", .atom "file"])
    RefusesCall (.list [.atom "c", .atom "d"]) writes .fresh (.builtinArity .enter) ∧
      RefusesCall (.atom "cdd") writes .fresh (.commandNotFound "cdd") := by
  intro writes
  have isEnter : Builtin.ofName? (Expr.list [.atom "c", .atom "d"]).flatten = some .enter := by
    decide
  have notBuiltin : Builtin.ofName? (Expr.atom "cdd").flatten = none := by decide
  have notFound : (Course.fresh).shell.world.findProgram "cdd" = .ok none := by cbv
  exact ⟨(uncallable_heads_evaluate_nothing _ writes .fresh (by simp)).1 .enter isEnter rfl,
    (uncallable_heads_evaluate_nothing _ writes .fresh (by simp)).2.1 notBuiltin rfl notFound⟩

/-- A wrong number of operands is not the fault where the head is nested too deep to be named. -/
theorem deep_head_is_not_named :
    ¬ ∀ (head : Expr) (es : List Expr) (course : Course) (builtin : Builtin),
      (∀ items, head ≠ .call items) → Builtin.ofName? head.flatten = some builtin →
        builtin.arity.admits es.length = false →
          ((run .standard false (.call (head :: es))).exec course).1 =
            .error (.fault (.builtinArity builtin)) := by
  intro named
  let head : Expr := (Expr.atom "cd").wrapped 3000
  have isList : head = .list [(Expr.atom "cd").wrapped 2999] := rfl
  have notCall : ∀ items, head ≠ .call items := by
    intro items isCall
    cases isList.symm.trans isCall
  have isBuiltin : Builtin.ofName? head.flatten = some .enter := by
    rw [Expr.flatten_wrapped]
    decide
  have isDeep : ¬ headLevels head < Limits.standard.depth := by
    have isHeight : headLevels head = (Expr.atom "cd").height + 3000 :=
      Expr.height_wrapped (.atom "cd") 3000
    rw [isHeight]
    decide
  have halted := named head [.atom "a", .atom "b"] .fresh .enter notCall isBuiltin rfl
  rw [(refusesCall_of_not_admits notCall isBuiltin rfl).run, if_neg isDeep] at halted
  cases halted

end Evaluation

end LispShell
