import LispShell.Proofs.Evaluation.Steps
import LispShell.Proofs.Evaluation.Trampoline
import LispShell.Proofs.Run.Fits

/-! # The depth of an evaluation
The room of an evaluation bounds the activations at once and the levels walked at once. Here the two
are bounded apart: the depth of an evaluation is the number of its activations at once and nothing
else. An evaluation stays within a depth if it is not cut off there once there is room for its
walks, however many bodies it takes up. -/

namespace LispShell

namespace Evaluation

variable [OperatingSystem]

/-- Evaluates in tail position or in operand position, with a bound on the activations at once and
the room for walks that goes with the activations left. -/
def nested (room : Nat → Nat) (steps : Nat) :
    (depth : Nat) → (isLine isTail : Bool) → Expr → Run (Step isTail)
  | 0, _, _, _ => Run.fail .evaluationTooDeep
  | depth + 1, isLine, isTail, e =>
    activate
      { room := room depth
        value := fun operand => Step.result <$> nested room steps depth false false operand }
      { value := .value
        branch := nested room steps depth false isTail
        body := giveBody (settle (nested room steps depth false true) steps) isTail }
      isLine e

/-- Evaluation has as much room for walks as it has activations left. -/
theorem evaluate_eq_nested (steps depth : Nat) : evaluate steps depth = nested id steps depth := by
  induction depth with
  | zero => rfl
  | succ depth inductionHypothesis =>
    funext isLine isTail e
    rw [evaluate, nested, inductionHypothesis, id]

/-- Settling only finishes more with more steps, if each of them does. -/
theorem settle_below {step refinedStep : Expr → Run (Step true)} {steps more : Nat}
    (fits : steps ≤ more) (below : ∀ e, Run.Below (step e) (refinedStep e)) (e : Expr) :
    Run.Below (settle step steps e) (settle refinedStep more e) := by
  simp only [← Discipline.unrestricted_refines_iff] at below ⊢
  refine Discipline.refines_settle (d := .unrestricted) fits (fun _ => ?_) trivial
  exact (below _).weaken fun taken _ => by cases taken <;> trivial

/-- An evaluation only finishes more with more activations, more steps and more room for walks. -/
theorem nested_below {room more : Nat → Nat} {steps moreSteps depth : Nat} (gap : Nat)
    (roomFits : ∀ level < depth, room level ≤ more (level + gap)) (stepsFit : steps ≤ moreSteps)
    (isLine isTail : Bool) (e : Expr) :
    Run.Below (nested room steps depth isLine isTail e)
      (nested more moreSteps (depth + gap) isLine isTail e) := by
  induction depth generalizing isLine isTail e with
  | zero => exact .of_isBound rfl _
  | succ depth inductionHypothesis =>
    have inner (isTail : Bool) (e : Expr) :
        Run.Below (nested room steps depth false isTail e)
          (nested more moreSteps (depth + gap) false isTail e) :=
      inductionHypothesis (fun level isLess => roomFits level (by omega)) false isTail e
    have settles (e : Expr) := settle_below stepsFit (inner true) e
    rw [Nat.succ_add, nested, nested]
    -- every level has its counterpart `gap` levels further up
    simp only [← Discipline.unrestricted_refines_iff] at inner settles ⊢
    refine Discipline.refines_activate (d := .unrestricted) ?operands ?endings (fun _ => trivial)
      trivial
    case operands =>
      exact ⟨roomFits depth (Nat.lt_succ_self depth),
        fun _ => (inner false _).map fun _ _ => trivial⟩
    case endings =>
      refine ⟨rfl, fun _ => trivial, fun _ => inner isTail _, fun _ => ?_⟩
      cases isTail with
      | true => exact Discipline.keeps_pure trivial
      | false => exact (settles _).map fun _ _ => trivial

/-! ## Room for walks apart -/

/-- Evaluates an expression to its value with a bound on the activations at once and, apart from it,
room for walks. -/
def nestedRun (walk steps depth : Nat) (isLine : Bool) (e : Expr) : Run Expr :=
  nested (fun _ => walk) steps depth isLine true e >>=
    Step.finish (settle (nested (fun _ => walk) steps depth false true) steps)

/-- Whether an evaluation up to a value or a body stays within a depth, however many bodies the
evaluations in it take up. -/
def StepFits (depth : Nat) (isLine isTail : Bool) (e : Expr) (course : Course) : Prop :=
  ∀ steps, Run.Fits (fun walk => nested (fun _ => walk) steps depth isLine isTail e) course

/-- Whether an evaluation to a value stays within a depth, however many bodies it takes up. -/
def RunFits (depth : Nat) (isLine : Bool) (e : Expr) (course : Course) : Prop :=
  ∀ steps, Run.Fits (fun walk => nestedRun walk steps depth isLine e) course

/-- With room for walks apart, an evaluation only finishes more with more of each. -/
theorem nested_below_nested {walk more steps moreSteps depth deeper : Nat} (walkFits : walk ≤ more)
    (stepsFit : steps ≤ moreSteps) (fits : depth ≤ deeper) (isLine isTail : Bool) (e : Expr) :
    Run.Below (nested (fun _ => walk) steps depth isLine isTail e)
      (nested (fun _ => more) moreSteps deeper isLine isTail e) := by
  obtain ⟨gap, rfl⟩ := Nat.exists_eq_add_of_le fits
  exact nested_below gap (fun _ _ => walkFits) stepsFit isLine isTail e

/-- An evaluation grows with the room for walks. -/
theorem nested_grows (steps depth : Nat) (isLine isTail : Bool) (e : Expr) :
    Run.Grows fun walk => nested (fun _ => walk) steps depth isLine isTail e :=
  fun _ _ walkFits =>
    nested_below_nested walkFits (Nat.le_refl steps) (Nat.le_refl depth) isLine isTail e

/-- What an evaluation with room for walks apart finishes, evaluation finishes in the same way. -/
theorem nested_below_evaluate (walk steps depth : Nat) (isLine isTail : Bool) (e : Expr) :
    Run.Below (nested (fun _ => walk) steps depth isLine isTail e)
      (evaluate steps (depth + walk) isLine isTail e) := by
  rw [evaluate_eq_nested]
  exact nested_below walk (fun level _ => Nat.le_add_left walk level) (Nat.le_refl steps) _ _ _

/-- What evaluation finishes, an evaluation with room for walks apart finishes in the same way. -/
theorem evaluate_below_nested {steps depth walk deeper : Nat} (walkFits : depth ≤ walk)
    (fits : depth ≤ deeper) (isLine isTail : Bool) (e : Expr) :
    Run.Below (evaluate steps depth isLine isTail e)
      (nested (fun _ => walk) steps deeper isLine isTail e) := by
  obtain ⟨gap, rfl⟩ := Nat.exists_eq_add_of_le fits
  rw [evaluate_eq_nested]
  exact nested_below gap (fun level isLess => Nat.le_trans (Nat.le_of_lt isLess) walkFits)
    (Nat.le_refl steps) _ _ _

omit [OperatingSystem] in
/-- Going on to a value only finishes more where settling does. -/
theorem finish_below {settled refined : Expr → Run Expr}
    (below : ∀ e, Run.Below (settled e) (refined e)) {isTail : Bool} (taken : Step isTail) :
    Run.Below (taken.finish settled) (taken.finish refined) := by
  cases taken with
  | value result => exact fun _ _ => rfl
  | tail body => exact below body

/-- With room for walks apart, evaluation comes to the same ends. -/
theorem ends_nestedRun_iff {isLine : Bool} {e : Expr} {course : Course}
    {ending : Except Halt Expr × Course} :
    Run.Ends
        (fun bounds : Nat × Limits => nestedRun bounds.1 bounds.2.steps bounds.2.depth isLine e)
        course ending ↔
      Run.Ends (fun limits => run limits isLine e) course ending := by
  constructor
  · refine Run.Ends.below fun ⟨walk, depth, steps⟩ => ⟨⟨depth + walk, steps⟩, ?_⟩
    have below := nested_below_evaluate walk steps depth
    exact (below isLine true e).bind fun taken =>
      finish_below (settle_below (Nat.le_refl _) (below false true)) taken
  · refine Run.Ends.below fun ⟨depth, steps⟩ => ⟨(depth, ⟨depth, steps⟩), ?_⟩
    have below (isLine isTail : Bool) (e : Expr) :
        Run.Below (evaluate steps depth isLine isTail e)
          (nested (fun _ => depth) steps depth isLine isTail e) :=
      evaluate_below_nested (Nat.le_refl depth) (Nat.le_refl depth) isLine isTail e
    exact (below isLine true e).bind fun taken =>
      finish_below (settle_below (Nat.le_refl _) (below false true)) taken

/-- What comes to an end of its own with no bodies to take up stays within its depth. -/
theorem stepFits_of_exec_evaluate {depth deeper : Nat} (fits : depth ≤ deeper)
    {isLine isTail : Bool} {e : Expr} {course after : Course} {outcome : Except Halt (Step isTail)}
    (ended : (evaluate 0 depth isLine isTail e).exec course = (outcome, after))
    (conclusive : Conclusive outcome) : StepFits deeper isLine isTail e course := by
  intro steps
  refine ⟨depth, fun walk walkFits cut => ?_⟩
  have below : Run.Below (evaluate 0 depth isLine isTail e)
      (nested (fun _ => walk) steps deeper isLine isTail e) :=
    (evaluate_below_nested walkFits fits isLine isTail e).trans
      (nested_below_nested (Nat.le_refl walk) (Nat.zero_le steps) (Nat.le_refl deeper) _ _ e)
  have same := below course (by rwa [ended])
  rw [same, ended] at cut
  subst cut
  exact absurd conclusive (by simp [Conclusive, Halt.isBound])

/-- What evaluation in operand position comes to, the evaluation to a value ends in. -/
theorem ends_run_of_exec_evaluate {steps depth : Nat} {e : Expr} {course after : Course}
    {value : Expr}
    (ended : (evaluate steps depth false false e).exec course = (.ok (.value value), after)) :
    Run.Ends (fun limits => run limits false e) course (.ok value, after) := by
  have isRun : (runIn ⟨depth, steps⟩ false false e).exec course = (.ok value, after) :=
    Run.exec_bind_ok course ended
  exact ends_run_iff_ends_direct.mpr
    ((ends_runIn_iff_ends_direct false).mp ⟨_, isRun, trivial⟩)

/-! ## Operands -/

/-- How the operands of an evaluation with room for walks apart are evaluated. -/
def operandsWithin (steps depth walk : Nat) : Operands where
  room := walk
  value operand := Step.result <$> nested (fun _ => walk) steps depth false false operand

section

variable {steps depth : Nat} {e : Expr} {course : Course}

/-- The evaluation of an operand grows with the room for walks. -/
theorem grows_value (steps depth : Nat) (e : Expr) :
    Run.Grows fun walk => (operandsWithin steps depth walk).value e :=
  (nested_grows steps depth false false e).map Step.result

/-- The text of an operand grows with the room for walks. -/
theorem grows_text (steps depth : Nat) (e : Expr) :
    Run.Grows fun walk => (operandsWithin steps depth walk).text e :=
  (grows_value steps depth e).bind fun value => Run.grows_within value.height value.flatten

/-- Operands are evaluated alike with more room for walks. -/
theorem refinesOperands_operandsWithin (steps depth : Nat) {less more : Nat}
    (isLess : less ≤ more) :
    Discipline.unrestricted.RefinesOperands (operandsWithin steps depth less)
      (operandsWithin steps depth more) :=
  ⟨isLess, fun _ =>
    Discipline.unrestricted_refines_iff.mpr (grows_value steps depth _ less more isLess)⟩

/-- Applying a builtin grows with the room for walks. -/
theorem grows_builtinValue (steps depth : Nat) (builtin : Builtin) (es : List Expr) :
    Run.Grows fun walk => builtin.value (operandsWithin steps depth walk) es := by
  intro less more isLess
  have operands := refinesOperands_operandsWithin steps depth isLess
  exact Discipline.unrestricted_refines_iff.mp
    ((Discipline.refines_builtinValue operands (fun _ _ => trivial) builtin).weaken
      fun _ _ => trivial)

/-- Putting arguments into the body of a function grows with the room for walks. -/
theorem grows_instantiate (function : Function) (arguments : List Expr) :
    Run.Grows fun walk => instantiate walk function arguments := by
  intro less more isLess
  exact Discipline.unrestricted_refines_iff.mp
    ((Discipline.refines_instantiate (d := .unrestricted) isLess trivial
      (fun _ _ => trivial)).weaken fun _ _ => trivial)

/-- An evaluation with room for walks apart is an activation. -/
theorem nested_succ (walk : Nat) (isLine isTail : Bool) (e : Expr) :
    nested (fun _ => walk) steps (depth + 1) isLine isTail e =
      activate (operandsWithin steps depth walk)
        { value := .value
          branch := nested (fun _ => walk) steps depth false isTail
          body := giveBody (settle (nested (fun _ => walk) steps depth false true) steps) isTail }
        isLine e :=
  rfl

/-- What an operand comes to, its evaluation ends in. -/
theorem ends_run_of_exec_value {walk : Nat} {value : Expr} {after : Course}
    (ended : ((operandsWithin steps depth walk).value e).exec course = (.ok value, after)) :
    Run.Ends (fun limits => run limits false e) course (.ok value, after) := by
  have isMap : (operandsWithin steps depth walk).value e =
      nested (fun _ => walk) steps depth false false e >>= fun taken => pure taken.result :=
    map_eq_pure_bind _ _
  rw [isMap] at ended
  obtain ⟨⟨result⟩, middle, isTaken, isResult⟩ := Run.exists_of_exec_bind_ok ended
  cases isResult
  have same :=
    nested_below_evaluate walk steps depth false false e course (by rw [isTaken]; trivial)
  exact ends_run_of_exec_evaluate (same.trans isTaken)

end

/-! ## From one body to the next -/

/-- Whether an evaluation in tail position hands a body over, and the course in which it does. -/
def HandsOver (isLine : Bool) (e : Expr) (course : Course) (body : Expr) (after : Course) : Prop :=
  ∃ limits : Limits,
    (evaluate limits.steps limits.depth isLine true e).exec course = (.ok (.tail body), after)

/-- The expressions that the evaluation of an expression takes up one after the other, and the
courses from which it does: the expression itself, and each body that is handed over. -/
inductive TakesUp (isLine : Bool) (e : Expr) (course : Course) : Bool → Expr → Course → Prop
  /-- The expression itself is taken up first. -/
  | start : TakesUp isLine e course isLine e course
  /-- A body that is handed over is taken up next. -/
  | body {line : Bool} {form body : Expr} {before after : Course}
    (taken : TakesUp isLine e course line form before)
    (handed : HandsOver line form before body after) : TakesUp isLine e course false body after

variable {isLine : Bool} {e : Expr} {course : Course}

/-- A body that is given with room for walks apart is handed over. -/
theorem handsOver_of_exec_nested {walk steps depth : Nat} {body : Expr} {after : Course}
    (ended : (nested (fun _ => walk) steps depth isLine true e).exec course =
      (.ok (.tail body), after)) : HandsOver isLine e course body after := by
  refine ⟨⟨depth + walk, steps⟩, ?_⟩
  rw [← ended]
  exact nested_below_evaluate walk steps depth isLine true e course (by rw [ended]; trivial)

/-- What goes on to a value fits if the evaluation up to a body does and what is made of a body that
is handed over. -/
theorem fits_finish {depth : Nat} (first : StepFits depth isLine true e course) (steps : Nat)
    {settled : Nat → Expr → Run Expr}
    (goesOn : ∀ body after, HandsOver isLine e course body after →
      Run.Fits (fun walk => settled walk body) after) :
    Run.Fits
      (fun walk => nested (fun _ => walk) steps depth isLine true e >>= Step.finish (settled walk))
      course := by
  have ends : Run.FitsTo (fun walk => nested (fun _ => walk) steps depth isLine true e) course
      fun next after => ∀ body, next = .tail body → HandsOver isLine e course body after := by
    refine ⟨first steps, fun ended body isBody => ?_⟩
    subst isBody
    exact handsOver_of_exec_nested ended
  refine ends.bind_fits (nested_grows steps depth isLine true e) fun next after handed => ?_
  cases next with
  | value result => exact .of_pure result
  | tail body => exact goesOn body after (handed body rfl)

/-- Where the evaluation of everything that is taken up stays within a depth up to the next body or
the value, the evaluation to the value does, however many bodies are taken up. -/
theorem fits_of_takesUp {base : Nat}
    (each : ∀ line form middle, TakesUp isLine e course line form middle →
      StepFits base line true form middle)
    {line : Bool} {form : Expr} {middle : Course} {depth : Nat}
    (taken : TakesUp isLine e course line form middle)
    (first : StepFits depth line true form middle) (steps bodies : Nat) :
    Run.Fits
      (fun walk => nested (fun _ => walk) steps depth line true form >>=
        Step.finish (settle (nested (fun _ => walk) steps base false true) bodies))
      middle := by
  induction bodies generalizing line form middle depth with
  | zero => exact fits_finish first steps fun _ _ _ => .of_throw (by simp)
  | succ bodies inductionHypothesis =>
    refine fits_finish first steps fun body after handed => ?_
    have isNext := taken.body handed
    exact inductionHypothesis isNext (each _ _ _ isNext)

end Evaluation

end LispShell
