import LispShell.Evaluation.Direct
import LispShell.Proofs.Evaluation.Builtins

/-! # Evaluation under a discipline
An evaluation with more room and more steps ends in the same way wherever it ends at all, and every
evaluation keeps a discipline. One lemma follows an activation; the evaluators differ only in what
they do with the branch or the body in which it ends. -/

namespace LispShell

namespace Discipline

variable [OperatingSystem] {d : Discipline} {operands refined : Operands}

/-! ## Commands -/

/-- Running a program. -/
theorem keeps_runProcess (path : String) (arguments : List String) {capture : Bool}
    (covered : capture = true ∨ d.coversLines) :
    d.Keeps (fun _ => True) (Command.runProcess path arguments capture) := by
  refine keeps_of_exec fun course holds => ⟨?_, fun _ _ => trivial⟩
  have consulted := Run.exec_consult course (.argumentUnfit (arguments.headD ""))
    (·.runProcess course.effects path arguments capture)
  rw [Command.runProcess, Run.exec_bind_ok course (Run.exec_effects course)]
  cases ended : course.shell.world.runProcess course.effects path arguments capture with
  | error fault =>
    rw [ended] at consulted
    rw [Run.exec_bind_error course consulted]
    exact holds
  | ok ending =>
    rw [ended] at consulted
    rw [Run.exec_bind_ok course consulted]
    exact ⟨holds.1, d.outside_does holds.2 (.launch ended) covered⟩

/-- The lines of an output are a value. -/
theorem value_linesOf (output : String) : d.value (Command.linesOf output) := by
  refine (d.value_list _).mpr fun item isIn => ?_
  obtain ⟨line, -, rfl⟩ := List.mem_map.mp isIn
  exact d.value_atom line

section

variable (ops : d.RefinesOperands operands refined)
include ops

/-- Running the program that a name stands for. -/
theorem refines_command {es : List Expr} (forms : ∀ e ∈ es, d.form e) {isLine : Bool}
    (covered : isLine = true → d.coversLines) (name : String) :
    d.Refines d.value (Command.run operands isLine name es)
      (Command.run refined isLine name es) := by
  refine (keeps_consult _ _).bind fun found _ => ?_
  cases found with
  | none => exact keeps_fail _
  | some path =>
    refine (refines_mapM fun e isIn => refines_text ops (forms e isIn)).bind fun texts _ => ?_
    have capturedOr : (!isLine) = true ∨ d.coversLines := by
      cases isLine with
      | false => exact .inl rfl
      | true => exact .inr (covered rfl)
    refine (keeps_runProcess path (name :: texts) capturedOr).bind fun result _ => ?_
    cases isLine with
    | false => exact keeps_pure (value_linesOf _)
    | true =>
      refine (keeps_changeSession fun s isKept =>
        d.session_status result.status (covered rfl) isKept).bind fun _ _ => ?_
      exact keeps_pure (d.value_atom _)

/-! ## Activations -/

/-- The name that a head stands for. -/
theorem refines_headName {head : Expr} (isForm : d.form head) :
    d.Refines (fun _ => True) (Evaluation.headName operands head)
      (Evaluation.headName refined head) := by
  cases head with
  | atom text => exact keeps_pure trivial
  | list items => exact refines_flatten ops.room_le _
  | call items => exact refines_text ops isForm

omit ops in
/-- Substitution of arguments for parameters. -/
theorem refines_substituteParams {room more : Nat} (fits : room ≤ more) {body : Expr}
    (isForm : d.form body) {pairs : List (String × Expr)}
    (areValues : ∀ pair ∈ pairs, d.value pair.2) :
    d.Refines d.form (Evaluation.substituteParams room body pairs)
      (Evaluation.substituteParams more body pairs) := by
  induction pairs generalizing body with
  | nil => exact keeps_pure isForm
  | cons pair rest inductionHypothesis =>
    obtain ⟨param, argument⟩ := pair
    refine (refines_substitute fits param isForm (areValues (param, argument) (by simp))).bind
      fun substituted isSubstituted => ?_
    exact inductionHypothesis isSubstituted fun pair isIn => areValues pair (by simp [isIn])

omit ops in
/-- The body of a function with its arguments in place. -/
theorem refines_instantiate {room more : Nat} (fits : room ≤ more) {function : Function}
    (isForm : d.form function.body) {arguments : List Expr}
    (areValues : ∀ argument ∈ arguments, d.value argument) :
    d.Refines d.form (Evaluation.instantiate room function arguments)
      (Evaluation.instantiate more function arguments) := by
  unfold Evaluation.instantiate
  split
  · exact refines_substituteParams fits isForm fun pair isIn =>
      areValues pair.2 (List.of_mem_zip isIn).2
  · exact keeps_fail _

/-- The value of an atom. -/
theorem refines_valueOfAtom (text : String) :
    d.Refines d.value (Evaluation.valueOfAtom operands text)
      (Evaluation.valueOfAtom refined text) := by
  refine keeps_session.bind fun session isKept => ?_
  split
  · exact keeps_pure (d.value_atom _)
  · cases defined : session.definitions.find? text with
    | none => exact keeps_pure (d.value_atom _)
    | some bound =>
      have isForm := d.form_of_definition isKept defined
      cases bound with
      | call items => exact ops.value isForm
      | atom other => exact keeps_pure (d.value_atom _)
      | list items => exact keeps_pure (d.value_of_form_list isForm)

end

variable (d) in
/-- Whether the ways in which an activation ends keep the discipline and others refine them. -/
structure RefinesEnding {α : Type} (good : α → Prop) (ending refined : Ending α) :
    Prop where
  /-- Values are given in the same way. -/
  same_value : refined.value = ending.value
  /-- What is given for a value is good. -/
  value {e : Expr} (isValue : d.value e) : good (ending.value e)
  /-- Every branch is evaluated in the same way. -/
  branch {e : Expr} (isForm : d.form e) : d.Refines good (ending.branch e) (refined.branch e)
  /-- Every body is evaluated in the same way. -/
  body {e : Expr} (isForm : d.form e) : d.Refines good (ending.body e) (refined.body e)

/-- One activation refines another if the evaluation of operands does and the endings do. -/
theorem refines_activate {α : Type} {good : α → Prop} {ending refinedEnding : Ending α}
    (ops : d.RefinesOperands operands refined) (endings : d.RefinesEnding good ending refinedEnding)
    {isLine : Bool} (covered : isLine = true → d.coversLines) {e : Expr} (isForm : d.form e) :
    d.Refines good (Evaluation.activate operands ending isLine e)
      (Evaluation.activate refined refinedEnding isLine e) := by
  match e, isForm with
  | .list items, isForm =>
    simp only [Evaluation.activate, endings.same_value]
    exact keeps_pure (endings.value (d.value_of_form_list isForm))
  | .atom text, _ =>
    simp only [Evaluation.activate, endings.same_value]
    exact (refines_valueOfAtom ops text).map fun value isValue => endings.value isValue
  | .call [], _ => exact keeps_fail _
  | .call (head :: es), isForm =>
    have forms := (d.form_call (head :: es)).mp isForm
    have operandForms : ∀ e ∈ es, d.form e := fun e isIn => forms e (by simp [isIn])
    refine (refines_headName ops (forms head (by simp))).bind fun name _ => ?_
    cases Builtin.ofName? name with
    | some builtin =>
      dsimp only
      refine (refines_apply ops operandForms builtin).bind fun applied isGood => ?_
      cases applied with
      | value result =>
        simp only [endings.same_value]
        exact keeps_pure (endings.value isGood)
      | branch e => exact endings.branch isGood
    | none =>
      refine keeps_session.bind fun session isKept => ?_
      cases found : session.functions.find? name with
      | some function =>
        refine (refines_mapM fun e isIn => ops.value (operandForms e isIn)).bind
          fun arguments areValues => ?_
        have isBody := d.form_of_function isKept found
        refine (refines_instantiate ops.room_le isBody areValues).bind fun body isForm => ?_
        exact endings.body isForm
      | none =>
        simp only [endings.same_value]
        exact (refines_command ops operandForms covered name).map
          fun value isValue => endings.value isValue

/-! ## Evaluators -/

variable (d) in
/-- What holds of a step: of its value or of its body. -/
def step {isTail : Bool} : Step isTail → Prop
  | .value result => d.value result
  | .tail body => d.form body

/-- The value of a step in operand position. -/
theorem value_of_step {step : Step false} (isGood : d.step step) : d.value step.result := by
  cases step
  exact isGood

/-- Going on to the value. -/
theorem refines_finish {isTail : Bool} {settled refinedSettled : Expr → Run Expr}
    (refines : ∀ {e}, d.form e → d.Refines d.value (settled e) (refinedSettled e))
    {taken : Step isTail} (isGood : d.step taken) :
    d.Refines d.value (taken.finish settled) (taken.finish refinedSettled) := by
  cases taken with
  | value result => exact keeps_pure isGood
  | tail body => exact refines isGood

/-- Settling. -/
theorem refines_settle {step refinedStep : Expr → Run (Step true)} {steps more : Nat}
    (fits : steps ≤ more)
    (refines : ∀ {e}, d.form e → d.Refines d.step (step e) (refinedStep e)) {e : Expr}
    (isForm : d.form e) :
    d.Refines d.value (Evaluation.settle step steps e) (Evaluation.settle refinedStep more e) := by
  induction steps generalizing more e with
  | zero => exact refines_outOfSteps _
  | succ steps inductionHypothesis =>
    obtain ⟨more, rfl⟩ : ∃ fewer, more = fewer + 1 := ⟨more - 1, by omega⟩
    exact (refines isForm).bind fun taken isGood =>
      refines_finish (fun isForm => inductionHypothesis (by omega) isForm) isGood

/-- An evaluation does the same with more room and more steps, and it keeps a discipline. -/
theorem refines_evaluate {steps moreSteps room moreRoom : Nat} (stepsFit : steps ≤ moreSteps)
    (roomFits : room ≤ moreRoom) {isLine isTail : Bool} (covered : isLine = true → d.coversLines)
    {e : Expr} (isForm : d.form e) :
    d.Refines d.step (Evaluation.evaluate steps room isLine isTail e)
      (Evaluation.evaluate moreSteps moreRoom isLine isTail e) := by
  induction room generalizing moreRoom isLine isTail e with
  | zero => exact refines_tooDeep _
  | succ room inductionHypothesis =>
    obtain ⟨moreRoom, rfl⟩ : ∃ less, moreRoom = less + 1 := ⟨moreRoom - 1, by omega⟩
    have fits : room ≤ moreRoom := by omega
    -- nothing below an activation is a line
    have inner {isTail : Bool} {e : Expr} (isForm : d.form e) :
        d.Refines d.step (Evaluation.evaluate steps room false isTail e)
          (Evaluation.evaluate moreSteps moreRoom false isTail e) :=
      inductionHypothesis fits (by simp) isForm
    refine refines_activate (d := d) ?operands ?endings covered isForm
    case operands =>
      refine ⟨fits, fun isForm => ?_⟩
      exact (inner isForm).map fun _ isGood => value_of_step isGood
    case endings =>
      refine ⟨rfl, fun isValue => isValue, fun isForm => inner isForm, fun isForm => ?_⟩
      cases isTail with
      | true => exact keeps_pure isForm
      | false =>
        exact (refines_settle stepsFit (fun isForm => inner isForm) isForm).map
          fun _ isValue => isValue

/-- The evaluation of an expression does the same with higher limits, and it keeps a discipline. -/
theorem refines_run {limits higher : Limits} (depthFits : limits.depth ≤ higher.depth)
    (stepsFit : limits.steps ≤ higher.steps) {isLine : Bool}
    (covered : isLine = true → d.coversLines) {e : Expr} (isForm : d.form e) :
    d.Refines d.value (Evaluation.run limits isLine e) (Evaluation.run higher isLine e) := by
  have steps {e : Expr} (isForm : d.form e) :
      d.Refines d.step (Evaluation.evaluate limits.steps limits.depth false true e)
        (Evaluation.evaluate higher.steps higher.depth false true e) :=
    refines_evaluate stepsFit depthFits (by simp) isForm
  exact (refines_evaluate stepsFit depthFits covered isForm).bind fun taken isGood =>
    refines_finish (refines_settle stepsFit steps) isGood

/-- Evaluation keeps a discipline, in either position. -/
theorem keeps_evaluate (steps room : Nat) {isLine isTail : Bool}
    (covered : isLine = true → d.coversLines) {e : Expr} (isForm : d.form e) :
    d.Keeps d.step (Evaluation.evaluate steps room isLine isTail e) :=
  refines_evaluate (Nat.le_refl _) (Nat.le_refl _) covered isForm

/-- The evaluation of an expression keeps a discipline. -/
theorem keeps_run (limits : Limits) {isLine : Bool} (covered : isLine = true → d.coversLines)
    {e : Expr} (isForm : d.form e) : d.Keeps d.value (Evaluation.run limits isLine e) :=
  refines_run (Nat.le_refl _) (Nat.le_refl _) covered isForm

/-- Direct evaluation does the same with more room, and it keeps a discipline. -/
theorem refines_direct {depth deeper : Nat} (fits : depth ≤ deeper) {isLine : Bool}
    (covered : isLine = true → d.coversLines) {e : Expr} (isForm : d.form e) :
    d.Refines d.value (Evaluation.direct depth isLine e) (Evaluation.direct deeper isLine e) := by
  induction depth generalizing deeper isLine e with
  | zero => exact refines_tooDeep _
  | succ depth inductionHypothesis =>
    obtain ⟨deeper, rfl⟩ : ∃ less, deeper = less + 1 := ⟨deeper - 1, by omega⟩
    have fits : depth ≤ deeper := by omega
    have inner {e : Expr} (isForm : d.form e) :
        d.Refines d.value (Evaluation.direct depth false e)
          (Evaluation.direct deeper false e) :=
      inductionHypothesis fits (by simp) isForm
    refine refines_activate (d := d) ?operands ?endings covered isForm
    case operands => exact ⟨fits, fun isForm => inner isForm⟩
    case endings =>
      exact ⟨rfl, fun isValue => isValue, fun isForm => inner isForm, fun isForm => inner isForm⟩

end Discipline

end LispShell
