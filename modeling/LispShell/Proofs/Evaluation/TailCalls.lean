import LispShell.Proofs.Evaluation.Hygiene
import LispShell.Proofs.Evaluation.TailForms
import LispShell.Proofs.Number.RoundTrip
import LispShell.Script.Run

/-! # Tail calls
An evaluation takes up one body after the other, each with all the depth there is, so it needs no
more depth than the deepest of these steps. Where functions call each other in tail position only,
each step goes through no more levels than their bodies have, whatever the number of calls. -/

namespace LispShell

namespace Loops

open Evaluation

section

variable [OperatingSystem] {loops : Loops} {steps depth : Nat} {course : Course}

section Operands

variable {isResult : Expr → Prop} {e : Expr} (isOperand : loops.Operand isResult e)
  (isCourse : loops.isCourse course) (isDeeper : loops.depth ≤ depth)
include isOperand isCourse isDeeper

/-- An operand comes to its values. -/
theorem Operand.fitsTo_value :
    Run.FitsTo (fun walk => (operandsWithin steps depth walk).value e) course
      fun value after => isResult value ∧ loops.isCourse after :=
  ⟨(isOperand.fits isCourse isDeeper steps).map Step.result,
    fun ended => isOperand.gives isCourse (ends_run_of_exec_value ended)⟩

/-- The text of an operand leaves a course of the family. -/
theorem Operand.fitsTo_text :
    Run.FitsTo (fun walk => (operandsWithin steps depth walk).text e) course
      fun _ after => loops.isCourse after := by
  refine (isOperand.fitsTo_value isCourse isDeeper).bind (grows_value steps depth e)
    fun value after gives => ?_
  refine ⟨(Run.FitsTo.of_within value.height value.flatten).fits, fun ended => ?_⟩
  obtain ⟨-, rfl⟩ := (Run.FitsTo.of_within value.height value.flatten).holds_of_exec ended
  exact gives.2

/-- A choice leads to one of its branches. -/
theorem Operand.fitsTo_choose (consequent alternative : Expr) :
    Run.FitsTo
      (fun walk => Builtin.choose (operandsWithin steps depth walk) [e, consequent, alternative])
      course
      fun branch after => (branch = consequent ∨ branch = alternative) ∧ loops.isCourse after := by
  simp only [Builtin.choose, Operands.isTrue, bind_assoc, pure_bind]
  refine (isOperand.fitsTo_text isCourse isDeeper).bind (grows_text steps depth e)
    fun text after isCourse => .of_pure ⟨?_, isCourse⟩
  split
  · exact .inl rfl
  · exact .inr rfl

end Operands

/-! ## Values in place of names -/

section Substitution

variable {scope pending : List String} {levels : Nat} {body : Expr} {pairs : List (String × Expr)}
  (isTail : loops.TailForm loops.BindsAnew scope pending levels body)
  (areFree : ∀ name ∈ scope, loops.Free name) (inScope : ∀ pair ∈ pairs, pair.1 ∈ scope)
  (covers : pending ⊆ pairs.map Prod.fst)
include isTail areFree inScope covers

/-- Arguments are put into a tail form. -/
theorem TailForm.fitsTo_substituteParams (areValues : ∀ pair ∈ pairs, loops.isValue pair.2) :
    Run.FitsTo (fun walk => substituteParams walk body pairs) course
      fun result after =>
        loops.TailForm loops.BindsAnew scope [] levels result ∧ after = course := by
  induction pairs generalizing body pending with
  | nil => exact .of_pure ⟨List.subset_nil.mp covers ▸ isTail, rfl⟩
  | cons pair rest inductionHypothesis =>
    obtain ⟨inScope, restInScope⟩ := List.forall_mem_cons.mp inScope
    obtain ⟨isValue, restAreValues⟩ := List.forall_mem_cons.mp areValues
    refine (Run.FitsTo.of_within body.callHeight (body.substitute pair.1 pair.2)).bind
      (Run.grows_within _ _) fun substituted after ⟨isSubstituted, isHere⟩ => ?_
    subst isSubstituted isHere
    exact inductionHypothesis (isTail.substitute areFree inScope isValue covers) restInScope
      (List.Subset.refl _) restAreValues

/-- The values of bindings are put into a tail form. -/
theorem TailForm.fitsTo_substituteBindings (isDeeper : loops.depth ≤ depth)
    (areOperands : ∀ pair ∈ pairs, loops.Operand loops.isValue pair.2)
    (isCourse : loops.isCourse course) :
    Run.FitsTo
      (fun walk => Definition.substituteBindings (operandsWithin steps depth walk) body pairs)
      course
      fun result after =>
        loops.TailForm loops.BindsAnew scope [] levels result ∧ loops.isCourse after := by
  induction pairs generalizing body pending course with
  | nil => exact .of_pure ⟨List.subset_nil.mp covers ▸ isTail, isCourse⟩
  | cons pair rest inductionHypothesis =>
    obtain ⟨inScope, restInScope⟩ := List.forall_mem_cons.mp inScope
    obtain ⟨isOperand, restAreOperands⟩ := List.forall_mem_cons.mp areOperands
    refine (isOperand.fitsTo_value isCourse isDeeper).bind (grows_value steps depth pair.2)
      fun value middle ⟨isValue, isCourse⟩ => ?_
    refine (Run.FitsTo.of_within body.callHeight (body.substitute pair.1 value)).bind
      (Run.grows_within _ _) fun substituted after ⟨isSubstituted, isHere⟩ => ?_
    subst isSubstituted isHere
    exact inductionHypothesis (isTail.substitute areFree inScope isValue covers) restInScope
      (List.Subset.refl _) restAreOperands isCourse

end Substitution

/-! ## Calls -/

section Calls

variable {most : Nat} (filed : loops.CallInTailPosition loops.BindsAnew most)

/-- The body of a function with arguments in place is a tail form. -/
theorem fitsTo_instantiate {function : Function}
    (areFree : ∀ param ∈ function.params, loops.Free param)
    (isBody : loops.TailForm loops.BindsAnew function.params function.params most function.body)
    {arguments : List Expr} (areValues : ∀ argument ∈ arguments, loops.isValue argument) :
    Run.FitsTo (fun walk => instantiate walk function arguments) course
      fun body after =>
        loops.TailForm loops.BindsAnew function.params [] most body ∧ after = course := by
  unfold instantiate
  by_cases asMany : arguments.length = function.params.length
  · simp only [if_pos asMany]
    have areParams : (function.params.zip arguments).map Prod.fst = function.params :=
      List.map_fst_zip (Nat.le_of_eq asMany.symm)
    exact isBody.fitsTo_substituteParams areFree (fun pair isIn => (List.of_mem_zip isIn).1)
      (by simp [areParams]) fun pair isIn => areValues pair.2 (List.of_mem_zip isIn).2
  · simp only [if_neg asMany]
    exact .of_throw (by simp)

include filed

/-- A call of the family fits if the bodies do that its functions have. -/
theorem fits_call {name : String} (isName : loops.isName name) (isCourse : loops.isCourse course)
    {es : List Expr} (areOperands : ∀ e ∈ es, loops.Operand loops.isValue e)
    (isDeeper : loops.depth ≤ depth) (isLine isTail : Bool) {settled : Nat → Expr → Run Expr}
    (goesOn : ∀ scope body after, (∀ name ∈ scope, loops.Free name) →
      loops.TailForm loops.BindsAnew scope [] most body → loops.isCourse after →
      Run.Fits
        (fun walk =>
          if isTail then settled walk body
          else settle (nested (fun _ => walk) steps depth false true) steps body)
        after) :
    Run.Fits
      (fun walk =>
        nested (fun _ => walk) steps (depth + 1) isLine isTail (.call (.atom name :: es)) >>=
          Step.finish (settled walk))
      course := by
  obtain ⟨notBuiltin, function, isFiled, areFree, isBody⟩ := filed course isCourse name isName
  have same (walk : Nat) :
      (nested (fun _ => walk) steps (depth + 1) isLine isTail (.call (.atom name :: es)) >>=
          Step.finish (settled walk)).exec course =
        (es.mapM (operandsWithin steps depth walk).value >>= fun arguments =>
          instantiate walk function arguments >>= fun body =>
            if isTail then settled walk body
            else settle (nested (fun _ => walk) steps depth false true) steps body).exec
          course := by
    rw [nested_succ, Run.exec_bind_congr course (exec_activate_function notBuiltin isFiled)]
    simp only [bind_assoc, giveBody_finish]
    rfl
  -- so it fits if the arguments do, then their substitution, then what is made of the body
  rw [Run.Fits.congr same]
  have arguments : Run.FitsTo (fun walk => es.mapM (operandsWithin steps depth walk).value) course
      fun values after => (∀ value ∈ values, loops.isValue value) ∧ loops.isCourse after :=
    .mapM (grows_value steps depth)
      (fun e isIn _ isCourse => (areOperands e isIn).fitsTo_value isCourse isDeeper) isCourse
  refine arguments.bind_fits ?_ fun arguments after ⟨areValues, isCourse⟩ => ?_
  · exact fun less more isLess => .mapM (fun e => grows_value steps depth e less more isLess) es
  · refine (fitsTo_instantiate areFree isBody areValues).bind_fits (grows_instantiate _ _)
      fun body later ⟨isBody, isHere⟩ => ?_
    subst isHere
    exact goesOn function.params body _ areFree isBody isCourse

variable {base bodies : Nat}
  (settles : ∀ scope body after, (∀ name ∈ scope, loops.Free name) →
    loops.TailForm loops.BindsAnew scope [] most body → loops.isCourse after →
    Run.Fits (fun walk => settle (nested (fun _ => walk) steps base false true) bodies body) after)
include settles

/-- A tail form fits if the bodies do that it hands over. -/
theorem TailForm.fits (baseFits : loops.depth ≤ base) {scope : List String} {levels : Nat}
    {e : Expr} (isTail : loops.TailForm loops.BindsAnew scope [] levels e)
    (areFree : ∀ name ∈ scope, loops.Free name) (isCourse : loops.isCourse course)
    (isDeeper : levels + loops.depth + 1 ≤ depth) :
    Run.Fits
      (fun walk => nested (fun _ => walk) steps depth false true e >>=
        Step.finish (settle (nested (fun _ => walk) steps base false true) bodies))
      course := by
  -- what is bound is put into the body, so the induction is not on the form but on its levels
  induction levels using Nat.strongRecOn generalizing scope e course depth with
  | ind levels inductionHypothesis =>
  cases isTail with
  | exit isExit =>
    have each := isExit.self course isCourse
    exact fits_of_takesUp (fun line form middle taken => each line form middle taken base baseFits)
      .start (each _ _ _ .start depth (by omega)) steps bodies
  | @choose _ _ levels _ _ _ isCondition isConsequent isAlternative =>
    obtain ⟨depth, rfl⟩ : ∃ less, depth = less + 1 := ⟨depth - 1, by omega⟩
    have isChoice : Builtin.ofName? "if" = some .ifThenElse := by decide
    simp only [nested_succ, activate_branch isChoice rfl, bind_assoc]
    refine (isCondition.self.fitsTo_choose isCourse (by omega) _ _).bind_fits
      (grows_builtinValue steps depth .ifThenElse _) fun branch after isChosen => ?_
    obtain ⟨isBranch, isCourse⟩ := isChosen
    have isDeepEnough : levels + loops.depth + 1 ≤ depth := by omega
    have goesOn {branch : Expr} (isTail : loops.TailForm loops.BindsAnew scope [] levels branch) :=
      inductionHypothesis levels (Nat.lt_succ_self levels) isTail areFree isCourse isDeepEnough
    rcases isBranch with rfl | rfl
    · exact goesOn isConsequent
    · exact goesOn isAlternative
  | @bind _ _ levels written body _ pairs isWritten isRead areBindings areNames isBody =>
    obtain ⟨depth, rfl⟩ : ∃ less, depth = less + 1 := ⟨depth - 1, by omega⟩
    have isBinding : Builtin.ofName? "let" = some .bind := by decide
    have areFreeToo : ∀ name ∈ pairs.map Prod.fst ++ scope, loops.Free name := by
      intro name isIn
      rcases List.mem_append.mp isIn with isNew | isOld
      · exact (areNames name isNew).2
      · exact areFree name isOld
    have isBound : Run.FitsTo
        (fun walk => Builtin.bind.value (operandsWithin steps depth walk) [written, body]) course
        fun branch after =>
          loops.TailForm loops.BindsAnew (pairs.map Prod.fst ++ scope) [] levels branch ∧
            loops.isCourse after := by
      obtain ⟨_, _, isWrittenToo, isReadToo, areOperands⟩ := areBindings.self
      cases isWritten.symm.trans isWrittenToo
      cases isRead.symm.trans isReadToo
      simp only [Builtin.value, Builtin.bindLocally, Definition.bindings, isWritten, isRead,
        pure_bind]
      exact isBody.fitsTo_substituteBindings areFreeToo
        (fun pair isIn => List.mem_append_left _ (List.mem_map_of_mem isIn)) (by simp)
        (by omega) areOperands isCourse
    simp only [nested_succ, activate_branch isBinding rfl, bind_assoc]
    refine isBound.bind_fits (grows_builtinValue steps depth .bind _)
      fun branch after isSubstituted => ?_
    obtain ⟨isTail, isCourse⟩ := isSubstituted
    exact inductionHypothesis levels (Nat.lt_succ_self levels) isTail areFreeToo isCourse (by omega)
  | call isName areOperands =>
    obtain ⟨depth, rfl⟩ : ∃ less, depth = less + 1 := ⟨depth - 1, by omega⟩
    exact fits_call filed isName isCourse (fun e isIn => (areOperands e isIn).self) (by omega) false
      true settles

omit settles in
/-- The bodies of the family fit, however many are taken up. -/
theorem fits_settle (isDeeper : most + loops.depth + 1 ≤ base) (bodies : Nat) :
    ∀ scope body after, (∀ name ∈ scope, loops.Free name) →
      loops.TailForm loops.BindsAnew scope [] most body → loops.isCourse after →
      Run.Fits (fun walk => settle (nested (fun _ => walk) steps base false true) bodies body)
        after := by
  induction bodies with
  | zero => exact fun _ _ _ _ _ _ => .of_throw (by simp)
  | succ bodies inductionHypothesis =>
    intro scope body after areFree isTail isCourse
    exact isTail.fits filed inductionHypothesis (by omega) areFree isCourse isDeeper

end Calls

/-- Tail calls use no depth. An evaluation whose depth is bounded, apart from its room for walks,
comes to the ends of evaluation, and it stays within a depth if each of its steps does, from one
body that is handed over to the next or to the value, however many steps it takes. In particular,
where the functions of a family call each other in tail position only, through choices and local
bindings that bind free names anew, every call of them stays within the depth that their bodies
have in levels and that what else they evaluate needs, however many calls follow from it; and so it
does in operand position, one level deeper. -/
theorem tail_calls_use_no_depth :
    (∀ isLine e course ending,
      Run.Ends
          (fun bounds : Nat × Limits => nestedRun bounds.1 bounds.2.steps bounds.2.depth isLine e)
          course ending ↔
        Run.Ends (fun limits => run limits isLine e) course ending) ∧
    (∀ depth isLine e course,
      (∀ line form middle, TakesUp isLine e course line form middle →
        StepFits depth line true form middle) →
      RunFits depth isLine e course) ∧
    ∀ (loops : Loops) (levels : Nat), loops.CallInTailPosition loops.BindsAnew levels →
      ∀ course, loops.isCourse course → ∀ name es, loops.isName name →
        (∀ e ∈ es, loops.Operand loops.isValue e) →
        ∀ isLine, ∀ depth ≥ levels + loops.depth + 1,
          RunFits depth isLine (.call (.atom name :: es)) course ∧
          StepFits (depth + 1) isLine false (.call (.atom name :: es)) course := by
  refine ⟨fun _ _ _ _ => ends_nestedRun_iff, ?_, ?_⟩
  · intro depth isLine e course each steps
    exact fits_of_takesUp each .start (each _ _ _ .start) steps steps
  · intro loops levels filed course isCourse name es isName areOperands isLine depth isDeeper
    constructor
    · intro steps
      obtain ⟨less, rfl⟩ : ∃ less, depth = less + 1 := ⟨depth - 1, by omega⟩
      exact fits_call filed isName isCourse areOperands (by omega) isLine true
        (fits_settle filed isDeeper steps)
    · intro steps
      have fits : Run.Fits
          (fun walk =>
            nested (fun _ => walk) steps (depth + 1) isLine false (.call (.atom name :: es)) >>=
              Step.finish pure)
          course :=
        fits_call filed isName isCourse areOperands (by omega) isLine false
          (fits_settle filed isDeeper steps)
      exact fits.of_bind

/-! ## A countdown -/

/-- The body of `(defun loop (n) (let ((m (- n 1))) (if (= m 0) end (loop m))))`. -/
def countdownBody : Expr :=
  .call [.atom "let", .call [.call [.atom "m", .call [.atom "-", .atom "n", .atom "1"]]],
    .call [.atom "if", .call [.atom "=", .atom "m", .atom "0"], .atom "end",
      .call [.atom "loop", .atom "m"]]]

/-- The course of a new session that has defined the countdown. -/
def countdownCourse : Course :=
  ⟨⟨⟨.empty, .empty,
    Table.empty.insert "loop" (hygienicFunction "loop" ["n"] countdownBody 0), 0, 1⟩,
    .ofFiles .empty⟩, []⟩

/-- The countdown of numerals. -/
def countdown : Loops where
  isName name := name = "loop"
  isValue value := ∃ text x, value = .atom text ∧ Numeral.read text = .ok x
  isCourse course := course = countdownCourse
  depth := 2

omit [OperatingSystem] in
/-- A numeral stays one if it is replaced by numerals. -/
theorem countdown_closed : ∀ value name other, countdown.isValue value → countdown.isValue other →
    countdown.isValue (value.substitute name other) :=
  isValue_substitute fun _ ⟨text, _, isText, _⟩ => ⟨text, isText⟩

/-- A numeral is an operand of the countdown. -/
theorem countdown_numeral {value : Expr} (isValue : countdown.isValue value) :
    countdown.Operand countdown.isValue value := by
  obtain ⟨text, x, rfl, isRead⟩ := isValue
  refine .of_exec _ (fun course isCourse => ?_) ⟨text, x, rfl, isRead⟩
  subst isCourse
  exact exec_evaluate_standsForItself (Session.standsForItself_of_isRead rfl isRead)

/-- A numeral less one is an operand of the countdown. -/
theorem countdown_difference {value : Expr} (isValue : countdown.isValue value) :
    countdown.Operand countdown.isValue (.call [.atom "-", value, .atom "1"]) := by
  obtain ⟨text, x, rfl, isRead⟩ := isValue
  have isOne : Numeral.read "1" = .ok 1 := by decide
  have isSubtraction : Builtin.ofName? "-" = some .subtract := by decide
  refine .of_exec _ (fun course isCourse => ?_)
    ⟨formatNumber (x - 1), x - 1, rfl, read_formatNumber (x - 1)⟩
  subst isCourse
  exact exec_evaluate_builtin isSubtraction rfl (Builtin.exec_subtract (Nat.succ_pos 0)
    (comes_standsForItself (Session.standsForItself_of_isRead rfl isRead)) isRead
    (comes_standsForItself (Session.standsForItself_of_isRead rfl isOne)) isOne)

/-- Whether a numeral is zero is a condition of the countdown. -/
theorem countdown_condition {value : Expr} (isValue : countdown.isValue value) :
    countdown.Operand (fun _ => True) (.call [.atom "=", value, .atom "0"]) := by
  obtain ⟨text, x, rfl, isRead⟩ := isValue
  have isZero : Numeral.read "0" = .ok 0 := by decide
  have isEqual : Builtin.ofName? "=" = some .equal := by decide
  refine .of_exec (.ofBool ((Expr.atom text).equals (.atom "0"))) (fun course isCourse => ?_)
    trivial
  subst isCourse
  exact exec_evaluate_builtin isEqual rfl (Builtin.exec_equal
    (comes_standsForItself (Session.standsForItself_of_isRead rfl isRead))
    (comes_standsForItself (Session.standsForItself_of_isRead rfl isZero)) (Nat.le_refl 1))

/-- The countdown calls itself in tail position. -/
theorem countdown_callInTailPosition :
    countdown.CallInTailPosition countdown.BindsAnew 2 := by
  intro course isCourse name isName
  subst isCourse isName
  let renamed : Expr :=
    .call [.atom "let", .call [.call [.atom "m", .call [.atom "-", .atom "#n#0#", .atom "1"]]],
      .call [.atom "if", .call [.atom "=", .atom "m", .atom "0"], .atom "end",
        .call [.atom "loop", .atom "m"]]]
  have isFunction : hygienicFunction "loop" ["n"] countdownBody 0 =
      ⟨"loop", ["#n#0#"], renamed⟩ := rfl
  have isFree (name : String) (notIf : name ≠ "if") (notLet : name ≠ "let")
      (notLoop : name ≠ "loop") : countdown.Free name :=
    ⟨notIf, notLet, notLoop⟩
  refine ⟨by decide, ⟨"loop", ["#n#0#"], renamed⟩, rfl, ?_, ?_⟩
  · intro param isParam
    obtain rfl : param = "#n#0#" := by simpa using isParam
    exact isFree _ (by decide) (by decide) (by decide)
  · refine .bind rfl rfl ?_ ?_ (.choose ?_ (.exit ?_) (.call rfl ?_))
    · exact .of_binding (by decide) (.of_operation countdown_closed (by decide) (by decide)
        (by simp) fun _ => countdown_difference)
    · intro name isName
      obtain rfl : name = "m" := by simpa using isName
      exact ⟨by decide, isFree _ (by decide) (by decide) (by decide)⟩
    · exact .of_operation countdown_closed (by decide) (by decide) (by simp) fun _ =>
        countdown_condition
    · refine .of_kept (by decide) (exit_of_standsForItself (by decide) fun course isCourse => ?_)
      subst isCourse
      exact Session.standsForItself_atom rfl (by decide)
    · intro e isOperand
      obtain rfl : e = .atom "m" := by simpa using isOperand
      exact .of_replaced countdown_closed (by simp) fun _ => countdown_numeral

end

/-- After the definition of the countdown, `(loop 3000)` stays within five activations at once,
however many bodies it takes up, and within six as an operand. -/
theorem countdown_uses_no_depth :
    Run.Ends
      (fun limits => run limits true
        (functionDefinition "loop" (.call [.atom "n"]) countdownBody))
      ⟨⟨.fresh, .ofFiles .empty⟩, []⟩
      (.ok (.atom "defined loop"), countdownCourse) ∧
    countdown.CallInTailPosition countdown.BindsAnew 2 ∧
    RunFits 5 true (.call [.atom "loop", .atom "3000"]) countdownCourse ∧
    StepFits 6 false false (.call [.atom "loop", .atom "3000"]) countdownCourse := by
  have isRead : Numeral.read "3000" = .ok 3000 := by decide
  have areOperands (e : Expr) (isIn : e ∈ [Expr.atom "3000"]) :
      countdown.Operand countdown.isValue e := by
    obtain rfl : e = .atom "3000" := by simpa using isIn
    exact countdown_numeral ⟨"3000", 3000, rfl, isRead⟩
  have fits (isLine : Bool) := tail_calls_use_no_depth.2.2 countdown 2
    countdown_callInTailPosition countdownCourse rfl "loop" [.atom "3000"] rfl
    areOperands isLine 5 (Nat.le_refl 5)
  exact ⟨⟨⟨9, 9⟩, rfl, trivial⟩, countdown_callInTailPosition, (fits true).1, (fits false).2⟩

/-! ## Names bound again -/

/-- The choice in the body of the function that binds a name again, under the name of its head. -/
def choiceNamed (head : String) : Expr :=
  .call [.atom head, .atom "go", .call [.atom "loop"], .atom "end"]

/-- The inner binding in its body, under the name that it binds. -/
def bindingNamed (name : String) : Expr :=
  .call [.atom "let", .call [.call [.atom name, .atom "list"]], choiceNamed "if"]

/-- The body of `(defun loop () (let ((y if)) (let ((y list)) (if go (loop) end))))`. -/
def rebindingBody : Expr :=
  .call [.atom "let", .call [.call [.atom "y", .atom "if"]], bindingNamed "y"]

/-- The course of a new session that has defined the function that binds a name again. -/
def rebindingCourse : Course :=
  ⟨⟨⟨.empty, .empty,
    Table.empty.insert "loop" (hygienicFunction "loop" [] rebindingBody 0), 0, 0⟩,
    .ofFiles .empty⟩, []⟩

/-- The family of the function that binds a name again. -/
def rebinding : Loops where
  isName name := name = "loop"
  isValue value := value = .atom "if" ∨ value = .atom "list"
  isCourse course := course = rebindingCourse
  depth := 1

section

variable [OperatingSystem]

/-- The atoms in the function that binds a name again stand for themselves. -/
theorem rebinding_operand {isResult : Expr → Prop} {text : String} (notStatus : text ≠ "$?")
    (isGood : isResult (.atom text)) : rebinding.Operand isResult (.atom text) := by
  refine .of_exec _ (fun course isCourse => ?_) isGood
  subst isCourse
  exact exec_evaluate_standsForItself (Session.standsForItself_atom rfl notStatus)

/-- The inner binding binds a name, whatever is put in place of the name that it is written with. -/
theorem rebinding_binding {scope pending : List String} (isKept : "list" ∉ scope)
    (isPending : "y" ∈ pending) :
    rebinding.Always scope pending rebinding.Bindings
      (.call [.call [.atom "y", .atom "list"]]) := by
  intro pairs areGood covers
  have isName : rebinding.isValue ((Expr.atom "y").substituteInTurn pairs) := by
    refine Expr.isValue_substituteInTurn_atom (isValue_substitute fun value isValue => ?_)
      (fun pair isIn => (areGood pair isIn).2) (covers isPending)
    rcases isValue with rfl | rfl
    · exact ⟨_, rfl⟩
    · exact ⟨_, rfl⟩
  have isList : (Expr.atom "list").substituteInTurn pairs = .atom "list" :=
    Expr.substituteInTurn_atom (not_mem_of_not_mem_scope areGood isKept)
  have isOperand : rebinding.Operand rebinding.isValue (.atom "list") :=
    rebinding_operand (by decide) (.inr rfl)
  rw [Expr.substituteInTurn_call, List.map_cons, List.map_nil, Expr.substituteInTurn_call,
    List.map_cons, List.map_cons, List.map_nil, isList]
  rcases isName with isName | isName
  · rw [isName]
    exact ⟨_, [("if", .atom "list")], rfl, rfl, by simpa using isOperand⟩
  · rw [isName]
    exact ⟨_, [("list", .atom "list")], rfl, rfl, by simpa using isOperand⟩

/-- But for the name that is bound again, the function calls itself in tail position. -/
theorem rebinding_callInTailPosition : rebinding.CallInTailPosition (fun _ _ => True) 3 := by
  intro course isCourse name isName
  subst isCourse isName
  refine ⟨by decide, ⟨"loop", [], rebindingBody⟩, rfl, by simp, ?_⟩
  refine .bind rfl rfl ?_ (fun _ _ => trivial) (.bind rfl rfl ?_ (fun _ _ => trivial)
    (.choose ?_ (.call rfl (by simp)) (.exit ?_)))
  · exact .of_binding (by decide)
      (.of_kept (by decide) (rebinding_operand (by decide) (.inl rfl)))
  · exact rebinding_binding (by decide) (by simp)
  · exact .of_kept (by decide) (rebinding_operand (by decide) trivial)
  · refine .of_kept (by decide) (exit_of_standsForItself (by decide) fun course isCourse => ?_)
    subst isCourse
    exact Session.standsForItself_atom rfl (by decide)

variable {walk steps depth : Nat}

/-- An atom comes to itself with any activation left. -/
theorem comes_atom {text : String} (notStatus : text ≠ "$?") :
    (operandsWithin steps (depth + 1) walk).Comes rebindingCourse (.atom text) (.atom text) := by
  have ended : (nested (fun _ => walk) steps (depth + 1) false false (.atom text)).exec
      rebindingCourse = (.ok (.value (.atom text)), rebindingCourse) :=
    exec_activate_standsForItself (Session.standsForItself_atom rfl notStatus)
  rw [Operands.Comes, operandsWithin, Run.exec_map, ended]
  rfl

/-- A local binding of an atom is followed by its body with the atom in place. -/
theorem exec_nested_bind {name text : String} (notStatus : text ≠ "$?") {body : Expr}
    (fits : body.callHeight ≤ walk) :
    (nested (fun _ => walk) steps (depth + 2) false true
        (.call [.atom "let", .call [.call [.atom name, .atom text]], body])).exec rebindingCourse =
      (nested (fun _ => walk) steps (depth + 1) false true
        (body.substitute name (.atom text))).exec rebindingCourse := by
  have isBinding : Builtin.ofName? "let" = some .bind := by decide
  rw [nested_succ, activate_branch isBinding rfl]
  have isBound : (Builtin.bind.value (operandsWithin steps (depth + 1) walk)
      [.call [.call [.atom name, .atom text]], body]).exec rebindingCourse =
        (.ok (body.substitute name (.atom text)), rebindingCourse) := by
    have isRead : Definition.readBindings [.call [.atom name, .atom text]] =
        .ok [(name, .atom text)] := rfl
    simp only [Builtin.value, Builtin.bindLocally, Definition.bindings, Expr.items?, isRead,
      pure_bind, Definition.substituteBindings]
    rw [Run.exec_bind_ok _ (comes_atom notStatus), Operands.substitute, Operands.within,
      if_pos (show body.callHeight ≤ (operandsWithin steps (depth + 1) walk).room from fits)]
    rfl
  exact Run.exec_bind_ok _ isBound

/-- Where the body of the function is cut off, so is its call as an operand. -/
theorem exec_nested_loop
    (isCut : ((nested (fun _ => walk) (steps + 1) depth false true rebindingBody).exec
      rebindingCourse) = (.error (.fault .evaluationTooDeep), rebindingCourse)) :
    ((operandsWithin (steps + 1) (depth + 1) walk).value (.call [.atom "loop"])).exec
      rebindingCourse = (.error (.fault .evaluationTooDeep), rebindingCourse) := by
  have notBuiltin : Builtin.ofName? "loop" = none := by decide
  have isFiled : rebindingCourse.shell.session.functions.find? "loop" =
      some ⟨"loop", [], rebindingBody⟩ := rfl
  have settles : (settle (nested (fun _ => walk) (steps + 1) depth false true) (steps + 1)
      rebindingBody).exec rebindingCourse =
        (.error (.fault .evaluationTooDeep), rebindingCourse) :=
    Run.exec_bind_error _ isCut
  have ended : (nested (fun _ => walk) (steps + 1) (depth + 1) false false
      (.call [.atom "loop"])).exec rebindingCourse =
        (.error (.fault .evaluationTooDeep), rebindingCourse) := by
    have inPlace : instantiate walk ⟨"loop", [], rebindingBody⟩ [] = pure rebindingBody := rfl
    rw [nested_succ, exec_activate_function notBuiltin isFiled, List.mapM_nil, pure_bind]
    change (instantiate walk ⟨"loop", [], rebindingBody⟩ [] >>= giveBody _ false).exec _ = _
    rw [inPlace, pure_bind, giveBody, Run.exec_map, settles]
    rfl
  rw [operandsWithin, Run.exec_map, ended]
  rfl

/-- The body of the function is cut off at every depth. -/
theorem exec_nested_rebindingBody (hasRoom : 4 ≤ walk) :
    (nested (fun _ => walk) (steps + 1) depth false true rebindingBody).exec rebindingCourse =
      (.error (.fault .evaluationTooDeep), rebindingCourse) := by
  have isList : Builtin.ofName? "list" = some .list := by decide
  -- with a name bound again, the choice has become a list, and the call is one of its operands
  have outer : (bindingNamed "y").substitute "y" (.atom "if") = bindingNamed "if" := rfl
  have inner : (choiceNamed "if").substitute "if" (.atom "list") = choiceNamed "list" := rfl
  have outerFits : (bindingNamed "y").callHeight ≤ walk := hasRoom
  have innerFits : (choiceNamed "if").callHeight ≤ walk := (Nat.le_succ 3).trans hasRoom
  induction depth using Nat.strongRecOn with
  | ind depth inductionHypothesis =>
  match depth with
  | 0 => rfl
  | 1 => rfl
  | 2 =>
    rw [rebindingBody, exec_nested_bind (by decide) outerFits, outer]
    rfl
  | 3 =>
    rw [rebindingBody, exec_nested_bind (by decide) outerFits, outer, bindingNamed,
      exec_nested_bind (by decide) innerFits, inner]
    rfl
  | depth + 4 =>
    have isCut := exec_nested_loop (inductionHypothesis depth (by omega))
    have isGo : (operandsWithin (steps + 1) (depth + 1) walk).Comes rebindingCourse (.atom "go")
        (.atom "go") :=
      comes_atom (by decide)
    have areCut : (Builtin.list.value (operandsWithin (steps + 1) (depth + 1) walk)
        [.atom "go", .call [.atom "loop"], .atom "end"]).exec rebindingCourse =
          (.error (.fault .evaluationTooDeep), rebindingCourse) := by
      rw [Builtin.value, Sequence.list, List.mapM_cons, bind_assoc, Run.exec_bind_ok _ isGo,
        List.mapM_cons, bind_assoc, bind_assoc, Run.exec_bind_error _ isCut]
    rw [rebindingBody, exec_nested_bind (by decide) outerFits, outer, bindingNamed,
      exec_nested_bind (by decide) innerFits, inner, choiceNamed, nested_succ,
      activate_builtin isList rfl, Run.exec_map, areCut]
    rfl

/-- The call of the function is cut off at every depth. -/
theorem exec_nestedRun_rebinding (hasRoom : 4 ≤ walk) :
    ((nestedRun walk 1 depth true (.call [.atom "loop"])).exec rebindingCourse).1 =
      .error (.fault .evaluationTooDeep) := by
  cases depth with
  | zero => rfl
  | succ depth =>
    have notBuiltin : Builtin.ofName? "loop" = none := by decide
    have isFiled : rebindingCourse.shell.session.functions.find? "loop" =
        some ⟨"loop", [], rebindingBody⟩ := rfl
    have handed : (nested (fun _ => walk) 1 (depth + 1) true true (.call [.atom "loop"])).exec
        rebindingCourse = (.ok (.tail rebindingBody), rebindingCourse) := by
      rw [nested_succ, exec_activate_function notBuiltin isFiled]
      rfl
    have isCut : (settle (nested (fun _ => walk) 1 (depth + 1) false true) 1 rebindingBody).exec
        rebindingCourse = (.error (.fault .evaluationTooDeep), rebindingCourse) :=
      Run.exec_bind_error _ (exec_nested_rebindingBody hasRoom)
    rw [nestedRun, Run.exec_bind_ok _ handed]
    exact congrArg Prod.fst isCut

end

/-- A name that is bound again may undo a tail position: the name of the inner binding gives way to
the value of the outer one, here to `if`, and what is bound to that takes the place of the choice.
So no depth is enough for the call of such a function. -/
theorem rebinding_uses_depth :
    ¬ ∀ (loops : Loops) (levels : Nat), loops.CallInTailPosition (fun _ _ => True) levels →
      ∀ course, loops.isCourse course → ∀ name es, loops.isName name →
        (∀ e ∈ es, loops.Operand loops.isValue e) →
        ∃ depth, RunFits depth true (.call (.atom name :: es)) course := by
  intro bounded
  obtain ⟨depth, fits⟩ := bounded rebinding 3 rebinding_callInTailPosition rebindingCourse rfl
    "loop" [] rfl (by simp)
  obtain ⟨enough, notCut⟩ := fits 1
  exact notCut (max enough 4) (Nat.le_max_left _ _)
    (exec_nestedRun_rebinding (Nat.le_max_right _ _))

end Loops

end LispShell
