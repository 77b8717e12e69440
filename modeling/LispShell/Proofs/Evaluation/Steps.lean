import LispShell.Proofs.Evaluation.Arguments
import Mathlib.Data.List.Forall2

/-! # Steps of an evaluation
What one activation makes of each kind of expression, and what a builtin makes of operands that come
to known values without doing anything. With these a program can be followed step by step: a call in
operand position is followed to the value of its body, and one in tail position to the body. -/

namespace LispShell

namespace Operands

variable {operands : Operands} {course : Course} {e : Expr}

/-- Whether an operand comes to a value without doing anything. -/
def Comes (operands : Operands) (course : Course) (e value : Expr) : Prop :=
  (operands.value e).exec course = (.ok value, course)

/-- The text of an operand that comes to an atom. -/
theorem Comes.exec_text {text : String} (comes : operands.Comes course e (.atom text))
    (hasRoom : 0 < operands.room) : (operands.text e).exec course = (.ok text, course) := by
  rw [Operands.text, Run.exec_bind_ok course comes, flatten, within,
    if_pos (show (Expr.atom text).height ≤ operands.room from hasRoom)]
  rfl

/-- The number of an operand that comes to a numeral. -/
theorem Comes.exec_numeric {text : String} {x : Float}
    (comes : operands.Comes course e (.atom text)) (hasRoom : 0 < operands.room)
    (isRead : Numeral.read text = .ok x) : (operands.numeric e).exec course = (.ok x, course) := by
  rw [Operands.numeric, Run.exec_bind_ok course comes, number, flatten, within,
    if_pos (show (Expr.atom text).height ≤ operands.room from hasRoom)]
  simp only [pure_bind, Expr.flatten, isRead]
  rfl

end Operands

namespace Builtin

variable {operands : Operands} {course : Course} {first second a b : Expr}

section Values

variable {between after : Course}

/-- Two operands that come to values are compared, with room for the flatter of them. -/
theorem exec_equal (isFirst : (operands.value first).exec course = (.ok a, between))
    (isSecond : (operands.value second).exec between = (.ok b, after))
    (hasRoom : min a.height b.height ≤ operands.room) :
    (value operands .equal [first, second]).exec course =
      (.ok (.ofBool (a.equals b)), after) := by
  rw [value, Logic.equal, Run.exec_bind_ok course isFirst, Run.exec_bind_ok between isSecond,
    Operands.within, if_pos hasRoom]
  rfl

/-- An operation on sequences is applied to the value of its operand, with room to report on it. -/
theorem exec_unary (builtin : Builtin) {operation : Expr → Except Fault Expr}
    (comes : (operands.value first).exec course = (.ok a, after))
    (hasRoom : Sequence.reportedLevels a ≤ operands.room) :
    (Sequence.unary operands builtin operation [first]).exec course =
      ((operation a).mapError Halt.fault, after) := by
  rw [Sequence.unary, Run.exec_bind_ok course comes, Operands.within, if_pos hasRoom, pure_bind]
  cases operation a with
  | ok result => rfl
  | error cause => rfl

/-- The value of one operand is put before that of the next. -/
theorem exec_cons (isFirst : (operands.value first).exec course = (.ok a, between))
    (isSecond : (operands.value second).exec between = (.ok b, after)) :
    (Sequence.cons operands [first, second]).exec course =
      ((Sequence.cons? a b).mapError Halt.fault, after) := by
  rw [Sequence.cons, Run.exec_bind_ok course isFirst, Run.exec_bind_ok between isSecond]
  cases Sequence.cons? a b with
  | ok result => rfl
  | error cause => rfl

end Values

variable {text other : String} {x y : Float}

/-- The difference of two numerals. -/
theorem exec_subtract (hasRoom : 0 < operands.room)
    (isFirst : operands.Comes course first (.atom text)) (isRead : Numeral.read text = .ok x)
    (isSecond : operands.Comes course second (.atom other))
    (isReadToo : Numeral.read other = .ok y) :
    (value operands .subtract [first, second]).exec course =
      (.ok (Arithmetic.ofFloat (x - y)), course) := by
  rw [value, Arithmetic.binary, Run.exec_bind_ok course (isFirst.exec_numeric hasRoom isRead),
    Run.exec_bind_ok course (isSecond.exec_numeric hasRoom isReadToo)]
  rfl

/-- The sum of two numerals. -/
theorem exec_add (hasRoom : 0 < operands.room)
    (isFirst : operands.Comes course first (.atom text)) (isRead : Numeral.read text = .ok x)
    (isSecond : operands.Comes course second (.atom other))
    (isReadToo : Numeral.read other = .ok y) :
    (value operands .add [first, second]).exec course =
      (.ok (Arithmetic.ofFloat (0 + x + y)), course) := by
  rw [value, Arithmetic.fold, Run.exec_bind_ok course (isFirst.exec_numeric hasRoom isRead),
    Arithmetic.fold, Run.exec_bind_ok course (isSecond.exec_numeric hasRoom isReadToo)]
  rfl

/-- A choice takes the consequent just if the condition comes to the text of truth. -/
theorem exec_choose {condition consequent alternative : Expr} {truth : Bool}
    (comes : operands.Comes course condition (.ofBool truth)) (hasRoom : 0 < operands.room) :
    (value operands .ifThenElse [condition, consequent, alternative]).exec course =
      (.ok (if truth then consequent else alternative), course) := by
  rw [value, choose, Operands.isTrue, bind_assoc,
    Run.exec_bind_ok course (comes.exec_text hasRoom), pure_bind]
  cases truth
  · rfl
  · rfl

end Builtin

namespace Session

variable {s : Session} (isUndefined : s.definitions = .empty) {text : String}
include isUndefined

/-- Where no names are defined, every atom but the one for the status stands for itself. -/
theorem standsForItself_atom (notStatus : text ≠ "$?") : s.standsForItself (.atom text) := by
  simp [standsForItself, notStatus, Table.contains, isUndefined]

/-- Where no names are defined, a numeral stands for itself. -/
theorem standsForItself_of_isRead {x : Float} (isRead : Numeral.read text = .ok x) :
    s.standsForItself (.atom text) := by
  refine standsForItself_atom isUndefined ?_
  rintro rfl
  have notRead : Numeral.read "$?" = .error .notANumber := by decide
  rw [notRead] at isRead
  cases isRead

end Session

namespace Evaluation

variable [OperatingSystem]

/-! ## Activations -/

section Activations

variable {α : Type} {operands : Operands} {ending : Ending α} {isLine : Bool} {course : Course}
  {name : String} {es : List Expr}

/-- A builtin that ends in no branch is applied. -/
theorem activate_builtin {builtin : Builtin} (isBuiltin : Builtin.ofName? name = some builtin)
    (noBranch : builtin.endsInBranch = false) :
    activate operands ending isLine (.call (.atom name :: es)) =
      ending.value <$> builtin.value operands es := by
  rw [activate, headName, pure_bind]
  simp only [isBuiltin, Builtin.apply, bind_assoc, noBranch, Bool.false_eq_true, if_false,
    pure_bind, map_eq_pure_bind]

/-- Where a builtin ends in no branch, its direct evaluation applies it. -/
theorem direct_builtin {builtin : Builtin} (isBuiltin : Builtin.ofName? name = some builtin)
    (noBranch : builtin.endsInBranch = false) (depth : Nat) :
    direct (depth + 1) isLine (.call (.atom name :: es)) =
      builtin.value ⟨depth, direct depth false⟩ es := by
  rw [direct, activate_builtin isBuiltin noBranch]
  exact id_map _

/-- A call of a builtin that ends in no branch comes to what the builtin comes to with room
enough. -/
theorem ends_run_builtin_iff {builtin : Builtin} (isBuiltin : Builtin.ofName? name = some builtin)
    (noBranch : builtin.endsInBranch = false) {outcome : Except Halt Expr × Course}
    (conclusive : Conclusive outcome.1) :
    Run.Ends (fun limits => run limits isLine (.call (.atom name :: es))) course outcome ↔
      ∃ depth, (builtin.value ⟨depth, direct depth false⟩ es).exec course = outcome := by
  rw [ends_run_iff_ends_direct]
  constructor
  · rintro ⟨_ | depth, ended, -⟩
    · subst ended
      cases conclusive
    · simp only [direct_builtin isBuiltin noBranch] at ended
      exact ⟨depth, ended⟩
  · rintro ⟨depth, applied⟩
    refine ⟨depth + 1, ?_, conclusive⟩
    simp only [direct_builtin isBuiltin noBranch, applied]

/-- A call of a builtin that ends in no branch comes to its outcome where there is room. -/
theorem ends_run_builtin {builtin : Builtin} (isBuiltin : Builtin.ofName? name = some builtin)
    (noBranch : builtin.endsInBranch = false) {depth : Nat} {outcome : Except Halt Expr × Course}
    (applied : (builtin.value ⟨depth, direct depth false⟩ es).exec course = outcome)
    (conclusive : Conclusive outcome.1) :
    Run.Ends (fun limits => run limits isLine (.call (.atom name :: es))) course outcome :=
  (ends_run_builtin_iff isBuiltin noBranch conclusive).mpr ⟨depth, applied⟩

/-- A builtin that ends in a branch is followed by the branch. -/
theorem activate_branch {builtin : Builtin} (isBuiltin : Builtin.ofName? name = some builtin)
    (isBranch : builtin.endsInBranch = true) :
    activate operands ending isLine (.call (.atom name :: es)) =
      builtin.value operands es >>= ending.branch := by
  rw [activate, headName, pure_bind]
  simp only [isBuiltin, Builtin.apply, bind_assoc, isBranch, if_true, pure_bind]

/-- A call of a function comes to its body with the arguments in place. -/
theorem exec_activate_function {function : Function} (notBuiltin : Builtin.ofName? name = none)
    (isFiled : course.shell.session.functions.find? name = some function) :
    (activate operands ending isLine (.call (.atom name :: es))).exec course =
      (es.mapM operands.value >>= fun arguments =>
        instantiate operands.room function arguments >>= ending.body).exec course := by
  rw [activate, headName, pure_bind]
  simp only [notBuiltin]
  rw [Run.exec_bind_ok course (Run.exec_session course), isFiled]

end Activations

/-! ## Evaluations -/

/-- How the operands of an evaluation are evaluated, with the room that is left for them. -/
def operandsAt (steps room : Nat) : Operands where
  room := room
  value operand := Step.result <$> evaluate steps room false false operand

variable {steps room : Nat} {isLine isTail : Bool} {course : Course} {name : String}
  {es arguments : List Expr} {body value : Expr} {function : Function}

/-- An evaluation is an activation whose branches are evaluated in the room for operands. -/
theorem evaluate_succ (e : Expr) :
    evaluate steps (room + 1) isLine isTail e =
      activate (operandsAt steps room)
        { value := .value
          branch := evaluate steps room false isTail
          body := giveBody (settle (evaluate steps room false true) steps) isTail }
        isLine e :=
  rfl

/-- An operand comes to the value of its evaluation. -/
theorem comes_of_exec_evaluate {e : Expr}
    (ended : (evaluate steps room false false e).exec course = (.ok (.value value), course)) :
    (operandsAt steps room).Comes course e value := by
  rw [Operands.Comes, operandsAt, Run.exec_map, ended]
  rfl

/-- A value that stands for itself is its own value. -/
theorem exec_evaluate_standsForItself (stands : course.shell.session.standsForItself value) :
    (evaluate steps (room + 1) isLine isTail value).exec course = (.ok (.value value), course) :=
  exec_activate_standsForItself stands

/-- A value that stands for itself comes to itself. -/
theorem comes_standsForItself (stands : course.shell.session.standsForItself value) :
    (operandsAt steps (room + 1)).Comes course value value :=
  comes_of_exec_evaluate (exec_evaluate_standsForItself stands)

/-- A builtin that ends in no branch is applied. -/
theorem exec_evaluate_builtin {builtin : Builtin} {outcome : Except Halt Expr}
    (isBuiltin : Builtin.ofName? name = some builtin) (noBranch : builtin.endsInBranch = false)
    (applied : (builtin.value (operandsAt steps room) es).exec course = (outcome, course)) :
    (evaluate steps (room + 1) isLine isTail (.call (.atom name :: es))).exec course =
      (outcome.map .value, course) := by
  rw [evaluate_succ, activate_builtin isBuiltin noBranch, Run.exec_map, applied]

/-- A builtin that ends in no branch comes to its value. -/
theorem comes_builtin {builtin : Builtin} (isBuiltin : Builtin.ofName? name = some builtin)
    (noBranch : builtin.endsInBranch = false)
    (applied : (builtin.value (operandsAt steps room) es).exec course = (.ok value, course)) :
    (operandsAt steps (room + 1)).Comes course (.call (.atom name :: es)) value :=
  comes_of_exec_evaluate (exec_evaluate_builtin isBuiltin noBranch applied)

/-- A choice goes on with the branch that its condition takes. -/
theorem exec_evaluate_choose {condition consequent alternative : Expr} {truth : Bool}
    (comes : (operandsAt steps room).Comes course condition (.ofBool truth)) (hasRoom : 0 < room) :
    (evaluate steps (room + 1) isLine isTail
        (.call [.atom "if", condition, consequent, alternative])).exec course =
      (evaluate steps room false isTail (if truth then consequent else alternative)).exec
        course := by
  have isChoice : Builtin.ofName? "if" = some .ifThenElse := by decide
  rw [evaluate_succ, activate_branch isChoice rfl]
  exact Run.exec_bind_ok course (Builtin.exec_choose comes hasRoom)

omit [OperatingSystem] in
/-- Operands that come to values come to them in a row. -/
theorem exec_mapM_comes {operands : Operands} {es values : List Expr}
    (come : List.Forall₂ (operands.Comes course) es values) :
    (es.mapM operands.value).exec course = (.ok values, course) := by
  induction come with
  | nil => rfl
  | cons comes _ inductionHypothesis =>
    rw [List.mapM_cons, Run.exec_bind_ok course comes, Run.exec_bind_ok course inductionHypothesis]
    rfl

/-- The call of a function gives the body with the arguments in place. -/
theorem exec_evaluate_function (notBuiltin : Builtin.ofName? name = none)
    (isFiled : course.shell.session.functions.find? name = some function)
    (come : List.Forall₂ ((operandsAt steps room).Comes course) es arguments)
    (inPlace : instantiate room function arguments = pure body) :
    (evaluate steps (room + 1) isLine isTail (.call (.atom name :: es))).exec course =
      (giveBody (settle (evaluate steps room false true) steps) isTail body).exec course := by
  rw [evaluate_succ, exec_activate_function notBuiltin isFiled,
    Run.exec_bind_ok course (exec_mapM_comes come)]
  exact Run.exec_bind_ok course (congrArg (Run.exec · course) inPlace)

/-! ## Settling -/

section Settling

variable {step : Expr → Run (Step true)} {e : Expr} {steps : Nat} {outcome : Except Halt Expr}

omit [OperatingSystem] in
/-- Settling ends where a step does not hand a body back. -/
theorem exec_settle_of_value (ended : (step e).exec course = (outcome.map .value, course))
    (hasStep : 0 < steps) : (settle step steps e).exec course = (outcome, course) := by
  obtain ⟨steps, rfl⟩ := Nat.exists_eq_add_of_lt hasStep
  rw [Nat.zero_add, settle]
  cases outcome with
  | ok value => exact Run.exec_bind_ok course ended
  | error halt => exact Run.exec_bind_error course ended

omit [OperatingSystem] in
/-- Settling goes on with the body that a step hands back. -/
theorem exec_settle_of_tail (ended : (step e).exec course = (.ok (.tail body), course)) :
    (settle step (steps + 1) e).exec course = (settle step steps body).exec course := by
  rw [settle]
  exact Run.exec_bind_ok course ended

/-- What hands a body back is settled with all the limits. -/
theorem exec_run_of_tail {limits : Limits}
    (ended : (evaluate limits.steps limits.depth isLine true e).exec course =
      (.ok (.tail body), course)) :
    (run limits isLine e).exec course =
      (settle (evaluate limits.steps limits.depth false true) limits.steps body).exec course :=
  Run.exec_bind_ok course ended

end Settling

end Evaluation

end LispShell
