import LispShell.Proofs.Evaluation.Trampoline
import LispShell.Proofs.Session.Commands
import LispShell.Script.Run

/-! # Arguments
A value that is bound or passed is put into the body as syntax, and goes through evaluation again
with the body. So to bind a value to a name and give the name back, or to pass it through the
identity, is to evaluate it a second time, and passes it on as it is only where it stands for
itself. -/

namespace LispShell

/-- Whether a value comes to itself when it is evaluated: a list, or an atom that is neither a
definition nor the status of the last command. -/
def Session.standsForItself (s : Session) : Expr → Bool
  | .atom text => text != "$?" && !s.definitions.contains text
  | .call _ => false
  | .list _ => true

namespace Evaluation

/-- The expression that binds a name to an expression in a body: `(let ((name e)) body)`. -/
def localBinding (name : String) (e body : Expr) : Expr :=
  .call [.atom "let", .call [.call [.atom name, e]], body]

/-- The expression that binds a name to an expression and gives the name back:
`(let ((name e)) name)`. -/
def letIdentity (name : String) (e : Expr) : Expr :=
  .call [.atom "let", .call [.call [.atom name, e]], .atom name]

/-- The definition of the identity: `(defun id (param) param)`. -/
def defineIdentity (param : String) : Expr :=
  .call [.atom "defun", .atom "id", .call [.atom param], .atom param]

/-- The call of the identity: `(id e)`. -/
def callIdentity (e : Expr) : Expr :=
  .call [.atom "id", e]

/-- The identity as it is filed. -/
def identity (param : String) (number : Nat) : Function :=
  ⟨"id", [Session.freshName param number], .atom (Session.freshName param number)⟩

section

variable [OperatingSystem]

/-! ## Direct evaluation of the identity -/

omit [OperatingSystem] in
/-- With room to substitute, an atom is replaced by the value that is put in its place. -/
theorem substitute_self (room : Nat) (name : String) (value : Expr) :
    Operands.substitute (room + 1) (.atom name) name value = pure value := by
  have fits : (Expr.atom name).callHeight ≤ room + 1 := by simp [Expr.callHeight]
  rw [Operands.substitute, Operands.within, if_pos fits]
  simp [Expr.substitute]

/-- A local binding evaluates the expression, and then the body with the value in place of the
name. -/
theorem direct_localBinding (depth : Nat) (isLine : Bool) (name : String) (e body : Expr) :
    direct (depth + 1) isLine (localBinding name e body) =
      direct depth false e >>= fun value =>
        Operands.substitute depth body name value >>= direct depth false := by
  have isBind : Builtin.ofName? "let" = some .bind := by decide
  have isRead : Definition.readBindings [.call [.atom name, e]] = .ok [(name, e)] := by
    simp [Definition.readBindings, Definition.pair?, Except.map]
  simp only [direct, localBinding, activate, headName, pure_bind, isBind, Builtin.apply,
    Builtin.value, Builtin.bindLocally, Definition.bindings, Expr.items?, isRead,
    Definition.substituteBindings, bind_pure, Builtin.endsInBranch, if_true, bind_assoc]

/-- A local binding whose body is its name evaluates twice: the expression, then its value. -/
theorem direct_letIdentity (depth : Nat) (isLine : Bool) (name : String) (e : Expr) :
    direct (depth + 2) isLine (letIdentity name e) =
      direct (depth + 1) false e >>= direct (depth + 1) false := by
  have isBinding : letIdentity name e = localBinding name e (.atom name) := rfl
  rw [isBinding, direct_localBinding]
  simp only [substitute_self, pure_bind]

/-- A call of the identity evaluates twice: the argument, then its value. -/
theorem exec_direct_callIdentity (depth : Nat) (isLine : Bool) (e : Expr) {course : Course}
    {param : String} {number : Nat}
    (isIdentity : course.shell.session.functions.find? "id" = some (identity param number)) :
    (direct (depth + 2) isLine (callIdentity e)).exec course =
      (direct (depth + 1) false e >>= direct (depth + 1) false).exec course := by
  have notBuiltin : Builtin.ofName? "id" = none := by decide
  have instantiated (value : Expr) :
      instantiate (depth + 1) (identity param number) [value] = pure value := by
    simp [instantiate, identity, substituteParams, substitute_self]
  rw [direct, callIdentity, activate, headName, pure_bind]
  simp only [notBuiltin]
  rw [Run.exec_bind_ok course (Run.exec_session course), isIdentity]
  simp only [List.mapM_cons, List.mapM_nil, bind_assoc, pure_bind, instantiated]

/-- The definition of the identity files it. -/
theorem exec_direct_defineIdentity (depth : Nat) (isLine : Bool) (param : String)
    (course : Course) :
    (direct (depth + 3) isLine (defineIdentity param)).exec course =
      (.ok (Definition.defined "id"),
        { course with
          shell.session :=
            { course.shell.session with
              functions := course.shell.session.functions.insert "id"
                (identity param course.shell.session.freshNames)
              freshNames := course.shell.session.freshNames + 1 } }) := by
  have isDefinition : Builtin.ofName? "defun" = some .defineFunction := by decide
  have fits : (Expr.call [.atom param]).height ≤ depth + 2 := by
    simp [Expr.height, Expr.heightOfAll]
  have isSymbol (operands : Operands) :
      Definition.symbol operands .defineFunction (.atom "id") = pure "id" := by
    simp [Definition.symbol]
  simp only [direct, defineIdentity, activate, headName, pure_bind, isDefinition, Builtin.apply,
    Builtin.value, Definition.defineFunction, isSymbol, Operands.within, if_pos fits, Expr.atoms,
    Expr.atomsOfAll, List.append_nil, Definition.renameParams, substitute_self, bind_assoc]
  rfl

/-- A value that stands for itself is its own value. -/
theorem exec_activate_standsForItself {α : Type} {operands : Operands} {ending : Ending α}
    {isLine : Bool} {value : Expr} {course : Course}
    (stands : course.shell.session.standsForItself value) :
    (activate operands ending isLine value).exec course = (.ok (ending.value value), course) := by
  cases value with
  | call items => cases stands
  | list items => rfl
  | atom text =>
    simp only [Session.standsForItself, Table.contains, Bool.and_eq_true, bne_iff_ne, ne_eq,
      Bool.not_eq_true', Option.isSome_eq_false_iff, Option.isNone_iff_eq_none] at stands
    obtain ⟨notStatus, notDefined⟩ := stands
    have isAtom : (valueOfAtom operands text).exec course = (.ok (.atom text), course) := by
      rw [valueOfAtom, Run.exec_bind_ok course (Run.exec_session course)]
      simp [notStatus, notDefined]
    rw [activate, Run.exec_map, isAtom]
    rfl

/-- A value that stands for itself comes to itself, and nothing happens. -/
theorem exec_direct_standsForItself (depth : Nat) {value : Expr} {course : Course}
    (stands : course.shell.session.standsForItself value) :
    (direct (depth + 1) false value).exec course = (.ok value, course) :=
  exec_activate_standsForItself stands

/-! ## Ends -/

variable {isLine : Bool} {e whole : Expr} {next : Expr → Expr} {course : Course}
  {ending : Except Halt Expr × Course}

/-- To evaluate an expression and then what is made of its value comes to the same ends in both
evaluators. -/
theorem ends_run_in_turn_iff_ends_direct_in_turn :
    Run.Ends (fun limits => run limits false e >>= fun value => run limits false (next value))
        course ending ↔
      Run.Ends (fun depth => direct depth false e >>= fun value => direct depth false (next value))
        course ending := by
  constructor
  · refine Run.Ends.below fun limits => ?_
    obtain ⟨depth, isBelow⟩ := runIn_below_direct limits
    exact ⟨depth, (isBelow false true e).bind fun value => isBelow false true (next value)⟩
  · refine Run.Ends.below fun depth => ?_
    have isBelow := direct_below_runIn depth false true
    exact ⟨⟨depth, depth⟩, (isBelow e).bind fun value => isBelow (next value)⟩

/-- What evaluates an expression and then what is made of its value, with room for it, comes to the
ends of doing so. -/
theorem ends_run_iff_ends_in_turn (least : Nat)
    (isInTurn : ∀ depth, (direct (depth + (least + 1)) isLine whole).exec course =
      (direct (depth + least) false e >>= fun value =>
        direct (depth + least) false (next value)).exec course) :
    Run.Ends (fun limits => run limits isLine whole) course ending ↔
      Run.Ends (fun limits => run limits false e >>= fun value => run limits false (next value))
        course ending := by
  have grows {less more : Nat} (fits : less ≤ more) :
      Run.Below (direct less isLine whole) (direct more isLine whole) :=
    direct_below fits isLine whole
  have growsInTurn {less more : Nat} (fits : less ≤ more) :
      Run.Below (direct less false e >>= fun value => direct less false (next value))
        (direct more false e >>= fun value => direct more false (next value)) :=
    (direct_below fits false e).bind fun value => direct_below fits false (next value)
  rw [ends_run_in_turn_iff_ends_direct_in_turn]
  refine ends_run_iff_ends_direct.trans ?_
  rw [← Run.Ends.from_iff grows (least + 1), ← Run.Ends.from_iff growsInTurn least]
  exact Run.Ends.congr isInTurn

/-- Where an expression comes to a value, to evaluate the expression and then what is made of its
value comes to the ends of evaluating that from there. -/
theorem ends_in_turn_iff {value : Expr} {after : Course}
    (ends : Run.Ends (fun limits => run limits false e) course (.ok value, after)) :
    Run.Ends (fun limits => run limits false e >>= fun value => run limits false (next value))
        course ending ↔
      Run.Ends (fun limits => run limits false (next value)) after ending := by
  rw [ends_run_in_turn_iff_ends_direct_in_turn]
  refine Iff.trans ?_ ends_run_iff_ends_direct.symm
  refine Run.Ends.bind_iff (fun fits => direct_below fits false e) ?_
    (ends_run_iff_ends_direct.mp ends)
  exact fun fits => direct_below fits false (next value)

/-- Whether to evaluate a whole is to evaluate an expression in it and then the value of that. -/
structure EvaluatesTwice (isLine : Bool) (whole e : Expr) (course : Course) : Prop where
  /-- The whole comes to the ends of the two evaluations in turn. -/
  twice (ending : Except Halt Expr × Course) :
    Run.Ends (fun limits => run limits isLine whole) course ending ↔
      Run.Ends (fun limits => run limits false e >>= run limits false) course ending
  /-- Once the expression has come to a value, the whole comes to the ends of that. -/
  again {value : Expr} {after : Course} :
    Run.Ends (fun limits => run limits false e) course (.ok value, after) →
      ∀ ending, Run.Ends (fun limits => run limits isLine whole) course ending ↔
        Run.Ends (fun limits => run limits false value) after ending
  /-- A value that stands for itself is what the whole comes to, and nothing else happens. -/
  asItIs {value : Expr} {after : Course} :
    Run.Ends (fun limits => run limits false e) course (.ok value, after) →
      after.shell.session.standsForItself value →
        Run.Ends (fun limits => run limits isLine whole) course (.ok value, after)

/-- What evaluates an expression and then its value, with room for it, evaluates twice. -/
theorem EvaluatesTwice.of_direct
    (isTwice : ∀ depth, (direct (depth + 2) isLine whole).exec course =
      (direct (depth + 1) false e >>= direct (depth + 1) false).exec course) :
    EvaluatesTwice isLine whole e course where
  twice _ := ends_run_iff_ends_in_turn 1 isTwice
  again ends _ := (ends_run_iff_ends_in_turn 1 isTwice).trans (ends_in_turn_iff ends)
  asItIs ends stands := by
    refine ((ends_run_iff_ends_in_turn 1 isTwice).trans (ends_in_turn_iff ends)).mpr ?_
    exact ends_run_iff_ends_direct.mpr
      ⟨1, exec_direct_standsForItself 0 stands, trivial⟩

/-- Arguments are evaluated, put into the body and evaluated again with it. To bind an expression to
a name and give the name back, or to pass it through the identity once that is defined, is to
evaluate the expression and then its value, in the state in which it came about. So the value is
passed on as it is, with exactly the effects of the expression, just where it comes to itself there,
as lists do and atoms that are neither definitions nor the status of the last command. -/
theorem arguments_are_evaluated_again (name : String) (e : Expr) (isLine : Bool) (course : Course) :
    EvaluatesTwice isLine (letIdentity name e) e course ∧
    (∃ after number,
      Run.Ends (fun limits => run limits isLine (defineIdentity name)) course
        (.ok (Definition.defined "id"), after) ∧
      after.shell.session.functions.find? "id" = some (identity name number)) ∧
    (∀ number, course.shell.session.functions.find? "id" = some (identity name number) →
      EvaluatesTwice isLine (callIdentity e) e course) := by
  refine ⟨.of_direct fun depth => by rw [direct_letIdentity], ?_,
    fun number isIdentity => .of_direct fun depth =>
      exec_direct_callIdentity depth isLine e isIdentity⟩
  have filed := exec_direct_defineIdentity 0 isLine name course
  refine ⟨_, course.shell.session.freshNames,
    ends_run_iff_ends_direct.mpr ⟨3, filed, trivial⟩, ?_⟩
  rw [Table.find?_insert, if_pos rfl]

end

/-- Values are not always passed on as they are: an atom with a definition is taken for its name
when it is evaluated again. -/
theorem argument_value_is_looked_up_again :
    ¬ ∀ (course : Course) (e value : Expr) (after : Course),
      course.shell.session.Reachable →
      Run.Ends (fun limits => run limits false e) course (.ok value, after) →
      Run.Ends (fun limits => run limits false (letIdentity "x" e)) course (.ok value, after) := by
  intro byValue
  let nowhere : World := .ofFiles .empty
  let limits : Limits := ⟨9, 9⟩
  let defined : Course :=
    ((Session.evalLine limits "(def foo bar)").exec ⟨⟨.fresh, nowhere⟩, []⟩).2
  let e : Expr := .call [.atom "first", .list [.atom "foo"]]
  have isFoo : Run.Ends (fun limits => run limits false e) defined (.ok (.atom "foo"), defined) :=
    ⟨limits, rfl, trivial⟩
  have isBar : Run.Ends (fun limits => run limits false (letIdentity "x" e)) defined
      (.ok (.atom "bar"), defined) :=
    ⟨limits, rfl, trivial⟩
  have same := ends_run_unique isBar (byValue defined e _ defined (.line _ _ .fresh) isFoo)
  exact absurd same (by simp)

end Evaluation

end LispShell
