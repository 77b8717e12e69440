import LispShell.Proofs.Evaluation.Bindings
import LispShell.Proofs.Evaluation.Operands

/-! # Definitions under a discipline
The builtins that give names a meaning do the same with more room and keep a discipline. The
definition of a function is followed step by step, since its parameters get their fresh names one by
one. -/

namespace LispShell

namespace Definition

/-- A body with each parameter replaced by its fresh name, the first of which gets the given
number. -/
def withFreshNames (number : Nat) (body : Expr) : List String → Expr
  | [] => body
  | param :: rest =>
    withFreshNames (number + 1)
      (body.substitute param (.atom (Session.freshName param number))) rest

/-- A session in which so many more fresh names have been made. -/
def countNames (s : Session) (count : Nat) : Session :=
  { s with freshNames := s.freshNames + count }

/-- Renaming makes one fresh name after the other. It stops early only for want of room, and then
has made fresh names but changed nothing else. -/
theorem exec_renameParams (operands : Operands) (body : Expr) (params : List String)
    (course : Course) :
    (∃ count, (renameParams operands body params).exec course =
      (.error (.fault .evaluationTooDeep),
        ⟨⟨countNames course.shell.session count, course.shell.world⟩, course.effects⟩)) ∨
    (renameParams operands body params).exec course =
      (.ok (Session.freshNamesFrom course.shell.session.freshNames params,
          withFreshNames course.shell.session.freshNames body params),
        ⟨⟨countNames course.shell.session params.length, course.shell.world⟩,
          course.effects⟩) := by
  induction params generalizing body course with
  | nil => exact .inr rfl
  | cons param rest inductionHypothesis =>
    let named : Course :=
      ⟨⟨countNames course.shell.session 1, course.shell.world⟩, course.effects⟩
    have fresh : (freshName param).exec course =
        (.ok (Session.freshName param course.shell.session.freshNames), named) := rfl
    rw [renameParams, Run.exec_bind_ok course fresh]
    by_cases enough : body.callHeight ≤ operands.room
    · rw [Operands.substitute, Operands.within, if_pos enough, pure_bind]
      have counted (count : Nat) :
          countNames named.shell.session count = countNames course.shell.session (count + 1) := by
        simp only [named, countNames, Nat.add_assoc, Nat.add_comm 1]
      rcases inductionHypothesis (body.substitute param (.atom _)) named with
        ⟨count, stopped⟩ | renamed
      · exact .inl ⟨count + 1, by rw [Run.exec_bind_error named stopped, counted]⟩
      · rw [Run.exec_bind_ok named renamed, counted]
        exact .inr rfl
    · rw [Operands.substitute, Operands.within, if_neg enough]
      exact .inl ⟨1, rfl⟩

end Definition

namespace Discipline

variable [OperatingSystem] {d : Discipline}

/-- The syntax in the bindings that forms write consists of forms. -/
theorem form_of_binds {items : List Expr} {pairs : List (String × Expr)}
    (binds : Definition.Binds items pairs) (forms : ∀ item ∈ items, d.form item) :
    ∀ pair ∈ pairs, d.form pair.2 := by
  induction binds with
  | nil => exact List.forall_mem_nil _
  | inRow name value _ inductionHypothesis =>
    obtain ⟨-, isValue, areRest⟩ := by simpa using forms
    exact List.forall_mem_cons.mpr ⟨isValue, inductionHypothesis areRest⟩
  | asCall name value _ inductionHypothesis
  | asList name value _ inductionHypothesis =>
    obtain ⟨isPair, areRest⟩ := List.forall_mem_cons.mp forms
    have isValue : d.form value := form_of_items isPair rfl (by simp)
    exact List.forall_mem_cons.mpr ⟨isValue, inductionHypothesis areRest⟩

/-- A form stays one when its parameters are renamed. -/
theorem form_withFreshNames {body : Expr} (isForm : d.form body) (number : Nat)
    (params : List String) : d.form (Definition.withFreshNames number body params) := by
  induction params generalizing body number with
  | nil => exact isForm
  | cons param rest inductionHypothesis =>
    exact inductionHypothesis (form_substitute param isForm (d.value_atom _)) (number + 1)

/-- Making a fresh name. -/
theorem keeps_freshName (param : String) :
    d.Keeps (fun _ => True) (Definition.freshName param) := by
  refine keeps_session.bind fun session _ => ?_
  refine (keeps_changeSession fun s isKept => d.session_freshNames 1 isKept).bind fun _ _ => ?_
  exact keeps_pure trivial

variable {operands refined : Operands} (ops : d.RefinesOperands operands refined)
include ops

/-- The symbol that an operand is; it is not empty. -/
theorem refines_symbol (builtin : Builtin) (e : Expr) :
    d.Refines (· ≠ "") (Definition.symbol operands builtin e)
      (Definition.symbol refined builtin e) := by
  cases e with
  | atom text =>
    by_cases isEmpty : text = ""
    · subst isEmpty
      exact keeps_fail _
    · simp only [Definition.symbol, beq_iff_eq, isEmpty, if_false]
      exact keeps_pure isEmpty
  | call items => exact (refines_render ops.room_le _).bind fun shown _ => keeps_fail _
  | list items => exact (refines_render ops.room_le _).bind fun shown _ => keeps_fail _

/-- Renaming the parameters of a body. -/
theorem refines_renameParams {body : Expr} (isForm : d.form body) (params : List String) :
    d.Refines (fun _ => True) (Definition.renameParams operands body params)
      (Definition.renameParams refined body params) := by
  induction params generalizing body with
  | nil => exact keeps_pure trivial
  | cons param rest inductionHypothesis =>
    refine (keeps_freshName param).bind fun name _ => ?_
    refine (refines_substitute ops.room_le param isForm (d.value_atom name)).bind
      fun renamed isRenamed => ?_
    exact (inductionHypothesis isRenamed).bind fun _ _ => keeps_pure trivial

/-- Filing a function whose parameters are renamed. -/
theorem refines_fileFunction {name : String} (isName : name ≠ "") {body : Expr}
    (isForm : d.form body) (params : List String) :
    d.Refines d.value
      (Definition.renameParams operands body params >>= fun (names, renamed) => do
        Run.changeSession fun session =>
          { session with functions := session.functions.insert name ⟨name, names, renamed⟩ }
        return Definition.defined name)
      (Definition.renameParams refined body params >>= fun (names, renamed) => do
        Run.changeSession fun session =>
          { session with functions := session.functions.insert name ⟨name, names, renamed⟩ }
        return Definition.defined name) := by
  intro course holds
  obtain ⟨kept, -, same⟩ := refines_renameParams ops isForm params course holds
  rcases Definition.exec_renameParams operands body params course with
    ⟨count, stopped⟩ | renamed
  · rw [stopped] at kept
    rw [Run.exec_bind_error course stopped]
    refine ⟨kept, ?_, fun conclusive => absurd conclusive (by simp [Conclusive, Halt.isBound])⟩
    rintro _ ⟨⟩
  · rw [renamed] at same
    rw [Run.exec_bind_ok course renamed, Run.exec_bind_ok course (same trivial)]
    refine ⟨⟨?_, holds.2⟩, ?_, fun _ => rfl⟩
    · exact d.session_defineFunction holds.1 isName (form_withFreshNames isForm _ params)
    · rintro _ ⟨⟩
      exact d.value_atom _

section Several

variable {es : List Expr} (forms : ∀ e ∈ es, d.form e)
include forms

/-- Definition of a name. -/
theorem refines_define :
    d.Refines d.value (Definition.define operands es) (Definition.define refined es) := by
  match es, forms with
  | [target, value], forms =>
    refine (refines_symbol ops .define target).bind fun name isName => ?_
    have isForm := forms value (by simp)
    refine (keeps_changeSession fun s isKept => d.session_define isKept isName isForm).bind
      fun _ _ => ?_
    exact keeps_pure (d.value_atom _)
  | [], _ => exact keeps_fail _
  | [_], _ => exact keeps_fail _
  | _ :: _ :: _ :: _, _ => exact keeps_fail _

/-- Definition of a function. -/
theorem refines_defineFunction :
    d.Refines d.value (Definition.defineFunction operands es)
      (Definition.defineFunction refined es) := by
  match es, forms with
  | [target, params, body], forms =>
    refine (refines_symbol ops .defineFunction target).bind fun name isName => ?_
    have gathers : d.Refines (fun _ => True)
        (Operands.within operands.room params.height params.atoms)
        (Operands.within refined.room params.height params.atoms) :=
      refines_within ops.room_le params.height trivial
    refine gathers.bind fun atoms _ => ?_
    exact refines_fileFunction ops isName (forms body (by simp)) atoms
  | [], _ => exact keeps_fail _
  | [_], _ => exact keeps_fail _
  | [_, _], _ => exact keeps_fail _
  | _ :: _ :: _ :: _ :: _, _ => exact keeps_fail _

end Several

/-- The texts that an operand contributes to an alias. -/
theorem refines_replacementTexts (e : Expr) :
    d.Refines (fun _ => True) (Definition.replacementTexts operands e)
      (Definition.replacementTexts refined e) := by
  cases e with
  | atom text => exact keeps_pure trivial
  | call items =>
    exact (refines_mapM fun item _ => refines_render ops.room_le item).weaken fun _ _ => trivial
  | list items =>
    exact (refines_mapM fun item _ => refines_render ops.room_le item).weaken fun _ _ => trivial

/-- Definition of an alias. -/
theorem refines_defineAlias (es : List Expr) :
    d.Refines d.value (Definition.defineAlias operands es)
      (Definition.defineAlias refined es) := by
  match es with
  | target :: replacement :: more =>
    refine (refines_symbol ops .defineAlias target).bind fun name isName => ?_
    refine (refines_mapM fun e _ => refines_replacementTexts ops e).bind fun texts _ => ?_
    refine (keeps_changeSession fun s isKept =>
      d.session_defineAlias texts.flatten isKept isName).bind fun _ _ => ?_
    exact keeps_pure (d.value_atom _)
  | [] => exact keeps_fail _
  | [_] => exact keeps_fail _

/-! ## Local bindings -/

/-- The bindings that an operand lists. -/
theorem refines_bindings {e : Expr} (isForm : d.form e) :
    d.Refines (fun pairs => ∀ pair ∈ pairs, d.form pair.2) (Definition.bindings operands e)
      (Definition.bindings refined e) := by
  unfold Definition.bindings
  cases hasItems : e.items? with
  | none => exact (refines_render ops.room_le e).bind fun shown _ => keeps_fail _
  | some items =>
    dsimp only
    cases isRead : Definition.readBindings items with
    | error item => exact (refines_render ops.room_le item).bind fun shown _ => keeps_fail _
    | ok pairs =>
      exact keeps_pure (form_of_binds (Definition.readBindings_eq_ok_iff.mp isRead)
        fun _ isIn => form_of_items isForm hasItems isIn)

/-- Substitution of the values of bindings. -/
theorem refines_substituteBindings {body : Expr} (isForm : d.form body)
    {pairs : List (String × Expr)} (forms : ∀ pair ∈ pairs, d.form pair.2) :
    d.Refines d.form (Definition.substituteBindings operands body pairs)
      (Definition.substituteBindings refined body pairs) := by
  induction pairs generalizing body with
  | nil => exact keeps_pure isForm
  | cons pair rest inductionHypothesis =>
    obtain ⟨name, e⟩ := pair
    refine (ops.value (forms (name, e) (by simp))).bind fun value isValue => ?_
    refine (refines_substitute ops.room_le name isForm isValue).bind
      fun substituted isSubstituted => ?_
    exact inductionHypothesis isSubstituted fun pair isIn => forms pair (by simp [isIn])

end Discipline

end LispShell
