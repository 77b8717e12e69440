import LispShell.Proofs.Evaluation.Depth

/-! # Tail positions
A tail form gets to its calls through choices and local bindings only. What it evaluates on the way,
in operand position, is put together from the values of names in scope, so it is looked at with all
the values that these may have. Putting values in place of names in scope leaves a tail form one, as
long as no name in scope is bound again and none stands where a choice, a local binding or a
function of the family is named. -/

namespace LispShell

open Evaluation

/-! ## Substitution -/

/-- The head of a call stays if it is not the name that is replaced. -/
theorem Expr.substitute_call_atom {head name : String} (differs : head ≠ name) (es : List Expr)
    (value : Expr) :
    (Expr.call (.atom head :: es)).substitute name value =
      .call (.atom head :: es.map (·.substitute name value)) := by
  simp [Expr.substitute, Expr.substituteAll, Expr.substituteAll_eq_map, differs]

/-- Substitution of names one after the other. -/
def Expr.substituteInTurn (e : Expr) (pairs : List (String × Expr)) : Expr :=
  pairs.foldl (fun substituted pair => substituted.substitute pair.1 pair.2) e

section

variable {pairs : List (String × Expr)}

/-- Names are replaced in every item of a call. -/
theorem Expr.substituteInTurn_call (items : List Expr) :
    (Expr.call items).substituteInTurn pairs = .call (items.map (·.substituteInTurn pairs)) := by
  unfold substituteInTurn
  induction pairs generalizing items with
  | nil => simp
  | cons pair rest inductionHypothesis =>
    rw [List.foldl_cons, Expr.substitute, Expr.substituteAll_eq_map, inductionHypothesis,
      List.map_map]
    rfl

/-- An atom whose text is not replaced stays. -/
theorem Expr.substituteInTurn_atom {text : String} (isKept : text ∉ pairs.map Prod.fst) :
    (Expr.atom text).substituteInTurn pairs = .atom text := by
  unfold substituteInTurn
  induction pairs with
  | nil => rfl
  | cons pair rest inductionHypothesis =>
    simp only [List.map_cons, List.mem_cons, not_or] at isKept
    rw [List.foldl_cons, Expr.substitute, if_neg isKept.1]
    exact inductionHypothesis isKept.2

variable {isValue : Expr → Prop}
  (closed : ∀ value name other,
    isValue value → isValue other → isValue (value.substitute name other))
  (areValues : ∀ pair ∈ pairs, isValue pair.2)
include closed areValues

/-- A value stays one if values are replaced by values. -/
theorem Expr.isValue_substituteInTurn {value : Expr} (isGood : isValue value) :
    isValue (value.substituteInTurn pairs) := by
  unfold substituteInTurn
  induction pairs generalizing value with
  | nil => exact isGood
  | cons pair rest inductionHypothesis =>
    obtain ⟨isFirst, areRest⟩ := List.forall_mem_cons.mp areValues
    exact inductionHypothesis areRest (closed value pair.1 pair.2 isGood isFirst)

/-- An atom whose text is replaced becomes a value. -/
theorem Expr.isValue_substituteInTurn_atom {text : String}
    (isReplaced : text ∈ pairs.map Prod.fst) :
    isValue ((Expr.atom text).substituteInTurn pairs) := by
  induction pairs with
  | nil => cases isReplaced
  | cons pair rest inductionHypothesis =>
    obtain ⟨isFirst, areRest⟩ := List.forall_mem_cons.mp areValues
    change isValue (((Expr.atom text).substitute pair.1 pair.2).substituteInTurn rest)
    rw [Expr.substitute]
    by_cases isHere : text = pair.1
    · rw [if_pos isHere]
      exact isValue_substituteInTurn closed areRest isFirst
    · rw [if_neg isHere]
      exact inductionHypothesis areRest ((List.mem_cons.mp isReplaced).resolve_left isHere)

end

namespace Definition

/-- Bindings with a name replaced that none of them binds are read as bindings of the same names. -/
theorem readBindings_substitute {items : List Expr} {pairs : List (String × Expr)}
    (isRead : readBindings items = .ok pairs) {name : String}
    (unbound : name ∉ pairs.map Prod.fst) (value : Expr) :
    ∃ others, readBindings (items.map (·.substitute name value)) = .ok others ∧
      others.map Prod.fst = pairs.map Prod.fst := by
  simp only [readBindings_eq_ok_iff] at isRead ⊢
  induction isRead with
  | nil => exact ⟨[], .nil, rfl⟩
  | inRow bound e _ inductionHypothesis =>
    simp only [List.map_cons, List.mem_cons, not_or] at unbound
    obtain ⟨others, binds, sameNames⟩ := inductionHypothesis unbound.2
    refine ⟨(bound, e.substitute name value) :: others, ?_, by simp [sameNames]⟩
    simpa [Expr.substitute, Ne.symm unbound.1] using Binds.inRow bound _ binds
  | asCall bound e _ inductionHypothesis =>
    simp only [List.map_cons, List.mem_cons, not_or] at unbound
    obtain ⟨others, binds, sameNames⟩ := inductionHypothesis unbound.2
    refine ⟨(bound, e.substitute name value) :: others, ?_, by simp [sameNames]⟩
    simpa [Expr.substitute, Expr.substituteAll, Ne.symm unbound.1] using Binds.asCall bound _ binds
  | asList bound e _ inductionHypothesis =>
    simp only [List.map_cons, List.mem_cons, not_or] at unbound
    obtain ⟨others, binds, sameNames⟩ := inductionHypothesis unbound.2
    -- what is in a list stays as it is
    refine ⟨(bound, e) :: others, ?_, by simp [sameNames]⟩
    simpa [Expr.substitute] using Binds.asList bound e binds

/-- The same of the bindings that an operand lists. -/
theorem readBindings_items?_substitute {written : Expr} {items : List Expr}
    (isWritten : written.items? = some items) {pairs : List (String × Expr)}
    (isRead : readBindings items = .ok pairs) {name : String}
    (unbound : name ∉ pairs.map Prod.fst) (value : Expr) :
    ∃ substituted others, (written.substitute name value).items? = some substituted ∧
      readBindings substituted = .ok others ∧ others.map Prod.fst = pairs.map Prod.fst := by
  match written, isWritten with
  | .call items, rfl =>
    obtain ⟨others, isReadToo, sameNames⟩ := readBindings_substitute isRead unbound value
    rw [Expr.substitute, Expr.substituteAll_eq_map]
    exact ⟨_, others, rfl, isReadToo, sameNames⟩
  | .list items, rfl => exact ⟨items, pairs, rfl, isRead, rfl⟩

end Definition

/-! ## Families of functions -/

/-- A family of functions, and what occurs in their calls. -/
structure Loops where
  /-- The names of the functions. -/
  isName : String → Prop
  /-- The values of arguments and of local names. -/
  isValue : Expr → Prop
  /-- The courses from which the functions are called. -/
  isCourse : Course → Prop
  /-- The depth that is enough for what is not a call of the family. -/
  depth : Nat

namespace Loops

variable [OperatingSystem] (loops : Loops)

/-- Whether an expression in operand position stays within the depth wherever functions of the
family are called, and comes to values of a kind and to courses from which they can be called. -/
structure Operand (isResult : Expr → Prop) (e : Expr) : Prop where
  /-- Its evaluation stays within the depth. -/
  fits {course : Course} (isCourse : loops.isCourse course) {deeper : Nat}
    (isDeeper : loops.depth ≤ deeper) : StepFits deeper false false e course
  /-- Its value is of the kind, and leaves such a course. -/
  gives {course after : Course} {value : Expr} (isCourse : loops.isCourse course)
    (ends : Run.Ends (fun limits => run limits false e) course (.ok value, after)) :
    isResult value ∧ loops.isCourse after

/-- Whether an expression in tail position stays within the depth up to each body that it hands over
and on from there. -/
def Exit (e : Expr) : Prop :=
  ∀ course, loops.isCourse course → ∀ line form middle, TakesUp false e course line form middle →
    ∀ deeper ≥ loops.depth, StepFits deeper line true form middle

/-- Whether an operand lists bindings whose values the operands of the family have. -/
def Bindings (e : Expr) : Prop :=
  ∃ items pairs, e.items? = some items ∧ Definition.readBindings items = .ok pairs ∧
    ∀ pair ∈ pairs, loops.Operand loops.isValue pair.2

/-- Whether something holds of an expression whatever values are put in place of names in scope, in
whatever order, once there are some for all names that are still to be replaced. -/
def Always (scope pending : List String) (holds : Expr → Prop) (e : Expr) : Prop :=
  ∀ pairs : List (String × Expr), (∀ pair ∈ pairs, pair.1 ∈ scope ∧ loops.isValue pair.2) →
    pending ⊆ pairs.map Prod.fst → holds (e.substituteInTurn pairs)

/-- Whether all calls of the family are in tail position: through choices and local bindings, so
many levels of them at most, whose conditions and values are evaluated in operand position, as the
arguments of the calls are. What may be bound locally in a scope is left open. -/
inductive TailForm (mayBind : List String → String → Prop) :
    (scope pending : List String) → (levels : Nat) → Expr → Prop
  /-- An expression without calls of the family. -/
  | exit {scope pending : List String} {levels : Nat} {e : Expr}
    (isExit : loops.Always scope pending loops.Exit e) : TailForm mayBind scope pending levels e
  /-- A choice between two tail forms. -/
  | choose {scope pending : List String} {levels : Nat} {condition consequent alternative : Expr}
    (isCondition : loops.Always scope pending (loops.Operand fun _ => True) condition)
    (isConsequent : TailForm mayBind scope pending levels consequent)
    (isAlternative : TailForm mayBind scope pending levels alternative) :
    TailForm mayBind scope pending (levels + 1)
      (.call [.atom "if", condition, consequent, alternative])
  /-- A tail form with local names. -/
  | bind {scope pending : List String} {levels : Nat} {written body : Expr} {items : List Expr}
    {pairs : List (String × Expr)} (isWritten : written.items? = some items)
    (isRead : Definition.readBindings items = .ok pairs)
    (areBindings : loops.Always scope pending loops.Bindings written)
    (areNames : ∀ name ∈ pairs.map Prod.fst, mayBind scope name)
    (isBody : TailForm mayBind (pairs.map Prod.fst ++ scope) (pairs.map Prod.fst ++ pending)
      levels body) :
    TailForm mayBind scope pending (levels + 1) (.call [.atom "let", written, body])
  /-- A call of the family. -/
  | call {scope pending : List String} {levels : Nat} {name : String} {es : List Expr}
    (isName : loops.isName name)
    (areOperands : ∀ e ∈ es, loops.Always scope pending (loops.Operand loops.isValue) e) :
    TailForm mayBind scope pending levels (.call (.atom name :: es))

/-- Whether a name stands for no function of the family, nor for what a tail form consists of. -/
def Free (name : String) : Prop :=
  name ≠ "if" ∧ name ≠ "let" ∧ ¬loops.isName name

/-- Whether a free name is bound for the first time. -/
def BindsAnew (scope : List String) (name : String) : Prop :=
  name ∉ scope ∧ loops.Free name

/-- Whether the functions of the family are filed in every course from which they are called, with
free parameters and bodies in which all calls of the family are in tail position. -/
def CallInTailPosition (mayBind : List String → String → Prop) (levels : Nat) : Prop :=
  ∀ course, loops.isCourse course → ∀ name, loops.isName name →
    Builtin.ofName? name = none ∧ ∃ function,
      course.shell.session.functions.find? name = some function ∧
      (∀ param ∈ function.params, loops.Free param) ∧
      loops.TailForm mayBind function.params function.params levels function.body

variable {loops} {scope pending : List String}

section

variable {holds : Expr → Prop} {e : Expr}

omit [OperatingSystem]

/-- What always holds where no name is left to be replaced holds of the expression itself. -/
theorem Always.self (always : loops.Always scope [] holds e) : holds e :=
  always [] (by simp) (List.nil_subset _)

/-- What always holds does so with a first name replaced. -/
theorem Always.substitute (always : loops.Always scope pending holds e) {name : String}
    (inScope : name ∈ scope) {value : Expr} (isValue : loops.isValue value) {rest : List String}
    (isNext : pending ⊆ name :: rest) :
    loops.Always scope rest holds (e.substitute name value) := by
  intro pairs areGood covers
  refine always ((name, value) :: pairs) ?_ fun other isOther => ?_
  · exact List.forall_mem_cons.mpr ⟨⟨inScope, isValue⟩, areGood⟩
  · exact List.cons_subset_cons name covers (isNext isOther)

end

section

variable {holds : Expr → Prop}

omit [OperatingSystem]

/-- A name that is out of scope is not replaced. -/
theorem not_mem_of_not_mem_scope {pairs : List (String × Expr)}
    (areGood : ∀ pair ∈ pairs, pair.1 ∈ scope ∧ loops.isValue pair.2) {text : String}
    (isKept : text ∉ scope) : text ∉ pairs.map Prod.fst := by
  intro isIn
  obtain ⟨pair, isPair, rfl⟩ := List.mem_map.mp isIn
  exact isKept (areGood pair isPair).1

/-- What holds of an atom whose text is out of scope always holds of it. -/
theorem Always.of_kept {text : String} (isKept : text ∉ scope) (isGood : holds (.atom text)) :
    loops.Always scope pending holds (.atom text) := by
  intro pairs areGood _
  rwa [Expr.substituteInTurn_atom (not_mem_of_not_mem_scope areGood isKept)]

/-- Atoms stay values if they are replaced by values. -/
theorem isValue_substitute (areAtoms : ∀ value, loops.isValue value → ∃ text, value = .atom text)
    (value : Expr) (name : String) (other : Expr) (isValue : loops.isValue value)
    (isOther : loops.isValue other) : loops.isValue (value.substitute name other) := by
  obtain ⟨text, rfl⟩ := areAtoms value isValue
  rw [Expr.substitute]
  split
  · exact isOther
  · exact isValue

variable (closed : ∀ value name other, loops.isValue value → loops.isValue other →
    loops.isValue (value.substitute name other))
include closed

/-- What holds of all values always holds of a name that is to be replaced. -/
theorem Always.of_replaced {text : String} (isPending : text ∈ pending)
    (areGood : ∀ value, loops.isValue value → holds value) :
    loops.Always scope pending holds (.atom text) := by
  intro pairs isGood covers
  exact areGood _ (Expr.isValue_substituteInTurn_atom closed (fun pair isIn => (isGood pair isIn).2)
    (covers isPending))

/-- What holds of an operation on all values always holds of it on a name that is to be replaced. -/
theorem Always.of_operation {operation text other : String} (isKept : operation ∉ scope)
    (isKeptToo : other ∉ scope) (isPending : text ∈ pending)
    (areGood : ∀ value, loops.isValue value →
      holds (.call [.atom operation, value, .atom other])) :
    loops.Always scope pending holds (.call [.atom operation, .atom text, .atom other]) := by
  intro pairs isGood covers
  rw [Expr.substituteInTurn_call, List.map_cons, List.map_cons, List.map_cons, List.map_nil,
    Expr.substituteInTurn_atom (not_mem_of_not_mem_scope isGood isKept),
    Expr.substituteInTurn_atom (not_mem_of_not_mem_scope isGood isKeptToo)]
  exact areGood _ (Expr.isValue_substituteInTurn_atom closed (fun pair isIn => (isGood pair isIn).2)
    (covers isPending))

end

/-- A binding of a name that is out of scope always is one if its value always is an operand. -/
theorem Always.of_binding {name : String} {e : Expr} (isKept : name ∉ scope)
    (isOperand : loops.Always scope pending (loops.Operand loops.isValue) e) :
    loops.Always scope pending loops.Bindings (.call [.call [.atom name, e]]) := by
  intro pairs areGood covers
  have isAlways := isOperand pairs areGood covers
  rw [Expr.substituteInTurn_call, List.map_cons, List.map_nil, Expr.substituteInTurn_call,
    List.map_cons, List.map_cons, List.map_nil,
    Expr.substituteInTurn_atom (not_mem_of_not_mem_scope areGood isKept)]
  exact ⟨_, [(name, e.substituteInTurn pairs)], rfl, rfl, by simpa using isAlways⟩

/-- Putting a value in place of a name in scope leaves a tail form one. -/
theorem TailForm.substitute {levels : Nat} {e : Expr}
    (isTail : loops.TailForm loops.BindsAnew scope pending levels e)
    (areFree : ∀ name ∈ scope, loops.Free name) {name : String} (inScope : name ∈ scope)
    {value : Expr} (isValue : loops.isValue value) {rest : List String}
    (isNext : pending ⊆ name :: rest) :
    loops.TailForm loops.BindsAnew scope rest levels (e.substitute name value) := by
  induction isTail generalizing rest with
  | exit isExit => exact .exit (isExit.substitute inScope isValue isNext)
  | choose isCondition _ _ onConsequent onAlternative =>
    have notIf := (areFree name inScope).1.symm
    rw [Expr.substitute_call_atom notIf]
    exact .choose (isCondition.substitute inScope isValue isNext)
      (onConsequent areFree inScope isNext) (onAlternative areFree inScope isNext)
  | @bind _ pending _ _ _ _ pairs isWritten isRead areBindings areNames _ inductionHypothesis =>
    have notLet := (areFree name inScope).2.1.symm
    rw [Expr.substitute_call_atom notLet]
    -- values go into names that are bound again, so this is where no name may be
    have unbound : name ∉ pairs.map Prod.fst := fun isBound => (areNames name isBound).1 inScope
    obtain ⟨items, others, isWrittenToo, isReadToo, sameNames⟩ :=
      Definition.readBindings_items?_substitute isWritten isRead unbound value
    refine .bind isWrittenToo isReadToo (areBindings.substitute inScope isValue isNext)
      (by rwa [sameNames]) ?_
    rw [sameNames]
    refine inductionHypothesis (fun bound isBound => ?_) (List.mem_append_right _ inScope) ?_
    · rcases List.mem_append.mp isBound with isNew | isOld
      · exact (areNames bound isNew).2
      · exact areFree bound isOld
    · intro other isOther
      rcases List.mem_append.mp isOther with isNew | isOld
      · simp [isNew]
      · rcases List.mem_cons.mp (isNext isOld) with rfl | isRest
        · simp
        · simp [isRest]
  | call isName areOperands =>
    have notName := (areFree name inScope).2.2
    rw [Expr.substitute_call_atom (by rintro rfl; exact notName isName)]
    refine .call isName fun operand isOperand => ?_
    obtain ⟨e, isIn, rfl⟩ := List.mem_map.mp isOperand
    exact (areOperands e isIn).substitute inScope isValue isNext

/-! ## What is no call of the family -/

/-- An expression that comes to a value without doing anything is an operand. -/
theorem Operand.of_exec {isResult : Expr → Prop} {e : Expr} (value : Expr)
    (ended : ∀ course, loops.isCourse course →
      (evaluate 0 loops.depth false false e).exec course = (.ok (.value value), course))
    (isGood : isResult value) : loops.Operand isResult e where
  fits isCourse := fun isDeeper => stepFits_of_exec_evaluate isDeeper (ended _ isCourse) trivial
  gives isCourse ends := by
    cases ends_run_unique ends (ends_run_of_exec_evaluate (ended _ isCourse))
    exact ⟨isGood, isCourse⟩

/-- What stands for itself hands no body over. -/
theorem exit_of_standsForItself (hasDepth : 0 < loops.depth) {value : Expr}
    (stands : ∀ course, loops.isCourse course → course.shell.session.standsForItself value) :
    loops.Exit value := by
  intro course isCourse line form middle taken deeper isDeeper
  have isOnly : line = false ∧ form = value ∧ middle = course := by
    induction taken with
    | start => exact ⟨rfl, rfl, rfl⟩
    | body _ handed inductionHypothesis =>
      obtain ⟨rfl, rfl, rfl⟩ := inductionHypothesis
      obtain ⟨⟨depth, steps⟩, ended⟩ := handed
      cases depth with
      | zero => cases ended
      | succ depth =>
        rw [exec_evaluate_standsForItself (stands _ isCourse)] at ended
        cases ended
  obtain ⟨rfl, rfl, rfl⟩ := isOnly
  obtain ⟨depth, isDepth⟩ := Nat.exists_eq_add_of_lt hasDepth
  have ended : (evaluate 0 loops.depth false true form).exec middle =
      (.ok (.value form), middle) := by
    rw [isDepth]
    exact exec_evaluate_standsForItself (stands _ isCourse)
  exact stepFits_of_exec_evaluate isDeeper ended trivial

end Loops

end LispShell
