import LispShell.Proofs.Evaluation.Refusals
import LispShell.Proofs.Session.Commands
import LispShell.Proofs.Session.FreshNames

/-! # The tables of a session
Whatever is asked of a session, and whether it succeeds or fails, the tables of the session stay in
order and only grow. A definition that is refused does not touch them at all. -/

namespace LispShell

/-- What can be asked of a session that may change what it remembers. -/
inductive Request where
  /-- To evaluate a command line. -/
  | line (text : String)
  /-- To evaluate a program. -/
  | program (source : String)
  /-- To evaluate an expression, any at all, as a line or not. -/
  | expression (isLine : Bool) (e : Expr)

/-- Where things stand after a request, whether it succeeds or fails. -/
def Request.after [OperatingSystem] (limits : Limits) (course : Course) : Request → Course
  | .line text => ((Session.evalLine limits text).exec course).2
  | .program source => ((Session.evalProgram limits source).exec course).2
  | .expression isLine e => ((Evaluation.run limits isLine e).exec course).2

namespace Session

/-- The sessions that come of any requests to a fresh one. Between two requests anything may happen
to the world. -/
inductive Arises [OperatingSystem] : Session → Prop
  /-- Nothing is asked for yet. -/
  | fresh : Arises .fresh
  /-- Something is asked for. -/
  | request (limits : Limits) (request : Request) {course : Course} :
    Arises course.shell.session → Arises (request.after limits course).shell.session

/-- Whether the tables of a session are in order. -/
structure InOrder (s : Session) : Prop where
  /-- No definition has the empty name. -/
  definitions : s.definitions.contains "" = false
  /-- No function has the empty name. -/
  functions : s.functions.contains "" = false
  /-- No alias has the empty name. -/
  aliases : s.aliases.contains "" = false
  /-- A function is filed under its own name. -/
  name_eq {name : String} {function : Function} :
    s.functions.find? name = some function → function.name = name
  /-- The parameters of a function are fresh names that were made before. -/
  isFresh {name : String} {function : Function} : s.functions.find? name = some function →
    ∀ param ∈ function.params, ∃ text number, number < s.freshNames ∧ param = freshName text number
  /-- No two parameters of a function are spelled alike. -/
  nodup {name : String} {function : Function} :
    s.functions.find? name = some function → function.params.Nodup
  /-- No parameter is spelled like one of another function. -/
  disjoint {name other : String} {function otherFunction : Function} :
    s.functions.find? name = some function → s.functions.find? other = some otherFunction →
      name ≠ other → ∀ param ∈ function.params, param ∉ otherFunction.params

/-- Whether a session has every name that another had, and has made as many fresh names at least. -/
structure GrowsTo (before after : Session) : Prop where
  /-- The names of definitions. -/
  definitions (name : String) :
    before.definitions.contains name = true → after.definitions.contains name = true
  /-- The names of functions. -/
  functions (name : String) :
    before.functions.contains name = true → after.functions.contains name = true
  /-- The names of aliases. -/
  aliases (name : String) :
    before.aliases.contains name = true → after.aliases.contains name = true
  /-- The number of fresh names. -/
  freshNames : before.freshNames ≤ after.freshNames

/-! ## Names that are written to -/

/-- A table without the empty name still lacks it after a write to another name. -/
theorem contains_empty_insert {α : Type} {table : Table α} {name : String} (isName : name ≠ "")
    (lacks : table.contains "" = false) (value : α) :
    (table.insert name value).contains "" = false := by
  rw [Table.contains_insert, lacks, Bool.or_false]
  exact beq_false_of_ne isName.symm

/-- A table keeps its names in a write. -/
theorem contains_insert_of_contains {α : Type} {table : Table α} {other : String}
    (isThere : table.contains other = true) (name : String) (value : α) :
    (table.insert name value).contains other = true := by
  rw [Table.contains_insert, isThere, Bool.or_true]

/-! ## Order -/

/-- The tables of a fresh session are in order. -/
theorem inOrder_fresh : InOrder .fresh :=
  ⟨rfl, rfl, rfl, nofun, nofun, nofun, nofun⟩

namespace InOrder

variable {s : Session} (inOrder : s.InOrder) {name : String} (isName : name ≠ "")
include inOrder

/-- Fresh names that are made now are spelled unlike the parameters of every function. -/
theorem notMem_params_of_mem_freshNamesFrom {name : String} {function : Function}
    (isFound : s.functions.find? name = some function) (params : List String) :
    ∀ text ∈ freshNamesFrom s.freshNames params, text ∉ function.params := by
  intro text isNew isOld
  obtain ⟨param, number, isAfter, -, rfl⟩ := exists_of_mem_freshNamesFrom isNew
  obtain ⟨other, earlier, isBefore, same⟩ := inOrder.isFresh isFound _ isOld
  have sameNumber := eq_of_freshName_eq same
  omega

/-- Making fresh names keeps the tables in order. -/
theorem countNames (count : Nat) : InOrder { s with freshNames := s.freshNames + count } := by
  refine { inOrder with isFresh := ?_ }
  intro name function isFound param isIn
  obtain ⟨text, number, isBefore, isParam⟩ := inOrder.isFresh isFound param isIn
  exact ⟨text, number, Nat.lt_add_right count isBefore, isParam⟩

include isName

/-- A definition keeps the tables in order. -/
theorem define (e : Expr) : InOrder { s with definitions := s.definitions.insert name e } :=
  { inOrder with definitions := contains_empty_insert isName inOrder.definitions e }

/-- An alias keeps the tables in order. -/
theorem defineAlias (texts : List String) :
    InOrder { s with aliases := s.aliases.insert name texts } :=
  { inOrder with aliases := contains_empty_insert isName inOrder.aliases texts }

/-- A function with new fresh names keeps the tables in order. -/
theorem defineFunction (params : List String) (body : Expr) :
    InOrder
      { s with
        functions := s.functions.insert name ⟨name, freshNamesFrom s.freshNames params, body⟩
        freshNames := s.freshNames + params.length } := by
  have counted := inOrder.countNames params.length
  refine
    { counted with
      functions := contains_empty_insert isName inOrder.functions _
      name_eq := ?name_eq, isFresh := ?isFresh, nodup := ?nodup, disjoint := ?disjoint }
  case name_eq =>
    intro other function isFound
    rw [Table.find?_insert] at isFound
    split at isFound
    case isTrue sameName =>
      cases isFound
      exact sameName.symm
    case isFalse => exact inOrder.name_eq isFound
  case isFresh =>
    intro other function isFound param isIn
    rw [Table.find?_insert] at isFound
    split at isFound
    · cases isFound
      obtain ⟨text, number, -, isBelow, isParam⟩ := exists_of_mem_freshNamesFrom isIn
      exact ⟨text, number, isBelow, isParam⟩
    · exact counted.isFresh isFound param isIn
  case nodup =>
    intro other function isFound
    rw [Table.find?_insert] at isFound
    split at isFound
    · cases isFound
      exact nodup_freshNamesFrom _ _
    · exact inOrder.nodup isFound
  case disjoint =>
    intro first second function otherFunction isFirst isSecond different
    rw [Table.find?_insert] at isFirst isSecond
    -- at most one of the two functions is the new one
    split at isFirst <;> split at isSecond
    case isTrue.isTrue isNew isOther => exact absurd (isNew.trans isOther.symm) different
    case isTrue.isFalse =>
      cases isFirst
      exact inOrder.notMem_params_of_mem_freshNamesFrom isSecond params
    case isFalse.isTrue =>
      cases isSecond
      intro param isOld isNew
      exact inOrder.notMem_params_of_mem_freshNamesFrom isFirst params param isNew isOld
    case isFalse.isFalse => exact inOrder.disjoint isFirst isSecond different

end InOrder

/-! ## Growth -/

/-- A session grows to itself. -/
theorem GrowsTo.refl (s : Session) : s.GrowsTo s :=
  ⟨fun _ isThere => isThere, fun _ isThere => isThere, fun _ isThere => isThere, Nat.le_refl _⟩

end Session

namespace Discipline

variable [OperatingSystem]

/-- The tables of the session are in order. -/
def inOrder : Discipline :=
  { unrestricted with
    session := Session.InOrder
    form_of_definition := fun _ _ => trivial
    form_of_function := fun _ _ => trivial
    session_define := fun inOrder isName _ => inOrder.define isName _
    session_defineFunction := fun inOrder isName _ => inOrder.defineFunction isName _ _
    session_freshNames := fun count inOrder => inOrder.countNames count
    session_defineAlias := fun texts inOrder isName => inOrder.defineAlias isName texts
    session_status := fun _ _ inOrder => { inOrder with } }

/-- The session has grown from what it was. -/
def growing (before : Session) : Discipline :=
  { unrestricted with
    session := before.GrowsTo
    form_of_definition := fun _ _ => trivial
    form_of_function := fun _ _ => trivial
    session_define := fun grows _ _ =>
      { grows with definitions := fun name isThere =>
          Session.contains_insert_of_contains (grows.definitions name isThere) _ _ }
    session_defineFunction := fun grows _ _ =>
      { grows with
        functions := fun name isThere =>
          Session.contains_insert_of_contains (grows.functions name isThere) _ _
        freshNames := Nat.le_add_right_of_le grows.freshNames }
    session_freshNames := fun _ grows =>
      { grows with freshNames := Nat.le_add_right_of_le grows.freshNames }
    session_defineAlias := fun _ grows _ =>
      { grows with aliases := fun name isThere =>
          Session.contains_insert_of_contains (grows.aliases name isThere) _ _ }
    session_status := fun _ _ grows => { grows with } }

/-- A discipline that takes everything as a form holds after every request, if it held before. -/
theorem holds_after {d : Discipline} (forms : ∀ e, d.form e) (covers : d.coversLines)
    (limits : Limits) (request : Request) {course : Course} (holds : d.Holds course) :
    d.Holds (request.after limits course) := by
  cases request with
  | line text => exact (keeps_evalLine (fun _ => forms _) covers limits text course holds).1
  | program source => exact (keeps_evalProgram (fun _ => forms _) limits source course holds).1
  | expression isLine e => exact (keeps_run limits (fun _ => covers) (forms e) course holds).1

end Discipline

namespace Session

variable [OperatingSystem]

/-- The tables of a session that comes of requests are in order. -/
theorem Arises.inOrder {s : Session} (arises : s.Arises) : s.InOrder := by
  induction arises with
  | fresh => exact inOrder_fresh
  | request limits request _ inductionHypothesis =>
    exact (Discipline.holds_after (d := .inOrder) (fun _ => trivial) trivial limits request
      ⟨inductionHypothesis, trivial⟩).1

/-- A request only lets the session grow. -/
theorem growsTo_after (limits : Limits) (request : Request) (course : Course) :
    course.shell.session.GrowsTo (request.after limits course).shell.session :=
  (Discipline.holds_after (d := .growing course.shell.session) (fun _ => trivial) trivial limits
    request ⟨.refl _, trivial⟩).1

/-- The tables of every session that comes of requests are in order. A request only lets them grow,
whether it succeeds or fails. And a definition that comes to a halt, other than for want of room,
leaves everything as it was when its head had been named; a head that is no call is named without
changing anything. -/
theorem tables_stay_in_order :
    (∀ s : Session, s.Arises → s.InOrder) ∧
    (∀ (limits : Limits) (request : Request) (course : Course),
      course.shell.session.GrowsTo (request.after limits course).shell.session) ∧
    (∀ limits isLine isTail head es course name named builtin halt after,
      (Evaluation.headName (Evaluation.lineOperands limits) head).exec course =
        (.ok name, named) →
      Builtin.ofName? name = some builtin → builtin.isDefinition = true →
      halt ≠ .fault .evaluationTooDeep →
      (Evaluation.evaluate limits.steps limits.depth isLine isTail (.call (head :: es))).exec
          course = (.error halt, after) ∨
        (Evaluation.run limits isLine (.call (head :: es))).exec course = (.error halt, after) →
      after = named ∧ ((∀ items, head ≠ .call items) → named = course)) := by
  refine ⟨fun s arises => arises.inOrder, growsTo_after, ?_⟩
  intro limits isLine isTail head es course name named builtin halt after isNamed isBuiltin defines
    notTooDeep halted
  refine ⟨?_, fun notCall => (Evaluation.isIdle_headName _ notCall).eq_of_exec isNamed⟩
  rcases halted with halted | halted
  · exact Evaluation.eq_named_of_evaluate isBuiltin defines notTooDeep limits isNamed halted
  · exact Evaluation.eq_named_of_run isBuiltin defines notTooDeep limits isNamed halted

end Session

end LispShell
