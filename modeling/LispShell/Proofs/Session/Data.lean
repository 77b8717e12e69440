import LispShell.Proofs.Session.Commands

/-! # Values are data
Pending syntax never gets out of evaluation. Forms that are read have no call below a list, and
sessions keep it that way for everything they store, so every value is data through and through. -/

namespace LispShell

namespace Session

/-- Whether no definition and no body of a function has a call below a list. -/
structure IsProper (s : Session) : Prop where
  /-- The definitions. -/
  definitions {name : String} {e : Expr} : s.definitions.find? name = some e → e.isProper
  /-- The bodies of functions. -/
  functions {name : String} {function : Function} :
    s.functions.find? name = some function → function.body.isProper

/-- A fresh session is proper. -/
theorem isProper_fresh : IsProper .fresh :=
  ⟨nofun, nofun⟩

/-- A proper definition keeps a session proper. -/
theorem IsProper.define {s : Session} (isProper : s.IsProper) (name : String) {e : Expr}
    (isForm : e.isProper) : IsProper { s with definitions := s.definitions.insert name e } := by
  refine ⟨fun {other found} isFound => ?_, isProper.functions⟩
  rw [Table.find?_insert] at isFound
  split at isFound
  · cases isFound
    exact isForm
  · exact isProper.definitions isFound

/-- A function with a proper body keeps a session proper. -/
theorem IsProper.defineFunction {s : Session} (isProper : s.IsProper) (name : String)
    {function : Function} (isForm : function.body.isProper) (freshNames : Nat) :
    IsProper
      { s with
        functions := s.functions.insert name function
        freshNames := freshNames } := by
  refine ⟨isProper.definitions, fun {other found} isFound => ?_⟩
  rw [Table.find?_insert] at isFound
  split at isFound
  · cases isFound
    exact isForm
  · exact isProper.functions isFound

end Session

variable [OperatingSystem]

namespace Discipline

/-- Values are data, forms are proper, and so is all that a session stores. -/
def data : Discipline where
  value e := e.isData
  form e := e.isProper
  session := Session.IsProper
  outside _ _ := True
  coversLines := True
  value_atom := Expr.isData_atom
  value_list := Expr.isData_list
  form_of_value := Expr.isProper_of_isData
  form_call := Expr.isProper_call
  value_of_form_list isProper := by simpa using isProper
  form_of_definition isProper isFound := isProper.definitions isFound
  form_of_function isProper isFound := isProper.functions isFound
  session_define isProper _ isForm := isProper.define _ isForm
  session_defineFunction isProper _ isForm := isProper.defineFunction _ isForm _
  session_freshNames _ isProper := ⟨isProper.definitions, isProper.functions⟩
  session_defineAlias _ isProper _ := ⟨isProper.definitions, isProper.functions⟩
  session_status _ _ isProper := ⟨isProper.definitions, isProper.functions⟩
  outside_does _ _ _ := trivial

/-- To do the same under a discipline, as a relation between the actions of two program readers. -/
def agreement (d : Discipline) : ProgramReader.Relation Run Run where
  relates good run other :=
    d.Keeps good run ∧ ∀ course, d.Holds course → other.exec course = run.exec course
  relates_pure isGood := ⟨keeps_pure isGood, fun _ _ => rfl⟩
  relates_bind {α β good better first other next otherNext} agree agreeNext := by
    refine ⟨agree.1.bind fun result isGood => (agreeNext result isGood).1, fun course holds => ?_⟩
    obtain ⟨kept, results, -⟩ := agree.1 course holds
    have same := agree.2 course holds
    match ended : first.exec course with
    | (.error halt, after) =>
      rw [Run.exec_bind_error course ended, Run.exec_bind_error course (same.trans ended)]
    | (.ok result, after) =>
      rw [ended] at kept results
      rw [Run.exec_bind_ok course ended, Run.exec_bind_ok course (same.trans ended)]
      exact (agreeNext result (results result rfl)).2 after kept

end Discipline

namespace Session

/-- A reachable session is proper. -/
theorem Reachable.isProper {s : Session} (reachable : s.Reachable) : s.IsProper :=
  Discipline.session_of_reachable (d := .data) (fun isProper => isProper) trivial isProper_fresh
    (fun _ _ => trivial) reachable

/-- Evaluation of a proper expression in a proper session gives data. -/
theorem keeps_data_run (limits : Limits) (isLine : Bool) {e : Expr} (isProper : e.isProper) :
    Discipline.data.Keeps (fun value => value.isData) (Evaluation.run limits isLine e) :=
  Discipline.keeps_run limits (fun _ => trivial) isProper

/-- How a session reads a program, turning to something else where the value of a form is not
data. -/
def checkedReader (limits : Limits) (otherwise : Expr → Run Unit) : ProgramReader Run :=
  { programReader limits with
    accept := fun form => do
      let value ← Evaluation.run limits false form
      if value.isData then pure () else otherwise value }

/-- In a proper session the values of the forms of a program are data, all through the program. -/
theorem exec_checkedReader (limits : Limits) (otherwise : Expr → Run Unit) (source : String)
    {course : Course} (isProper : course.shell.session.IsProper) :
    ((checkedReader limits otherwise).run source).exec course =
      (evalProgram limits source).exec course := by
  have related : ProgramReader.Related Discipline.data.agreement (programReader limits)
      (checkedReader limits otherwise) := by
    refine ⟨rfl, ?aliases, ?accept, ?refuse⟩
    case aliases =>
      exact Discipline.data.agreement.relates_bind ⟨Discipline.keeps_session, fun _ _ => rfl⟩
        fun _ _ => Discipline.data.agreement.relates_pure trivial
    case accept =>
      intro form isForm
      simp only [checkedReader, programReader, discard, Functor.discard, map_const,
        Function.comp_apply, map_eq_pure_bind]
      have agrees : Discipline.data.agreement.relates (fun value : Expr => value.isData)
          (Evaluation.run limits false form) (Evaluation.run limits false form) :=
        ⟨keeps_data_run limits false isForm, fun _ _ => rfl⟩
      refine Discipline.data.agreement.relates_bind agrees fun value isData => ?_
      rw [if_pos isData]
      exact Discipline.data.agreement.relates_pure trivial
    case refuse => exact fun fault => ⟨Discipline.keeps_fail _, fun _ _ => rfl⟩
  exact (ProgramReader.relates_run related source).2 course ⟨isProper, trivial⟩

/-- Evaluation never yields pending syntax. Lines and programs are read as proper forms; a reachable
session stores nothing but proper forms; whatever proper form, and so whatever name, is evaluated in
it, the value is data; and so are the values of lines and of the forms of a program, all through the
program. -/
theorem evaluation_yields_data :
    (∀ limit aliases source e, readLine limit aliases source = .ok e → e.isProper) ∧
    (∀ limit aliases source, ∀ form ∈ (readProgram limit aliases source).1, form.isProper) ∧
    (∀ s : Session, s.Reachable → s.IsProper) ∧
    (∀ (course : Course), course.shell.session.Reachable →
      (∀ limits isLine e value, e.isProper →
        ((Evaluation.run limits isLine e).exec course).1 = .ok value → value.isData) ∧
      (∀ limits line value,
        ((evalLine limits line).exec course).1 = .ok value → value.isData) ∧
      (∀ limits otherwise source,
        ((checkedReader limits otherwise).run source).exec course =
          (evalProgram limits source).exec course)) := by
  refine ⟨fun _ _ _ _ => isProper_readLine, fun _ _ _ _ => isProper_of_mem_readProgram,
    fun _ => Reachable.isProper, fun course reachable => ?_⟩
  have isProper := reachable.isProper
  refine ⟨fun limits isLine e value isForm => ?_, fun limits line value => ?_,
    fun limits otherwise source => ?_⟩
  · exact (keeps_data_run limits isLine isForm course ⟨isProper, trivial⟩).2.1 value
  · exact (Discipline.keeps_evalLine (d := .data) (fun isForm => isForm) trivial limits line course
      ⟨isProper, trivial⟩).2.1 value
  · exact exec_checkedReader limits otherwise source isProper

end Session

end LispShell
