import LispShell.Proofs.Evaluation.Steps
import LispShell.Proofs.Expr.Shape
import LispShell.Proofs.Expr.Substitution

/-! # Local bindings
The bindings of a local binding are read before any value is evaluated, so an operand that is no
binding list is refused and nothing else happens. Values take the place of names wherever these
stand in pending syntax, in the bindings of an inner local binding too. So an inner binding of a
name hides an outer one as long as the outer value is an atom that the inner body does not spell:
the inner binding then binds that atom in place of the name. Any other atom is bound together with
the name, and what is no atom leaves no binding. -/

namespace LispShell

/-! ## Binding lists -/

namespace Definition

/-- Whether an operand is a call or a list that writes the given bindings. -/
def Lists (written : Expr) (pairs : List (String × Expr)) : Prop :=
  ∃ items, written.items? = some items ∧ Binds items pairs

/-- What an operand is refused for: for itself if it has no items, and else for the item after the
bindings that it begins with. -/
inductive Refuses : Expr → (reported : Expr) → (cause : String → Fault) → Prop
  /-- An operand without items. -/
  | notAList (text : String) : Refuses (.atom text) (.atom text) .bindingsNotAList
  /-- An item that no binding begins with. -/
  | malformed {written item : Expr} {front rest : List Expr} {pairs : List (String × Expr)} :
    written.items? = some (front ++ item :: rest) → Binds front pairs →
      BeginsNoBinding item rest → Refuses written item .malformedBinding

/-- The fault of a refusal: what is reported is printed, if there is room for it. -/
def refusal (room : Nat) (reported : Expr) (cause : String → Fault) : Fault :=
  if reported.height ≤ room then cause reported.render else .evaluationTooDeep

variable {written : Expr} {pairs : List (String × Expr)} {reported : Expr}
  {cause : String → Fault}

/-- An operand that does not list bindings is refused. -/
theorem exists_refuses (notListed : ∀ pairs, ¬ Lists written pairs) :
    ∃ reported cause, Refuses written reported cause := by
  cases hasItems : written.items? with
  | none =>
    cases written with
    | atom text => exact ⟨_, _, .notAList text⟩
    | call items => cases hasItems
    | list items => cases hasItems
  | some items =>
    cases isRead : readBindings items with
    | ok pairs => exact (notListed pairs ⟨items, hasItems, readBindings_eq_ok_iff.mp isRead⟩).elim
    | error item =>
      obtain ⟨front, others, rest, rfl, binds, noBinding⟩ := readBindings_eq_error_iff.mp isRead
      exact ⟨item, _, .malformed hasItems binds noBinding⟩

/-- An operand that is refused lists no bindings. -/
theorem Refuses.not_lists (refuses : Refuses written reported cause) : ¬ Lists written pairs := by
  rintro ⟨items, hasItems, binds⟩
  cases refuses with
  | notAList text => cases hasItems
  | malformed isRow front noBinding =>
    obtain rfl := Option.some.inj (isRow.symm.trans hasItems)
    have failed := readBindings_eq_error_iff.mpr ⟨_, _, _, rfl, front, noBinding⟩
    rw [readBindings_eq_ok_iff.mpr binds] at failed
    cases failed

/-- A list of one item is no binding. -/
theorem refuses_singleton (item : Expr) :
    Refuses (.call [.list [item]]) (.list [item]) .malformedBinding := by
  have notPair : pair? (.list [item]) = none := by
    cases item <;> rfl
  exact @Refuses.malformed _ _ [] [] [] rfl .nil ⟨notPair, fun _ => rfl⟩

/-- The bindings that an operand lists are found. -/
theorem bindings_of_lists (lists : Lists written pairs) (operands : Operands) :
    bindings operands written = pure pairs := by
  obtain ⟨items, hasItems, binds⟩ := lists
  rw [bindings, hasItems]
  simp only [readBindings_eq_ok_iff.mpr binds]

/-- An operand that is refused has no bindings. -/
theorem bindings_of_refuses (refuses : Refuses written reported cause) (operands : Operands) :
    bindings operands written = Run.fail (refusal operands.room reported cause) := by
  have fails (other : Expr) (cause : String → Fault) :
      (do Run.fail (cause (← Operands.render operands.room other))) =
        (Run.fail (refusal operands.room other cause) : Run (List (String × Expr))) := by
    rw [Operands.render, Operands.within, refusal]
    split <;> rfl
  cases refuses with
  | notAList text => exact fails _ _
  | malformed hasItems binds noBinding =>
    have isRead := readBindings_eq_error_iff.mpr ⟨_, _, _, rfl, binds, noBinding⟩
    rw [bindings, hasItems]
    simp only [isRead]
    exact fails _ _

/-- What is found are bindings that the operand lists. -/
theorem lists_of_exec_bindings {operands : Operands} {course after : Course}
    (found : (bindings operands written).exec course = (.ok pairs, after)) :
    Lists written pairs := by
  by_cases isListed : ∃ others, Lists written others
  · obtain ⟨others, lists⟩ := isListed
    rw [bindings_of_lists lists] at found
    cases found
    exact lists
  · obtain ⟨reported, cause, refuses⟩ := exists_refuses (not_exists.mp isListed)
    rw [bindings_of_refuses refuses] at found
    cases found

end Definition

namespace Evaluation

section

variable [OperatingSystem]

/-- A local binding whose bindings are refused is refused itself. -/
theorem run_of_refuses {written reported : Expr} {cause : String → Fault}
    (refuses : Definition.Refuses written reported cause) (limits : Limits) (isLine : Bool)
    (body : Expr) :
    run limits isLine (.call [.atom "let", written, body]) =
      Run.fail (if reported.height < limits.depth then cause reported.render
        else .evaluationTooDeep) := by
  have isBind : Builtin.ofName? "let" = some .bind := by decide
  obtain ⟨_ | room, steps⟩ := limits
  · rfl
  · -- the bindings are read before any of their values is evaluated
    have fails : Builtin.value (operandsAt steps room) .bind [written, body] =
        Run.fail (Definition.refusal room reported cause) := by
      rw [Builtin.value, Builtin.bindLocally, Definition.bindings_of_refuses refuses]
      rfl
    have sameRoom : reported.height < room + 1 ↔ reported.height ≤ room := Nat.lt_succ_iff
    rw [run, evaluate_succ, activate_branch isBind rfl, fails, Definition.refusal]
    simp only [sameRoom]
    rfl

/-- With room to print what is reported, a local binding comes to the fault of its bindings. -/
theorem ends_run_of_refuses {written reported body : Expr} {cause : String → Fault} {isLine : Bool}
    {course : Course} (refuses : Definition.Refuses written reported cause) :
    Run.Ends (fun limits => run limits isLine (.call [.atom "let", written, body])) course
      (.error (.fault (cause reported.render)), course) := by
  have isRefused := run_of_refuses refuses ⟨reported.height + 1, 0⟩ isLine body
  rw [if_pos (Nat.lt_succ_self _)] at isRefused
  refine ⟨_, congrArg (Run.exec · course) isRefused, ?_⟩
  cases refuses with
  | notAList text => rfl
  | malformed isRow binds noBinding => rfl

/-- A local binding follows the grammar of binding lists. An operand that lists bindings gives just
these, in order, and what is found is listed. Every other operand is refused, for itself if it has
no items and else for the first item that is not part of a binding: however operands are evaluated,
none is, and wherever the local binding stands, it comes to that fault and leaves the session, the
world and the record as they were, unless there is no room to print what is reported. -/
theorem bindings_follow_grammar :
    (∀ written pairs, Definition.Lists written pairs → ∀ operands,
      Definition.bindings operands written = pure pairs ∧
      ∀ body, Builtin.value operands .bind [written, body] =
        Definition.substituteBindings operands body pairs) ∧
    (∀ operands written pairs course after,
      (Definition.bindings operands written).exec course = (.ok pairs, after) →
        Definition.Lists written pairs) ∧
    (∀ written, (∀ pairs, ¬ Definition.Lists written pairs) →
      ∃ reported cause, Definition.Refuses written reported cause ∧
        (∀ operands body, Builtin.value operands .bind [written, body] =
          Run.fail (Definition.refusal operands.room reported cause)) ∧
        ∀ limits isLine body course,
          (run limits isLine (.call [.atom "let", written, body])).exec course =
            (.error (.fault (if reported.height < limits.depth then cause reported.render
              else .evaluationTooDeep)), course)) := by
  refine ⟨?lists, fun _ _ _ _ _ => Definition.lists_of_exec_bindings, ?refuses⟩
  case lists =>
    intro written pairs lists operands
    have areFound := Definition.bindings_of_lists lists operands
    refine ⟨areFound, fun body => ?_⟩
    rw [Builtin.value, Builtin.bindLocally, areFound, pure_bind]
  case refuses =>
    intro written notListed
    obtain ⟨reported, cause, refuses⟩ := Definition.exists_refuses notListed
    refine ⟨reported, cause, refuses, ?_, ?_⟩
    · intro operands body
      rw [Builtin.value, Builtin.bindLocally, Definition.bindings_of_refuses refuses]
      rfl
    · intro limits isLine body course
      rw [run_of_refuses refuses, Run.exec_fail]

end

/-- A malformed binding is not named in the fault where it is nested too deep to be printed. -/
theorem deep_binding_is_not_named :
    ¬ ∀ (written body : Expr) (course : Course), (∀ pairs, ¬ Definition.Lists written pairs) →
      ∃ shown,
        ((run .standard false (.call [.atom "let", written, body])).exec course).1 =
            .error (.fault (.bindingsNotAList shown)) ∨
          ((run .standard false (.call [.atom "let", written, body])).exec course).1 =
            .error (.fault (.malformedBinding shown)) := by
  intro named
  let deep : Expr := (Expr.atom "a").wrapped 3000
  have refuses : Definition.Refuses (.call [deep]) deep .malformedBinding :=
    Definition.refuses_singleton _
  have isDeep : ¬ deep.height < Limits.standard.depth := by
    rw [Expr.height_wrapped]
    decide
  obtain ⟨shown, halted⟩ := named (.call [deep]) (.atom "b") .fresh fun _ => refuses.not_lists
  rw [run_of_refuses refuses, if_neg isDeep, Run.exec_fail] at halted
  obtain isNamed | isNamed := halted
  · cases isNamed
  · cases isNamed

/-! ## A binding inside another -/

section Hiding

variable [OperatingSystem]
variable {name other : String} {e w body value : Expr} {isLine : Bool} {course after : Course}
  {ending : Except Halt Expr × Course}

/-- A local binding comes to the ends of evaluating the expression and then the body with the value
in place of the name. -/
theorem ends_run_localBinding_iff :
    Run.Ends (fun limits => run limits isLine (localBinding name e body)) course ending ↔
      Run.Ends (fun limits => run limits false e >>= fun value =>
        run limits false (body.substitute name value)) course ending := by
  -- the levels of the body are room enough to substitute in it
  refine ends_run_iff_ends_in_turn body.callHeight fun depth => ?_
  have fits : body.callHeight ≤ depth + body.callHeight := Nat.le_add_left _ _
  rw [← Nat.add_assoc, direct_localBinding]
  simp only [Operands.substitute, Operands.within, if_pos fits, pure_bind]

/-- A local binding whose expression comes to a value comes to the ends of the body with the value
in place of the name. -/
theorem ends_run_localBinding_of_ends
    (ends : Run.Ends (fun limits => run limits false e) course (.ok value, after)) :
    Run.Ends (fun limits => run limits isLine (localBinding name e body)) course ending ↔
      Run.Ends (fun limits => run limits false (body.substitute name value)) after ending :=
  ends_run_localBinding_iff.trans (ends_in_turn_iff ends)

/-- A local binding comes to the same ends as a whole line and anywhere else. -/
theorem ends_run_localBinding_isLine_iff (isLine otherwise : Bool) :
    Run.Ends (fun limits => run limits isLine (localBinding name e body)) course ending ↔
      Run.Ends (fun limits => run limits otherwise (localBinding name e body)) course ending :=
  ends_run_localBinding_iff.trans ends_run_localBinding_iff.symm

omit [OperatingSystem] in
/-- An atom put in place of a name is bound by an inner binding of the name in place of that. -/
theorem substitute_localBinding (isKept : name ≠ "let") (unspelled : name ∉ w.spelled) :
    (localBinding name w body).substitute name (.atom other) =
      localBinding other w (body.substitute name (.atom other)) := by
  have sameValue := Expr.substitute_of_unspelled unspelled (.atom other)
  simp [localBinding, Expr.substitute, Expr.substituteAll, isKept.symm, sameValue]

/-- Whether an inner binding of a name hides an outer one: the two together come to the ends of the
inner one alone. -/
def Hides (name : String) (e w body : Expr) (course : Course) : Prop :=
  ∀ isLine ending,
    Run.Ends (fun limits => run limits isLine (localBinding name e (localBinding name w body)))
        course ending ↔
      Run.Ends (fun limits => run limits isLine (localBinding name w body)) course ending

/-- An inner binding does not hide an outer one if the two together come to another end. -/
theorem not_hides_of_ends {other : Except Halt Expr × Course}
    (together : Run.Ends (fun limits => run limits isLine
      (localBinding name e (localBinding name w body))) course ending)
    (alone : Run.Ends (fun limits => run limits isLine (localBinding name w body)) course other)
    (differ : ending ≠ other) : ¬ Hides name e w body course :=
  fun hides => differ (ends_run_unique ((hides isLine ending).mp together) alone)

/-- An inner binding hides an outer one whose value is the name itself. -/
theorem hides_of_ends_self
    (ends : Run.Ends (fun limits => run limits false e) course (.ok (.atom name), course)) :
    Hides name e w body course := by
  intro isLine ending
  rw [ends_run_localBinding_of_ends ends, Expr.substitute_atom_self]
  exact ends_run_localBinding_isLine_iff false isLine

section Outer

variable (unspelled : name ∉ w.spelled) (isKept : name ≠ "let")
include unspelled isKept

/-- With an atom for its outer value, a name that is bound again is bound together with that
atom. -/
theorem ends_run_localBinding_of_ends_atom
    (ends : Run.Ends (fun limits => run limits false e) course (.ok (.atom other), course)) :
    Run.Ends (fun limits => run limits isLine (localBinding name e (localBinding name w body)))
        course ending ↔
      Run.Ends (fun limits => run limits false w >>= fun value =>
        run limits false (body.substituteAtOnce [(name, value), (other, value)])) course ending := by
  rw [ends_run_localBinding_of_ends ends, substitute_localBinding isKept unspelled,
    ends_run_localBinding_iff]
  simp only [Expr.substitute_substitute_atom]

/-- An inner binding hides an outer one whose value is an atom that the body does not spell. -/
theorem hides_of_ends_atom (bodyUnspelled : other ∉ body.spelled)
    (ends : Run.Ends (fun limits => run limits false e) course (.ok (.atom other), course)) :
    Hides name e w body course := by
  intro isLine ending
  rw [ends_run_localBinding_of_ends ends, substitute_localBinding isKept unspelled,
    ends_run_localBinding_iff, ends_run_localBinding_iff]
  simp only [Expr.substitute_substitute_of_unspelled bodyUnspelled]

/-- With something else than an atom for its outer value, a name that is bound again leaves a
binding that is refused. -/
theorem ends_run_localBinding_of_not_atom (notAtom : ∀ text, value ≠ .atom text)
    (ends : Run.Ends (fun limits => run limits false e) course (.ok value, course)) :
    Run.Ends (fun limits => run limits isLine (localBinding name e (localBinding name w body)))
      course (.error (.fault (.malformedBinding (Expr.call [value, w]).render)), course) := by
  have sameValue := Expr.substitute_of_unspelled unspelled value
  have inPlace : (localBinding name w body).substitute name value =
      .call [.atom "let", .call [.call [value, w]], body.substitute name value] := by
    simp [localBinding, Expr.substitute, Expr.substituteAll, isKept.symm, sameValue]
  -- what stands in the place of the name decides whether the binding is still one
  have notPair : Definition.pair? (.call [value, w]) = none := by
    cases value with
    | atom text => exact absurd rfl (notAtom text)
    | call items => rfl
    | list items => rfl
  have isRow : (Expr.call [.call [value, w]]).items? = some ([] ++ .call [value, w] :: []) := rfl
  rw [ends_run_localBinding_of_ends ends, inPlace]
  exact ends_run_of_refuses (.malformed isRow .nil ⟨notPair, fun _ => rfl⟩)

end Outer

end Hiding

end Evaluation

end LispShell
