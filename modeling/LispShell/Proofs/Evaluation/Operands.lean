import LispShell.Evaluation.Operation
import LispShell.Proofs.Run.Discipline

/-! # Operands under a discipline
Whatever a builtin does with its operands it does the same with more room, and it keeps a discipline
if their evaluation does. -/

namespace LispShell

namespace Discipline

variable [OperatingSystem] {d : Discipline}

/-- Substitution of a value in a form gives a form. -/
theorem form_substitute {body value : Expr} (name : String) (isForm : d.form body)
    (isValue : d.value value) : d.form (body.substitute name value) := by
  induction body with
  | atom text =>
    rw [Expr.substitute]
    split
    · exact d.form_of_value isValue
    · exact isForm
  | call items inductionHypothesis =>
    rw [Expr.substitute, Expr.substituteAll_eq_map, d.form_call]
    intro substituted isIn
    obtain ⟨item, isItem, rfl⟩ := List.mem_map.mp isIn
    exact inductionHypothesis item isItem ((d.form_call items).mp isForm item isItem)
  | list items => exact isForm

/-- The items of a form are forms. -/
theorem form_of_items {e item : Expr} {items : List Expr} (isForm : d.form e)
    (hasItems : e.items? = some items) (isIn : item ∈ items) : d.form item := by
  match e, hasItems with
  | .call items, rfl => exact (d.form_call items).mp isForm item isIn
  | .list items, rfl =>
    exact d.form_of_value ((d.value_list items).mp (d.value_of_form_list isForm) item isIn)

variable (d) in
/-- Whether the evaluation of operands keeps the discipline and another refines it. -/
structure RefinesOperands (operands refined : Operands) : Prop where
  /-- There is as much room. -/
  room_le : operands.room ≤ refined.room
  /-- Every operand is evaluated in the same way. -/
  value {e : Expr} (isForm : d.form e) : d.Refines d.value (operands.value e) (refined.value e)

section Walks

variable {room more : Nat} (fits : room ≤ more)
include fits

/-- What there is room for there is room for with more of it. -/
theorem refines_within {α : Type} {good : α → Prop} (levels : Nat) {result : α}
    (isGood : good result) :
    d.Refines good (Operands.within room levels result) (Operands.within more levels result) := by
  unfold Operands.within
  by_cases enough : levels ≤ room
  · rw [if_pos enough, if_pos (Nat.le_trans enough fits)]
    exact keeps_pure isGood
  · rw [if_neg enough]
    exact refines_tooDeep _

/-- Flattening does the same with more room. -/
theorem refines_flatten (e : Expr) :
    d.Refines (fun _ => True) (Operands.flatten room e) (Operands.flatten more e) :=
  refines_within fits e.height trivial

/-- Printing does the same with more room. -/
theorem refines_render (e : Expr) :
    d.Refines (fun _ => True) (Operands.render room e) (Operands.render more e) :=
  refines_within fits e.height trivial

/-- Substitution does the same with more room. -/
theorem refines_substitute {body value : Expr} (name : String) (isForm : d.form body)
    (isValue : d.value value) :
    d.Refines d.form (Operands.substitute room body name value)
      (Operands.substitute more body name value) :=
  refines_within fits body.callHeight (form_substitute name isForm isValue)

/-- Reading a number does the same with more room. -/
theorem refines_number (e : Expr) :
    d.Refines (fun _ => True) (Operands.number room e) (Operands.number more e) := by
  unfold Operands.number
  refine (refines_flatten fits e).bind fun text _ => ?_
  split
  · exact keeps_pure trivial
  · exact keeps_fail _
  · exact keeps_fail _

end Walks

variable {operands refined : Operands} (ops : d.RefinesOperands operands refined)
include ops

section Single

variable {e : Expr} (isForm : d.form e)
include isForm

/-- The text of an operand. -/
theorem refines_text : d.Refines (fun _ => True) (operands.text e) (refined.text e) := by
  unfold Operands.text
  exact (ops.value isForm).bind fun value _ => refines_flatten ops.room_le value

/-- The number of an operand. -/
theorem refines_numeric : d.Refines (fun _ => True) (operands.numeric e) (refined.numeric e) := by
  unfold Operands.numeric
  exact (ops.value isForm).bind fun value _ => refines_number ops.room_le value

/-- The truth of an operand. -/
theorem refines_isTrue : d.Refines (fun _ => True) (operands.isTrue e) (refined.isTrue e) := by
  unfold Operands.isTrue
  exact (refines_text ops isForm).bind fun text _ => keeps_pure trivial

end Single

section Several

variable {es : List Expr} (forms : ∀ e ∈ es, d.form e)
include forms

/-! ## Arithmetic and logic -/

/-- A fold over numbers. -/
theorem refines_fold (combine : Float → Float → Float) (neutral : Float) :
    d.Refines d.value (Arithmetic.fold operands combine neutral es)
      (Arithmetic.fold refined combine neutral es) := by
  induction es generalizing neutral with
  | nil => exact keeps_pure (d.value_atom _)
  | cons e rest inductionHypothesis =>
    refine (refines_numeric ops (forms e (by simp))).bind fun x _ => ?_
    exact inductionHypothesis (fun other isOther => forms other (by simp [isOther])) _

/-- An operation on two numbers that gives an atom. -/
theorem refines_binary (builtin : Builtin) {combine : Float → Float → Expr}
    (isValue : ∀ x y, d.value (combine x y)) :
    d.Refines d.value (Arithmetic.binary operands builtin combine es)
      (Arithmetic.binary refined builtin combine es) := by
  match es, forms with
  | [first, second], forms =>
    refine (refines_numeric ops (forms first (by simp))).bind fun x _ => ?_
    refine (refines_numeric ops (forms second (by simp))).bind fun y _ => ?_
    exact keeps_pure (isValue x y)
  | [], _ => exact keeps_fail _
  | [_], _ => exact keeps_fail _
  | _ :: _ :: _ :: _, _ => exact keeps_fail _

/-- Conjunction. -/
theorem refines_all (soFar : Bool) :
    d.Refines d.value (Logic.all operands soFar es) (Logic.all refined soFar es) := by
  induction es generalizing soFar with
  | nil => exact keeps_pure (d.value_atom _)
  | cons e rest inductionHypothesis =>
    refine (refines_isTrue ops (forms e (by simp))).bind fun truth _ => ?_
    exact inductionHypothesis (fun other isOther => forms other (by simp [isOther])) _

/-- Disjunction. -/
theorem refines_any (soFar : Bool) :
    d.Refines d.value (Logic.any operands soFar es) (Logic.any refined soFar es) := by
  induction es generalizing soFar with
  | nil => exact keeps_pure (d.value_atom _)
  | cons e rest inductionHypothesis =>
    refine (refines_isTrue ops (forms e (by simp))).bind fun truth _ => ?_
    exact inductionHypothesis (fun other isOther => forms other (by simp [isOther])) _

/-- Negation. -/
theorem refines_negate :
    d.Refines d.value (Logic.negate operands es) (Logic.negate refined es) := by
  match es, forms with
  | [e], forms =>
    refine (ops.value (forms e (by simp))).bind fun value _ => ?_
    cases negation : Logic.negated? value with
    | none => exact keeps_fail _
    | some negated =>
      refine keeps_pure ?_
      unfold Logic.negated? at negation
      split at negation <;> cases negation <;> exact d.value_atom _
  | [], _ => exact keeps_fail _
  | _ :: _ :: _, _ => exact keeps_fail _

/-- Equality. -/
theorem refines_equal : d.Refines d.value (Logic.equal operands es) (Logic.equal refined es) := by
  match es, forms with
  | [first, second], forms =>
    refine (ops.value (forms first (by simp))).bind fun a _ => ?_
    refine (ops.value (forms second (by simp))).bind fun b _ => ?_
    exact refines_within ops.room_le _ (d.value_atom _)
  | [], _ => exact keeps_fail _
  | [_], _ => exact keeps_fail _
  | _ :: _ :: _ :: _, _ => exact keeps_fail _

end Several

end Discipline

end LispShell
