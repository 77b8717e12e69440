import LispShell.Proofs.Evaluation.Definitions

/-! # Builtins under a discipline
Every builtin does the same with more room, and keeps a discipline if the evaluation of its operands
does. -/

namespace LispShell

namespace Discipline

variable [OperatingSystem] {d : Discipline}

/-! ## Sequences -/

section Sequences

variable {value : Expr}

/-- The first item of a value is a value. -/
theorem value_of_first? (isValue : d.value value) {item : Expr}
    (hasFirst : Sequence.first? value = .ok item) : d.value item := by
  unfold Sequence.first? at hasFirst
  split at hasFirst
  · cases hasFirst
  · cases hasFirst
    exact (d.value_list _).mp isValue _ (by simp)
  · split at hasFirst <;> cases hasFirst
    exact d.value_atom _
  · cases hasFirst

/-- What is left of a value without its first item is a value. -/
theorem value_of_rest? (isValue : d.value value) {others : Expr}
    (hasRest : Sequence.rest? value = .ok others) : d.value others := by
  unfold Sequence.rest? at hasRest
  split at hasRest <;> cases hasRest
  · exact (d.value_list _).mpr fun item isIn =>
      (d.value_list _).mp isValue item (List.mem_of_mem_tail isIn)
  · exact d.value_atom _

/-- A value put before a value gives a value. -/
theorem value_of_cons? {item sequence longer : Expr} (isItem : d.value item)
    (isSequence : d.value sequence) (put : Sequence.cons? item sequence = .ok longer) :
    d.value longer := by
  have single : d.value (.list [item]) := (d.value_list _).mpr (by simpa using isItem)
  unfold Sequence.cons? at put
  split at put
  · cases put
    split
    · exact isItem
    · exact single
  · split at put
    · cases put
      exact d.value_atom _
    · split at put <;> cases put
      exact single
  · cases put
    refine (d.value_list _).mpr (List.forall_mem_cons.mpr ⟨isItem, ?_⟩)
    exact (d.value_list _).mp isSequence
  · split at put <;> cases put
    exact single
  · cases put

end Sequences

variable {operands refined : Operands} (ops : d.RefinesOperands operands refined)
include ops

variable {es : List Expr} (forms : ∀ e ∈ es, d.form e)
include forms

/-- An operation on the only operand. -/
theorem refines_unary (builtin : Builtin) {operation : Expr → Except Fault Expr}
    (isValue : ∀ {value result}, d.value value → operation value = .ok result → d.value result) :
    d.Refines d.value (Sequence.unary operands builtin operation es)
      (Sequence.unary refined builtin operation es) := by
  match es, forms with
  | [e], forms =>
    refine (ops.value (forms e (by simp))).bind fun value isOperand => ?_
    have attempts : d.Refines (fun attempt => ∀ result, attempt = .ok result → d.value result)
        (Operands.within operands.room (Sequence.reportedLevels value) (operation value))
        (Operands.within refined.room (Sequence.reportedLevels value) (operation value)) :=
      refines_within ops.room_le _ fun result => isValue isOperand
    exact attempts.bind fun attempt promised => keeps_ofExcept promised
  | [], _ => exact keeps_fail _
  | _ :: _ :: _, _ => exact keeps_fail _

/-- The list of the values of the operands. -/
theorem refines_list :
    d.Refines d.value (Sequence.list operands es) (Sequence.list refined es) := by
  refine (refines_mapM fun e isIn => ops.value (forms e isIn)).bind fun values areValues => ?_
  exact keeps_pure ((d.value_list values).mpr areValues)

/-- One value put before another. -/
theorem refines_cons :
    d.Refines d.value (Sequence.cons operands es) (Sequence.cons refined es) := by
  match es, forms with
  | [first, second], forms =>
    refine (ops.value (forms first (by simp))).bind fun item isItem => ?_
    refine (ops.value (forms second (by simp))).bind fun sequence isSequence => ?_
    exact keeps_ofExcept fun longer put => value_of_cons? isItem isSequence put
  | [], _ => exact keeps_fail _
  | [_], _ => exact keeps_fail _
  | _ :: _ :: _ :: _, _ => exact keeps_fail _

/-! ## The world -/

omit ops forms in
/-- Entering the directory at a path. -/
theorem keeps_enterAt (path : String) : d.Keeps d.value (Environment.enterAt path) := by
  refine (keeps_tryPerform (fun _ _ _ entered => .enter entered) rfl).bind fun _ _ => ?_
  refine (keeps_consult _ _).bind fun here _ => ?_
  exact (keeps_perform (fun _ _ => .setVariable) rfl).bind fun _ _ => keeps_pure (d.value_atom _)

/-- Entering a directory. -/
theorem refines_enter :
    d.Refines d.value (Environment.enter operands es) (Environment.enter refined es) := by
  match es, forms with
  | [], _ => exact (keeps_consult _ _).bind fun home _ => keeps_enterAt home
  | [e], forms => exact (refines_text ops (forms e (by simp))).bind fun path _ => keeps_enterAt path
  | _ :: _ :: _, _ => exact keeps_fail _

/-- Ending the session. -/
theorem refines_exit :
    d.Refines d.value (Environment.exit operands es) (Environment.exit refined es) := by
  match es, forms with
  | [], _ => exact keeps_throw _
  | [e], forms =>
    refine (ops.value (forms e (by simp))).bind fun value _ => ?_
    refine (refines_number ops.room_le value).bind fun status _ => ?_
    split
    · exact keeps_throw _
    · exact keeps_fail _
  | _ :: _ :: _, _ => exact keeps_fail _

/-- Reading a variable. -/
theorem refines_getVariable :
    d.Refines d.value (Environment.getVariable operands es)
      (Environment.getVariable refined es) := by
  match es, forms with
  | [e], forms =>
    refine (refines_text ops (forms e (by simp))).bind fun name _ => ?_
    refine (keeps_consult _ _).bind fun _ _ => keeps_world.bind fun world _ => ?_
    split
    · exact keeps_pure (d.value_atom _)
    · exact keeps_fail _
  | [], _ => exact keeps_fail _
  | _ :: _ :: _, _ => exact keeps_fail _

/-- Setting a variable. -/
theorem refines_setVariable :
    d.Refines d.value (Environment.setVariable operands es)
      (Environment.setVariable refined es) := by
  match es, forms with
  | [target, e], forms =>
    refine (refines_text ops (forms target (by simp))).bind fun name _ => ?_
    refine (refines_text ops (forms e (by simp))).bind fun value _ => ?_
    refine keeps_world.bind fun world _ => ?_
    split
    · exact keeps_fail _
    · refine (keeps_perform (fun _ _ => .setVariable) rfl).bind fun _ _ => ?_
      exact keeps_pure (d.value_atom _)
  | [], _ => exact keeps_fail _
  | [_], _ => exact keeps_fail _
  | _ :: _ :: _ :: _, _ => exact keeps_fail _

/-- Storing a text. -/
theorem refines_store (builtin : Builtin) (mode : FileTree.WriteMode) :
    d.Refines d.value (Environment.store operands builtin mode es)
      (Environment.store refined builtin mode es) := by
  match es, forms with
  | [first, second], forms =>
    refine (refines_text ops (forms first (by simp))).bind fun content _ => ?_
    refine (refines_text ops (forms second (by simp))).bind fun path _ => ?_
    refine (keeps_tryPerform (fun _ _ _ stored => .store stored) rfl).bind fun _ _ => ?_
    exact keeps_pure (d.value_atom _)
  | [], _ => exact keeps_fail _
  | [_], _ => exact keeps_fail _
  | _ :: _ :: _ :: _, _ => exact keeps_fail _

/-- Reading a file. -/
theorem refines_read :
    d.Refines d.value (Environment.read operands es) (Environment.read refined es) := by
  match es, forms with
  | [e], forms =>
    refine (refines_text ops (forms e (by simp))).bind fun path _ => ?_
    exact (keeps_consult _ _).bind fun content _ => keeps_pure (d.value_atom _)
  | [], _ => exact keeps_fail _
  | _ :: _ :: _, _ => exact keeps_fail _

/-! ## All builtins -/

/-- A choice comes to one of its branches. -/
theorem refines_choose :
    d.Refines d.form (Builtin.choose operands es) (Builtin.choose refined es) := by
  match es, forms with
  | [condition, consequent, alternative], forms =>
    refine (refines_isTrue ops (forms condition (by simp))).bind fun truth _ => keeps_pure ?_
    split
    · exact forms consequent (by simp)
    · exact forms alternative (by simp)
  | [], _ => exact keeps_fail _
  | [_], _ => exact keeps_fail _
  | [_, _], _ => exact keeps_fail _
  | _ :: _ :: _ :: _ :: _, _ => exact keeps_fail _

/-- Local bindings come to their body. -/
theorem refines_bindLocally :
    d.Refines d.form (Builtin.bindLocally operands es) (Builtin.bindLocally refined es) := by
  match es, forms with
  | [written, body], forms =>
    refine (refines_bindings ops (forms written (by simp))).bind fun pairs areForms => ?_
    exact refines_substituteBindings ops (forms body (by simp)) areForms
  | [], _ => exact keeps_fail _
  | [_], _ => exact keeps_fail _
  | _ :: _ :: _ :: _, _ => exact keeps_fail _

/-- What a builtin gives is a value, or a form if it ends in a branch. -/
theorem refines_builtinValue (builtin : Builtin) :
    d.Refines (fun result => if builtin.endsInBranch then d.form result else d.value result)
      (builtin.value operands es) (builtin.value refined es) := by
  cases builtin with
  | add => exact refines_fold ops forms _ _
  | multiply => exact refines_fold ops forms _ _
  | subtract => exact refines_binary ops forms _ fun _ _ => d.value_atom _
  | divide => exact refines_binary ops forms _ fun _ _ => d.value_atom _
  | remainder => exact refines_binary ops forms _ fun _ _ => d.value_atom _
  | power => exact refines_binary ops forms _ fun _ _ => d.value_atom _
  | less => exact refines_binary ops forms _ fun _ _ => d.value_atom _
  | greater => exact refines_binary ops forms _ fun _ _ => d.value_atom _
  | lessOrEqual => exact refines_binary ops forms _ fun _ _ => d.value_atom _
  | greaterOrEqual => exact refines_binary ops forms _ fun _ _ => d.value_atom _
  | equal => exact refines_equal ops forms
  | ifThenElse => exact refines_choose ops forms
  | all => exact refines_all ops forms true
  | any => exact refines_any ops forms false
  | negate => exact refines_negate ops forms
  | first => exact refines_unary ops forms _ fun isValue => value_of_first? isValue
  | rest => exact refines_unary ops forms _ fun isValue => value_of_rest? isValue
  | list => exact refines_list ops forms
  | cons => exact refines_cons ops forms
  | define => exact refines_define ops forms
  | defineFunction => exact refines_defineFunction ops forms
  | defineAlias => exact refines_defineAlias ops es
  | bind => exact refines_bindLocally ops forms
  | enter => exact refines_enter ops forms
  | exit => exact refines_exit ops forms
  | getVariable => exact refines_getVariable ops forms
  | setVariable => exact refines_setVariable ops forms
  | write => exact refines_store ops forms _ _
  | append => exact refines_store ops forms _ _
  | read => exact refines_read ops forms

omit ops forms in
variable (d) in
/-- What holds of what applying a builtin comes to: of its value or of its branch. -/
def applied : Applied → Prop
  | .value result => d.value result
  | .branch e => d.form e

/-- Applying a builtin comes to a value or to a branch that is a form. -/
theorem refines_apply (builtin : Builtin) :
    d.Refines d.applied (builtin.apply operands es) (builtin.apply refined es) := by
  refine (refines_builtinValue ops forms builtin).bind fun result isGood => keeps_pure ?_
  cases endsInBranch : builtin.endsInBranch <;> simpa [applied, endsInBranch] using isGood

end Discipline

end LispShell
