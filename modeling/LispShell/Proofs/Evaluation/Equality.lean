import LispShell.Proofs.Evaluation.Steps
import LispShell.Script.Run

/-! # Equality
The equality of the language takes the empty atom and the empty list for the same thing and is
structural otherwise. It is an equivalence, and an empty expression may be written in either way.
But the items of a list are compared as they are written: inside a list the one does not stand for
the other, and lists whose items are equal one by one need not be equal themselves. -/

namespace LispShell

namespace Expr

variable {a b c : Expr}

/-- What is empty is the empty atom or the empty list. -/
theorem isEmpty_iff : a.isEmpty = true ↔ a = .empty ∨ a = .list [] := by
  cases a with
  | atom text => simp [isEmpty]
  | call items => simp [isEmpty]
  | list items => simp [isEmpty]

/-- Two expressions are equal if they are the same, or both empty. -/
theorem equals_iff : a.equals b = true ↔ a = b ∨ a.isEmpty = true ∧ b.isEmpty = true := by
  rw [equals, Bool.or_eq_true, Bool.and_eq_true, Bool.and_eq_true, same_iff]
  constructor
  · rintro (⟨⟨-, isEmpty⟩, isEmptyToo⟩ | same)
    · exact .inr ⟨isEmpty, isEmptyToo⟩
    · exact .inl same
  · rintro (same | ⟨isEmpty, isEmptyToo⟩)
    · exact .inr same
    · -- two that are written in the same way are the same
      obtain ⟨rfl | rfl, rfl | rfl⟩ :=
        And.intro (isEmpty_iff.mp isEmpty) (isEmpty_iff.mp isEmptyToo)
      · exact .inr rfl
      · exact .inl ⟨⟨rfl, rfl⟩, rfl⟩
      · exact .inl ⟨⟨rfl, rfl⟩, rfl⟩
      · exact .inr rfl

/-- Every expression equals itself. -/
theorem equals_self (e : Expr) : e.equals e = true :=
  equals_iff.mpr (.inl rfl)

/-- Equality goes both ways. -/
theorem equals_symm (equal : a.equals b = true) : b.equals a = true := by
  obtain rfl | ⟨isEmpty, isEmptyToo⟩ := equals_iff.mp equal
  · exact equals_self a
  · exact equals_iff.mpr (.inr ⟨isEmptyToo, isEmpty⟩)

/-- What equals the same is equal. -/
theorem equals_trans (equal : a.equals b = true) (equalToo : b.equals c = true) :
    a.equals c = true := by
  obtain rfl | ⟨isEmpty, -⟩ := equals_iff.mp equal
  · exact equalToo
  · obtain rfl | ⟨-, isEmptyToo⟩ := equals_iff.mp equalToo
    · exact equal
    · exact equals_iff.mpr (.inr ⟨isEmpty, isEmptyToo⟩)

/-- Equality is an equivalence. -/
theorem equivalence_equals : Equivalence fun a b : Expr => a.equals b = true :=
  ⟨equals_self, equals_symm, equals_trans⟩

/-- One expression stands for another under equality if and only if the two are equal. -/
theorem forall_equals_eq_iff : (∀ other, b.equals other = a.equals other) ↔ b.equals a = true := by
  constructor
  · intro stands
    rw [stands a, equals_self]
  · intro equal other
    rw [Bool.eq_iff_iff]
    exact ⟨equals_trans (equals_symm equal), equals_trans equal⟩

/-- Lists are equal only if they are the same. -/
theorem equals_list_iff {items others : List Expr} :
    (list items).equals (list others) = true ↔ items = others := by
  rw [equals_iff]
  constructor
  · rintro (same | ⟨isEmpty, isEmptyToo⟩)
    · exact list.inj same
    · exact (List.isEmpty_iff.mp isEmpty).trans (List.isEmpty_iff.mp isEmptyToo).symm
  · rintro rfl
    exact .inl rfl

/-- Whether an expression is another with some empty atoms written as empty lists, and some empty
lists as empty atoms, wherever they stand. -/
inductive SwapsEmpties : (a swapped : Expr) → Prop
  /-- Nothing is written in another way. -/
  | unchanged (e : Expr) : SwapsEmpties e e
  /-- An empty atom is written as an empty list. -/
  | atom : SwapsEmpties .empty (.list [])
  /-- An empty list is written as an empty atom. -/
  | list : SwapsEmpties (.list []) .empty
  /-- The items of a list are written in another way. -/
  | items {items others : List Expr} :
    List.Forall₂ SwapsEmpties items others → SwapsEmpties (.list items) (.list others)
  /-- The items of a call are written in another way. -/
  | call {items others : List Expr} :
    List.Forall₂ SwapsEmpties items others → SwapsEmpties (.call items) (.call others)

/-- What is empty stays so when it is written in another way. -/
theorem SwapsEmpties.isEmpty {swapped : Expr} (swaps : SwapsEmpties a swapped)
    (isEmpty : a.isEmpty = true) : swapped.isEmpty = true := by
  cases swaps with
  | unchanged => exact isEmpty
  | atom => rfl
  | list => rfl
  | call => cases isEmpty
  | items areSwapped =>
    cases areSwapped with
    | nil => rfl
    | cons => cases isEmpty

/-- An expression whose empties are written in another way equals itself only if nothing has changed
or it is empty. -/
theorem SwapsEmpties.equals_iff {swapped : Expr} (swaps : SwapsEmpties a swapped) :
    swapped.equals a = true ↔ swapped = a ∨ a.isEmpty = true := by
  rw [Expr.equals_iff]
  constructor
  · rintro (same | ⟨-, isEmpty⟩)
    · exact .inl same
    · exact .inr isEmpty
  · rintro (same | isEmpty)
    · exact .inl same
    · exact .inr ⟨swaps.isEmpty isEmpty, isEmpty⟩

end Expr

namespace Evaluation

section

variable [OperatingSystem]

/-- A call of `=` compares the values of its operands. -/
theorem ends_run_equal {e other a b : Expr} {isLine : Bool} {course between after : Course}
    (isFirst : Run.Ends (fun limits => run limits false e) course (.ok a, between))
    (isSecond : Run.Ends (fun limits => run limits false other) between (.ok b, after)) :
    Run.Ends (fun limits => run limits isLine (.call [.atom "=", e, other])) course
      (.ok (.ofBool (a.equals b)), after) := by
  have isEqual : Builtin.ofName? "=" = some .equal := by decide
  obtain ⟨least, ended⟩ := exists_least_direct isFirst
  obtain ⟨leastToo, endedToo⟩ := exists_least_direct isSecond
  -- deep enough for the operands, with room to compare their values
  let depth := max (max least leastToo) (min a.height b.height)
  have applied : (Builtin.value ⟨depth, direct depth false⟩ .equal [e, other]).exec course =
      (.ok (.ofBool (a.equals b)), after) :=
    Builtin.exec_equal (ended depth (by omega)) (endedToo depth (by omega)) (Nat.le_max_right _ _)
  exact ends_run_builtin isEqual rfl applied trivial

/-- The empty atom and the empty list stand for each other at the root and nowhere else. Equality is
an equivalence; an expression with empties written in another way equals all that it equalled before
if nothing has changed or it is empty itself, and else it does not even equal what it was; and lists
are equal only if they are the same. And this is what `=` tells of the values of its operands. -/
theorem empties_are_interchangeable_at_root :
    (Equivalence fun a b : Expr => a.equals b = true) ∧
    (∀ a swapped : Expr, a.SwapsEmpties swapped →
      ((∀ b, swapped.equals b = a.equals b) ↔ swapped = a ∨ a.isEmpty = true) ∧
      (swapped.equals a = true ↔ swapped = a ∨ a.isEmpty = true)) ∧
    (∀ items others : List Expr,
      (Expr.list items).equals (.list others) = true ↔ items = others) ∧
    (∀ (e other a b : Expr) (course between after : Course),
      Run.Ends (fun limits => run limits false e) course (.ok a, between) →
      Run.Ends (fun limits => run limits false other) between (.ok b, after) → ∀ isLine,
        Run.Ends (fun limits => run limits isLine (.call [.atom "=", e, other])) course
          (.ok (.ofBool (a.equals b)), after)) := by
  refine ⟨Expr.equivalence_equals, ?swaps, fun items others => Expr.equals_list_iff, ?calls⟩
  case swaps =>
    intro a swapped swaps
    exact ⟨Expr.forall_equals_eq_iff.trans swaps.equals_iff, swaps.equals_iff⟩
  case calls =>
    intro e other a b course between after isFirst isSecond isLine
    exact ends_run_equal isFirst isSecond

end

/-- The empty atom and the empty list do not stand for each other inside a list, so lists whose
items are equal one by one need not be equal: `(= (list "") (list '()))` is false. -/
theorem empties_differ_inside_list :
    (¬ ∀ a b swapped : Expr, a.SwapsEmpties swapped → swapped.equals b = a.equals b) ∧
    (¬ ∀ items others : List Expr, List.Forall₂ (fun a b => a.equals b = true) items others →
      (Expr.list items).equals (.list others) = true) ∧
    ∀ isLine, Run.Ends (fun limits => run limits isLine
      (.call [.atom "=", .call [.atom "list", .empty], .call [.atom "list", .list []]])) .fresh
      (.ok (.ofBool false), .fresh) := by
  have differ : (Expr.list [.list []]).equals (.list [.empty]) = false := by decide
  refine ⟨fun stands => ?_, fun areEqual => ?_, fun isLine => ?_⟩
  · have areSwapped : (Expr.list [.list []]).SwapsEmpties (.list [.empty]) :=
      .items (.cons .list .nil)
    have same := stands _ (.list [.list []]) _ areSwapped
    rw [Expr.equals_self] at same
    exact absurd same (by decide)
  · have equal := areEqual [.list []] [.empty] (.cons rfl .nil)
    rw [differ] at equal
    cases equal
  · exact ⟨⟨9, 9⟩, by cases isLine <;> rfl, trivial⟩

end Evaluation

end LispShell
