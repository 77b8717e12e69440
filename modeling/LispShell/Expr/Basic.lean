/-! # Expressions
The single data type of the shell: pending syntax and evaluated data alike. An atom is a piece of
text, a call is syntax waiting to be evaluated, a list is data. -/

namespace LispShell

/-- An expression: an atom, a pending call or a list of data. -/
inductive Expr where
  /-- A scalar; text, number and truth value all at once. -/
  | atom (text : String)
  /-- Pending syntax, head first. -/
  | call (items : List Expr)
  /-- Evaluated data. -/
  | list (items : List Expr)
  deriving Inhabited, Repr

namespace Expr

/-- The empty atom: the value of a command that has nothing to say. -/
abbrev empty : Expr := .atom ""

/-- The atom of a truth value. -/
def ofBool (truth : Bool) : Expr :=
  .atom (if truth then "true" else "false")

mutual
/-- The texts of all atoms, from left to right. -/
def atoms : Expr → List String
  | .atom text => [text]
  | .call items => atomsOfAll items
  | .list items => atomsOfAll items

/-- The texts of all atoms of a row of expressions. -/
def atomsOfAll : List Expr → List String
  | [] => []
  | item :: rest => item.atoms ++ atomsOfAll rest
end

mutual
/-- The flattened text: all atoms joined without separators. -/
def flatten : Expr → String
  | .atom text => text
  | .call items => flattenAll items
  | .list items => flattenAll items

/-- The flattened text of a row of expressions. -/
def flattenAll : List Expr → String
  | [] => ""
  | item :: rest => item.flatten ++ flattenAll rest
end

/-- The number of characters of the flattened text. -/
def size (e : Expr) : Nat :=
  e.flatten.length

mutual
/-- The number of levels of nesting; an atom has one. -/
def height : Expr → Nat
  | .atom _ => 1
  | .call items => heightOfAll items + 1
  | .list items => heightOfAll items + 1

/-- The greatest height in a row of expressions. -/
def heightOfAll : List Expr → Nat
  | [] => 0
  | item :: rest => max item.height (heightOfAll rest)
end

mutual
/-- The number of levels of pending syntax; what is below a list does not count. -/
def callHeight : Expr → Nat
  | .atom _ => 1
  | .call items => callHeightOfAll items + 1
  | .list _ => 1

/-- The greatest number of levels of pending syntax in a row of expressions. -/
def callHeightOfAll : List Expr → Nat
  | [] => 0
  | item :: rest => max item.callHeight (callHeightOfAll rest)
end

mutual
/-- Puts `value` in place of every atom spelled `name` in pending syntax. Lists are data and stay
as they are. -/
def substitute : Expr → (name : String) → (value : Expr) → Expr
  | .atom text, name, value => if text = name then value else .atom text
  | .call items, name, value => .call (substituteAll items name value)
  | .list items, _, _ => .list items

/-- Substitution in each of a row of expressions. -/
def substituteAll : List Expr → (name : String) → (value : Expr) → List Expr
  | [], _, _ => []
  | item :: rest, name, value => item.substitute name value :: substituteAll rest name value
end

mutual
/-- Turns pending syntax into data. Lists are data already. -/
def toData : Expr → Expr
  | .atom text => .atom text
  | .call items => .list (toDataAll items)
  | .list items => .list items

/-- Turns each of a row of expressions into data. -/
def toDataAll : List Expr → List Expr
  | [] => []
  | item :: rest => item.toData :: toDataAll rest
end

mutual
/-- Structural equality. -/
def same : Expr → Expr → Bool
  | .atom a, .atom b => a == b
  | .call as, .call bs => sameAll as bs
  | .list as, .list bs => sameAll as bs
  | _, _ => false

/-- Structural equality of two rows of expressions. -/
def sameAll : List Expr → List Expr → Bool
  | [], [] => true
  | a :: as, b :: bs => a.same b && sameAll as bs
  | _, _ => false
end

instance : BEq Expr := ⟨same⟩

/-- Whether the expression is the empty atom or the empty list. -/
def isEmpty : Expr → Bool
  | .atom text => text == ""
  | .list items => items.isEmpty
  | .call _ => false

/-- Whether the expression is an atom. -/
def isAtom : Expr → Bool
  | .atom _ => true
  | _ => false

/-- The equality of the language: structural, save that the empty atom and the empty list are the
same "no value". -/
def equals (a b : Expr) : Bool :=
  (a.isAtom != b.isAtom && a.isEmpty && b.isEmpty) || a.same b

/-- The direct items of a call or a list; an atom has none to give. -/
def items? : Expr → Option (List Expr)
  | .atom _ => none
  | .call items => some items
  | .list items => some items

theorem atomsOfAll_eq_flatMap (items : List Expr) : atomsOfAll items = items.flatMap atoms := by
  induction items with
  | nil => rfl
  | cons item rest inductionHypothesis => simp [atomsOfAll, inductionHypothesis]

/-- What holds of all atoms of a row holds of those of each item. -/
theorem forall_atoms_of_mem {p : String → Prop} {items : List Expr}
    (holds : ∀ text ∈ atomsOfAll items, p text) {item : Expr} (isIn : item ∈ items) :
    ∀ text ∈ item.atoms, p text := by
  intro text isAtom
  apply holds
  rw [atomsOfAll_eq_flatMap]
  exact List.mem_flatMap.mpr ⟨item, isIn, isAtom⟩

theorem substituteAll_eq_map (items : List Expr) (name : String) (value : Expr) :
    substituteAll items name value = items.map (·.substitute name value) := by
  induction items with
  | nil => rfl
  | cons item rest inductionHypothesis => simp [substituteAll, inductionHypothesis]

theorem toDataAll_eq_map (items : List Expr) : toDataAll items = items.map toData := by
  induction items with
  | nil => rfl
  | cons item rest inductionHypothesis => simp [toDataAll, inductionHypothesis]

/-- Induction over an expression: what holds of a call or a list follows from what holds of its
items. -/
@[elab_as_elim, induction_eliminator]
theorem inductionOnItems {motive : Expr → Prop} (atom : ∀ text, motive (.atom text))
    (call : ∀ items, (∀ item ∈ items, motive item) → motive (.call items))
    (list : ∀ items, (∀ item ∈ items, motive item) → motive (.list items)) :
    ∀ e, motive e
  | .atom text => atom text
  | .call items => call items fun item _ => inductionOnItems atom call list item
  | .list items => list items fun item _ => inductionOnItems atom call list item

mutual
/-- Structural equality is equality. -/
theorem same_iff (a b : Expr) : a.same b = true ↔ a = b := by
  cases a <;> cases b <;> simp [same, sameAll_iff]

/-- Structural equality of rows is equality. -/
theorem sameAll_iff (as bs : List Expr) : sameAll as bs = true ↔ as = bs := by
  match as, bs with
  | [], [] => simp [sameAll]
  | [], _ :: _ => simp [sameAll]
  | _ :: _, [] => simp [sameAll]
  | a :: as, b :: bs => simp [sameAll, same_iff a b, sameAll_iff as bs]
end

instance : LawfulBEq Expr where
  eq_of_beq {a b} equal := (same_iff a b).mp equal
  rfl {a} := (same_iff a a).mpr rfl

instance : DecidableEq Expr := fun a b =>
  decidable_of_iff _ (same_iff a b)

end Expr

end LispShell
