import LispShell.Expr.Basic

/-! # Shapes of expressions
Data has no pending syntax in it at any depth, and pure syntax has no lists. A proper form may be
pending syntax, but below its lists there is only data. -/

namespace LispShell

namespace Expr

mutual
/-- Whether there is no call at any depth. -/
def isData : Expr → Bool
  | .atom _ => true
  | .call _ => false
  | .list items => areData items

/-- Whether there is no call at any depth in a row of expressions. -/
def areData : List Expr → Bool
  | [] => true
  | item :: rest => item.isData && areData rest
end

mutual
/-- Whether there is no list at any depth. -/
def isSyntax : Expr → Bool
  | .atom _ => true
  | .call items => areSyntax items
  | .list _ => false

/-- Whether there is no list at any depth in a row of expressions. -/
def areSyntax : List Expr → Bool
  | [] => true
  | item :: rest => item.isSyntax && areSyntax rest
end

mutual
/-- Whether there is no call below a list. -/
def isProper : Expr → Bool
  | .atom _ => true
  | .call items => areProper items
  | .list items => areData items

/-- Whether there is no call below a list in a row of expressions. -/
def areProper : List Expr → Bool
  | [] => true
  | item :: rest => item.isProper && areProper rest
end

/-- A row is data if every item is. -/
theorem areData_iff (items : List Expr) : areData items = true ↔ ∀ item ∈ items, item.isData := by
  induction items with
  | nil => simp [areData]
  | cons item rest inductionHypothesis => simp [areData, inductionHypothesis]

/-- A row is pure syntax if every item is. -/
theorem areSyntax_iff (items : List Expr) :
    areSyntax items = true ↔ ∀ item ∈ items, item.isSyntax := by
  induction items with
  | nil => simp [areSyntax]
  | cons item rest inductionHypothesis => simp [areSyntax, inductionHypothesis]

/-- A row is proper if every item is. -/
theorem areProper_iff (items : List Expr) :
    areProper items = true ↔ ∀ item ∈ items, item.isProper := by
  induction items with
  | nil => simp [areProper]
  | cons item rest inductionHypothesis => simp [areProper, inductionHypothesis]

/-- An atom is data. -/
@[simp] theorem isData_atom (text : String) : (atom text).isData = true := by
  simp [isData]

/-- A call is not data. -/
@[simp] theorem isData_call (items : List Expr) : (call items).isData = false := by
  simp [isData]

/-- A list is data if every item is. -/
@[simp] theorem isData_list (items : List Expr) :
    (list items).isData = true ↔ ∀ item ∈ items, item.isData := by
  rw [isData, areData_iff]

/-- An atom is proper. -/
@[simp] theorem isProper_atom (text : String) : (atom text).isProper = true := by
  simp [isProper]

/-- A call is proper if every item is. -/
@[simp] theorem isProper_call (items : List Expr) :
    (call items).isProper = true ↔ ∀ item ∈ items, item.isProper := by
  rw [isProper, areProper_iff]

/-- A list is proper only as data. -/
@[simp] theorem isProper_list (items : List Expr) :
    (list items).isProper = (list items).isData := by
  rw [isProper, isData]

/-- Data is proper. -/
theorem isProper_of_isData {e : Expr} (isData : e.isData) : e.isProper := by
  cases e with
  | atom text => simp
  | call items => simp at isData
  | list items => simpa using isData

/-- A quoted proper form is data. -/
theorem isData_toData {e : Expr} (isProper : e.isProper) : e.toData.isData := by
  induction e with
  | atom text => simp [toData]
  | call items inductionHypothesis =>
    rw [toData, toDataAll_eq_map, isData_list]
    intro quoted isIn
    obtain ⟨item, isItem, rfl⟩ := List.mem_map.mp isIn
    exact inductionHypothesis item isItem ((isProper_call items).mp isProper item isItem)
  | list items => simpa [toData] using isProper

mutual
/-- A quoted form has the height that it had. -/
theorem height_toData (e : Expr) : e.toData.height = e.height := by
  match e with
  | .atom text => rfl
  | .call items => rw [toData, height, height, heightOfAll_toDataAll items]
  | .list items => rfl

/-- Quoted forms have the height that they had. -/
theorem heightOfAll_toDataAll (items : List Expr) :
    heightOfAll (toDataAll items) = heightOfAll items := by
  match items with
  | [] => rfl
  | item :: rest =>
    rw [toDataAll, heightOfAll, heightOfAll, height_toData item, heightOfAll_toDataAll rest]
end

/-! ## Lists inside lists -/

/-- An expression in so many lists, one inside the other. -/
def wrapped (e : Expr) : (count : Nat) → Expr
  | 0 => e
  | count + 1 => .list [e.wrapped count]

/-- Every list around an expression is one level more. -/
theorem height_wrapped (e : Expr) (count : Nat) : (e.wrapped count).height = e.height + count := by
  induction count with
  | zero => rfl
  | succ count inductionHypothesis =>
    rw [wrapped, height, heightOfAll, heightOfAll, inductionHypothesis, Nat.max_zero, Nat.add_assoc]

/-- Lists around an expression leave its text alone. -/
theorem flatten_wrapped (e : Expr) (count : Nat) : (e.wrapped count).flatten = e.flatten := by
  induction count with
  | zero => rfl
  | succ count inductionHypothesis =>
    rw [wrapped, flatten, flattenAll, flattenAll, inductionHypothesis, String.append_empty]

end Expr

end LispShell
