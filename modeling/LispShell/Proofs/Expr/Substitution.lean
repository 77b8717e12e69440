import LispShell.Expr.Basic

/-! # Substitution at once
Names are replaced one after the other, so what is put in place of one name could be taken for the
next. Substitution at once is what is meant: every atom is looked at once. Replacing one name after
the other comes to it as long as no value that is put in holds a later name, and two substitutions
at once come to one that puts in the values with the second substitution made in them. A name that
is replaced by another is replaced with it by what then takes the place of that. -/

namespace LispShell

/-- What is found in a table whose values have been changed is the changed value. -/
theorem lookup_map_value {α β : Type} (f : α → β) (entries : List (String × α)) (key : String) :
    (entries.map fun entry => (entry.1, f entry.2)).lookup key = (entries.lookup key).map f := by
  induction entries with
  | nil => rfl
  | cons entry rest inductionHypothesis =>
    rw [List.map_cons, List.lookup_cons, List.lookup_cons, inductionHypothesis]
    cases key == entry.1 <;> rfl

namespace Expr

mutual
/-- Puts values in place of names in pending syntax, all at once: an atom gives way to the value of
the first binding of its text. Lists are data and stay as they are. -/
def substituteAtOnce (bindings : List (String × Expr)) : Expr → Expr
  | .atom text => (bindings.lookup text).getD (.atom text)
  | .call items => .call (substituteAllAtOnce bindings items)
  | .list items => .list items

/-- Substitution at once in each of a row of expressions. -/
def substituteAllAtOnce (bindings : List (String × Expr)) : List Expr → List Expr
  | [] => []
  | item :: rest => item.substituteAtOnce bindings :: substituteAllAtOnce bindings rest
end

mutual
/-- The texts of the atoms of pending syntax; what is below a list does not count. -/
def spelled : Expr → List String
  | .atom text => [text]
  | .call items => spelledInAll items
  | .list _ => []

/-- The texts of the atoms of pending syntax in a row of expressions. -/
def spelledInAll : List Expr → List String
  | [] => []
  | item :: rest => item.spelled ++ spelledInAll rest
end

theorem substituteAllAtOnce_eq_map (bindings : List (String × Expr)) (items : List Expr) :
    substituteAllAtOnce bindings items = items.map (substituteAtOnce bindings) := by
  induction items with
  | nil => rfl
  | cons item rest inductionHypothesis => simp [substituteAllAtOnce, inductionHypothesis]

theorem spelledInAll_eq_flatMap (items : List Expr) :
    spelledInAll items = items.flatMap spelled := by
  induction items with
  | nil => rfl
  | cons item rest inductionHypothesis => simp [spelledInAll, inductionHypothesis]

/-- An atom gives way to the value of the first binding of its text. -/
@[simp] theorem substituteAtOnce_atom (bindings : List (String × Expr)) (text : String) :
    (atom text).substituteAtOnce bindings = (bindings.lookup text).getD (.atom text) := by
  rw [substituteAtOnce]

/-- Substitution at once goes on into every item of a call. -/
@[simp] theorem substituteAtOnce_call (bindings : List (String × Expr)) (items : List Expr) :
    (call items).substituteAtOnce bindings = .call (items.map (substituteAtOnce bindings)) := by
  rw [substituteAtOnce, substituteAllAtOnce_eq_map]

/-- Substitution at once leaves lists alone. -/
@[simp] theorem substituteAtOnce_list (bindings : List (String × Expr)) (items : List Expr) :
    (list items).substituteAtOnce bindings = .list items := by
  rw [substituteAtOnce]

/-- Where no bound name is spelled, nothing is put in. -/
theorem substituteAtOnce_of_unspelled {bindings : List (String × Expr)} {e : Expr}
    (unspelled : ∀ text ∈ e.spelled, bindings.lookup text = none) :
    e.substituteAtOnce bindings = e := by
  induction e with
  | atom text => simp [unspelled text (by simp [spelled])]
  | call items inductionHypothesis =>
    have sameItems : ∀ item ∈ items, item.substituteAtOnce bindings = item := by
      intro item isItem
      refine inductionHypothesis item isItem fun text isSpelled => unspelled text ?_
      rw [spelled, spelledInAll_eq_flatMap]
      exact List.mem_flatMap.mpr ⟨item, isItem, isSpelled⟩
    rw [substituteAtOnce_call, List.map_congr_left sameItems, List.map_id']
  | list items => simp

/-- One name after the others: to replace a name and then the others at once is to replace all of
them at once, if the others leave the value of the name as it is. -/
theorem substituteAtOnce_substitute {name : String} {value : Expr}
    {bindings : List (String × Expr)} (kept : value.substituteAtOnce bindings = value) (e : Expr) :
    (e.substitute name value).substituteAtOnce bindings =
      e.substituteAtOnce ((name, value) :: bindings) := by
  induction e with
  | atom text =>
    rw [substitute, substituteAtOnce_atom, List.lookup_cons]
    by_cases isName : text = name
    · simp [isName, kept]
    · simp [isName, beq_false_of_ne isName]
  | call items inductionHypothesis =>
    simpa [substitute, substituteAll_eq_map] using inductionHypothesis
  | list items => simp [substitute]

/-- To replace names one after the other is to replace them all at once, if no value that is put in
spells any of them. -/
theorem foldl_substitute_eq_substituteAtOnce {bindings : List (String × Expr)}
    (inert : ∀ binding ∈ bindings, ∀ text ∈ binding.2.spelled, bindings.lookup text = none)
    (e : Expr) :
    bindings.foldl (fun body binding => body.substitute binding.1 binding.2) e =
      e.substituteAtOnce bindings := by
  induction bindings generalizing e with
  | nil => exact (substituteAtOnce_of_unspelled fun text _ => List.lookup_nil).symm
  | cons binding rest inductionHypothesis =>
    have inertRest : ∀ other ∈ binding :: rest, ∀ text ∈ other.2.spelled,
        rest.lookup text = none := by
      intro other isIn text isSpelled
      have unbound := List.lookup_eq_none_iff.mp (inert other isIn text isSpelled)
      exact List.lookup_eq_none_iff.mpr (List.forall_mem_cons.mp unbound).2
    have kept : binding.2.substituteAtOnce rest = binding.2 :=
      substituteAtOnce_of_unspelled (inertRest binding (by simp))
    rw [List.foldl_cons, inductionHypothesis fun other isIn => inertRest other (by simp [isIn])]
    exact substituteAtOnce_substitute kept e

/-- Two substitutions at once come to one, if the second leaves alone what the first does. -/
theorem substituteAtOnce_substituteAtOnce {first second : List (String × Expr)} {e : Expr}
    (apart : ∀ text ∈ e.spelled, first.lookup text = none → second.lookup text = none) :
    (e.substituteAtOnce first).substituteAtOnce second =
      e.substituteAtOnce
        (first.map fun binding => (binding.1, binding.2.substituteAtOnce second)) := by
  induction e with
  | atom text =>
    rw [substituteAtOnce_atom, substituteAtOnce_atom, lookup_map_value]
    cases found : first.lookup text with
    | none => simp [apart text (by simp [spelled]) found]
    | some value => simp
  | call items inductionHypothesis =>
    simp only [substituteAtOnce_call, List.map_map, call.injEq, List.map_inj_left]
    intro item isItem
    refine inductionHypothesis item isItem fun text isSpelled => apart text ?_
    rw [spelled, spelledInAll_eq_flatMap]
    exact List.mem_flatMap.mpr ⟨item, isItem, isSpelled⟩
  | list items => simp

/-! ## One name -/

/-- To replace one name is to replace it at once. -/
theorem substitute_eq_substituteAtOnce (name : String) (value e : Expr) :
    e.substitute name value = e.substituteAtOnce [(name, value)] := by
  have isKept (other : Expr) : other.substituteAtOnce [] = other :=
    substituteAtOnce_of_unspelled fun _ _ => List.lookup_nil
  rw [← substituteAtOnce_substitute (isKept value), isKept]

/-- A name that is not spelled is not bound by an only binding of it. -/
theorem lookup_of_unspelled {name text : String} {e : Expr} (unspelled : name ∉ e.spelled)
    (isSpelled : text ∈ e.spelled) (value : Expr) : [(name, value)].lookup text = none := by
  have differs : text ≠ name := fun isName => unspelled (isName ▸ isSpelled)
  rw [List.lookup_cons, beq_false_of_ne differs, List.lookup_nil]

/-- A name that is not spelled is not replaced. -/
theorem substitute_of_unspelled {name : String} {e : Expr} (unspelled : name ∉ e.spelled)
    (value : Expr) : e.substitute name value = e := by
  rw [substitute_eq_substituteAtOnce]
  exact substituteAtOnce_of_unspelled fun text isSpelled =>
    lookup_of_unspelled unspelled isSpelled value

/-- A name replaced by itself stays. -/
theorem substitute_atom_self (name : String) (e : Expr) : e.substitute name (.atom name) = e := by
  induction e with
  | atom text =>
    rw [substitute]
    split
    next isName => rw [isName]
    next => rfl
  | call items inductionHypothesis =>
    rw [substitute, substituteAll_eq_map, List.map_congr_left inductionHypothesis, List.map_id']
  | list items => rw [substitute]

/-- To replace a name by another and that by a value is to replace both by the value. -/
theorem substitute_substitute_atom (name other : String) (value e : Expr) :
    (e.substitute name (.atom other)).substitute other value =
      e.substituteAtOnce [(name, value), (other, value)] := by
  induction e with
  | atom text =>
    rw [substituteAtOnce_atom, List.lookup_cons, List.lookup_cons, List.lookup_nil, substitute]
    by_cases isName : text = name
    · simp [isName, substitute]
    · rw [if_neg isName, substitute, beq_false_of_ne isName]
      by_cases isOther : text = other
      · simp [isOther]
      · simp [isOther, beq_false_of_ne isOther]
  | call items inductionHypothesis =>
    simpa [substitute, substituteAll_eq_map] using inductionHypothesis
  | list items => simp [substitute]

/-- To replace a name by another that is not spelled and that by a value is to replace the name by
the value. -/
theorem substitute_substitute_of_unspelled {other : String} {e : Expr}
    (unspelled : other ∉ e.spelled) (name : String) (value : Expr) :
    (e.substitute name (.atom other)).substitute other value = e.substitute name value := by
  have apart : ∀ text ∈ e.spelled, [(name, Expr.atom other)].lookup text = none →
      [(other, value)].lookup text = none :=
    fun text isSpelled _ => lookup_of_unspelled unspelled isSpelled value
  rw [substitute_eq_substituteAtOnce name, substitute_eq_substituteAtOnce,
    substituteAtOnce_substituteAtOnce apart, substitute_eq_substituteAtOnce]
  simp

/-! ## Levels -/

mutual
/-- A value put in place of a name adds no level of pending syntax unless it is pending syntax
itself. -/
theorem callHeight_substitute {value : Expr} (isFlat : value.callHeight = 1) (name : String)
    (e : Expr) : (e.substitute name value).callHeight = e.callHeight := by
  match e with
  | .atom text =>
    rw [substitute]
    split
    · rw [isFlat, callHeight]
    · rfl
  | .call items =>
    rw [substitute, callHeight, callHeight, callHeightOfAll_substituteAll isFlat name items]
  | .list items => rw [substitute]

/-- The same of a row of expressions. -/
theorem callHeightOfAll_substituteAll {value : Expr} (isFlat : value.callHeight = 1)
    (name : String) (items : List Expr) :
    callHeightOfAll (substituteAll items name value) = callHeightOfAll items := by
  match items with
  | [] => rfl
  | item :: rest =>
    rw [substituteAll, callHeightOfAll, callHeightOfAll, callHeight_substitute isFlat name item,
      callHeightOfAll_substituteAll isFlat name rest]
end

end Expr

end LispShell
