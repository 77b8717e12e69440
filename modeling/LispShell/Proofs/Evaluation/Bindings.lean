import LispShell.Evaluation.Definition

/-! # Bindings as they are written
A binding list is a row of bindings, each of which is a pair or a name and the item after it. A name
that stands by itself takes the next item for its value, whatever that looks like, so a row can be
cut into bindings in one way at most. A row that is not made of bindings is refused for the item
after the bindings that it begins with. -/

namespace LispShell

/-- What comes out of a map came to a value before it. -/
theorem map_eq_ok_iff {ε α β : Type} {f : α → β} {attempt : Except ε α} {result : β} :
    attempt.map f = .ok result ↔ ∃ value, attempt = .ok value ∧ f value = result := by
  cases attempt <;> simp [Except.map]

/-- A map leaves errors alone. -/
theorem map_eq_error_iff {ε α β : Type} {f : α → β} {attempt : Except ε α} {error : ε} :
    attempt.map f = .error error ↔ attempt = .error error := by
  cases attempt <;> simp [Except.map]

namespace Definition

/-! ## The grammar -/

/-- Whether a row of items writes the given bindings, one after the other. -/
inductive Binds : List Expr → List (String × Expr) → Prop
  /-- No items for no bindings. -/
  | nil : Binds [] []
  /-- A name and the item after it. -/
  | inRow {items : List Expr} {pairs : List (String × Expr)} (name : String) (value : Expr) :
    Binds items pairs → Binds (.atom name :: value :: items) ((name, value) :: pairs)
  /-- A pair written as a call. -/
  | asCall {items : List Expr} {pairs : List (String × Expr)} (name : String) (value : Expr) :
    Binds items pairs → Binds (.call [.atom name, value] :: items) ((name, value) :: pairs)
  /-- A pair written as a list. -/
  | asList {items : List Expr} {pairs : List (String × Expr)} (name : String) (value : Expr) :
    Binds items pairs → Binds (.list [.atom name, value] :: items) ((name, value) :: pairs)

/-- Whether no binding begins with an item before the rest of its row: it is no pair, and nothing
follows it if it is a name. -/
def BeginsNoBinding (item : Expr) (rest : List Expr) : Prop :=
  pair? item = none ∧ (item.isAtom = true → rest = [])

/-- A pair is a call or a list of a name and its value. -/
theorem pair?_eq_some_iff {item value : Expr} {name : String} :
    pair? item = some (name, value) ↔
      item = .call [.atom name, value] ∨ item = .list [.atom name, value] := by
  constructor
  · intro isPair
    unfold pair? at isPair
    split at isPair <;> cases isPair
    · exact .inl rfl
    · exact .inr rfl
  · rintro (rfl | rfl) <;> rfl

/-! ## Reading -/

variable {items : List Expr} {pairs : List (String × Expr)}

/-- A pair in front of a row that writes bindings is one more of them. -/
theorem Binds.cons_pair {item : Expr} {binding : String × Expr}
    (isPair : pair? item = some binding) (binds : Binds items pairs) :
    Binds (item :: items) (binding :: pairs) := by
  obtain ⟨name, value⟩ := binding
  rcases pair?_eq_some_iff.mp isPair with rfl | rfl
  · exact .asCall name value binds
  · exact .asList name value binds

/-- Bindings at the beginning of a row are read first. -/
theorem Binds.readBindings_append (binds : Binds items pairs) (rest : List Expr) :
    readBindings (items ++ rest) = (readBindings rest).map (pairs ++ ·) := by
  have consMap (binding : String × Expr) (others : List (String × Expr)) :
      ((readBindings rest).map (others ++ ·)).map (binding :: ·) =
        (readBindings rest).map (binding :: others ++ ·) := by
    cases readBindings rest <;> rfl
  induction binds with
  | nil => cases isRead : readBindings rest <;> simp [isRead, Except.map]
  | inRow name value _ inductionHypothesis
  | asCall name value _ inductionHypothesis
  | asList name value _ inductionHypothesis =>
    simp only [List.cons_append, readBindings, pair?, inductionHypothesis, consMap]

/-- A row is read as bindings just if it writes them. -/
theorem readBindings_eq_ok_iff : readBindings items = .ok pairs ↔ Binds items pairs := by
  constructor
  · intro isRead
    fun_induction readBindings items generalizing pairs with
    | case1 =>
      cases isRead
      exact .nil
    | case2 name value rest inductionHypothesis =>
      obtain ⟨others, restRead, rfl⟩ := map_eq_ok_iff.mp isRead
      exact .inRow name value (inductionHypothesis restRead)
    | case3 item rest notNamed binding isPair inductionHypothesis =>
      obtain ⟨others, restRead, rfl⟩ := map_eq_ok_iff.mp isRead
      exact (inductionHypothesis restRead).cons_pair isPair
    | case4 item rest notNamed notPair => cases isRead
  · intro binds
    -- nothing is left to be read after the bindings
    have isRead := binds.readBindings_append []
    rw [List.append_nil] at isRead
    rw [isRead, readBindings, Except.map, List.append_nil]

/-- Reading stops at an item that no binding begins with. -/
theorem readBindings_of_beginsNoBinding {item : Expr} {rest : List Expr}
    (noBinding : BeginsNoBinding item rest) : readBindings (item :: rest) = .error item := by
  obtain ⟨notPair, isLast⟩ := noBinding
  cases item with
  | atom text =>
    obtain rfl := isLast rfl
    rfl
  | call items => simp [readBindings, notPair]
  | list items => simp [readBindings, notPair]

/-- A row is refused just for the item after the bindings that it begins with. -/
theorem readBindings_eq_error_iff {item : Expr} :
    readBindings items = .error item ↔
      ∃ front others rest, items = front ++ item :: rest ∧ Binds front others ∧
        BeginsNoBinding item rest := by
  constructor
  · intro failed
    fun_induction readBindings items with
    | case1 => cases failed
    | case2 name value rest inductionHypothesis =>
      obtain ⟨front, others, last, rfl, binds, noBinding⟩ :=
        inductionHypothesis (map_eq_error_iff.mp failed)
      exact ⟨_, _, last, rfl, .inRow name value binds, noBinding⟩
    | case3 pair rest notNamed binding isPair inductionHypothesis =>
      obtain ⟨front, others, last, rfl, binds, noBinding⟩ :=
        inductionHypothesis (map_eq_error_iff.mp failed)
      exact ⟨_, _, last, rfl, binds.cons_pair isPair, noBinding⟩
    | case4 other rest notNamed notPair =>
      cases failed
      -- a name with an item after it would have been read as a binding
      refine ⟨[], [], rest, rfl, .nil, notPair, fun isAtom => ?_⟩
      cases item with
      | atom text =>
        cases rest with
        | nil => rfl
        | cons value more => exact (notNamed text value more rfl rfl).elim
      | call items => cases isAtom
      | list items => cases isAtom
  · rintro ⟨front, others, rest, rfl, binds, noBinding⟩
    rw [binds.readBindings_append, readBindings_of_beginsNoBinding noBinding]
    rfl

end Definition

end LispShell
