import LispShell.Proofs.Evaluation.Equality

/-! # Sequences
What is put before a sequence can be taken from it again. Four cases make up `cons?`, and all that
is to say of it follows from them: what comes out begins with the item, the rest of it is the
sequence, and what an item and the rest of a sequence are put together to is that sequence, save
that a list of a single character gives the character. -/

namespace LispShell

namespace Sequence

/-! ## Putting an item before a sequence -/

/-- The atom of a single character. -/
def character (c : Char) : Expr :=
  .atom (String.singleton c)

/-- What an item and a sequence are put together to. -/
inductive Puts : (item sequence result : Expr) → Prop
  /-- A character before no items stays as it is. -/
  | alone (c : Char) : Puts (character c) (.list []) (character c)
  /-- A character before an atom makes a longer atom. -/
  | longer (c : Char) (text : String) :
    Puts (character c) (.atom text) (.atom (String.singleton c ++ text))
  /-- All else before a list is its first item. -/
  | ahead {item : Expr} {items : List Expr} :
    (items = [] → ∀ c, item ≠ character c) → Puts item (.list items) (.list (item :: items))
  /-- All else before the empty atom is the one item of a list. -/
  | started {item : Expr} : (∀ c, item ≠ character c) → Puts item .empty (.list [item])

/-- What an item is not put before. -/
inductive Refuses : (item sequence : Expr) → Prop
  /-- Nothing but a character is put before an atom that is not empty. -/
  | notACharacter {item : Expr} {text : String} :
    (∀ c, item ≠ character c) → text ≠ "" → Refuses item (.atom text)
  /-- Nothing is put before pending syntax. -/
  | pending (item : Expr) (items : List Expr) : Refuses item (.call items)

variable {item sequence result others : Expr} {fault : Fault} {items : List Expr} {text : String}

/-- The texts of one character are those of characters. -/
theorem isCharacter_iff : isCharacter text = true ↔ ∃ c, Expr.atom text = character c := by
  simp only [isCharacter, beq_iff_eq, ← String.length_toList, List.length_eq_one_iff, character,
    Expr.atom.injEq, ← String.toList_inj, String.toList_singleton]

/-- A character is put before no items. -/
theorem cons?_character_nil (c : Char) : cons? (character c) (.list []) = .ok (character c) := by
  have isOne : isCharacter (String.singleton c) = true := isCharacter_iff.mpr ⟨c, rfl⟩
  simp [character, cons?, isOne]

/-- A character is put before an atom. -/
theorem cons?_character_atom (c : Char) (text : String) :
    cons? (character c) (.atom text) = .ok (.atom (String.singleton c ++ text)) := by
  have isOne : isCharacter (String.singleton c) = true := isCharacter_iff.mpr ⟨c, rfl⟩
  simp [character, cons?, isOne]

/-- All but a character before no items is put before a list. -/
theorem cons?_list (notAlone : items = [] → ∀ c, item ≠ character c) :
    cons? item (.list items) = .ok (.list (item :: items)) := by
  cases item with
  | call others => simp [cons?]
  | list others => simp [cons?]
  | atom head =>
    cases items with
    | cons first rest => simp [cons?]
    | nil =>
      have notOne : ¬ isCharacter head = true :=
        isCharacter_iff.not.mpr (not_exists.mpr (notAlone rfl))
      simp [cons?, notOne]

/-- What is no character is put before no atom but the empty one. -/
theorem cons?_atom (noCharacter : ∀ c, item ≠ character c) :
    cons? item (.atom text) = if text = "" then .ok (.list [item]) else .error .notListLike := by
  cases item with
  | call items => simp [cons?]
  | list items => simp [cons?]
  | atom head =>
    have notOne : ¬ isCharacter head = true := isCharacter_iff.not.mpr (not_exists.mpr noCharacter)
    simp [cons?, notOne]

/-- What is put together is what `cons?` gives. -/
theorem Puts.cons? (puts : Puts item sequence result) : cons? item sequence = .ok result := by
  cases puts with
  | alone c => exact cons?_character_nil c
  | longer c text => exact cons?_character_atom c text
  | ahead notAlone => exact cons?_list notAlone
  | started noCharacter => rw [cons?_atom noCharacter, if_pos rfl]

/-- No value is refused but an atom that is not empty, for what is no character. -/
theorem refuses_iff (notCall : ∀ items, sequence ≠ .call items) :
    Refuses item sequence ↔
      (∃ text, text ≠ "" ∧ sequence = .atom text) ∧ ∀ c, item ≠ character c := by
  constructor
  · rintro (⟨noCharacter, notEmpty⟩ | items)
    · exact ⟨⟨_, notEmpty, rfl⟩, noCharacter⟩
    · exact absurd rfl (notCall _)
  · rintro ⟨⟨text, notEmpty, rfl⟩, noCharacter⟩
    exact .notACharacter noCharacter notEmpty

/-- `cons?` gives no result for what it `Refuses`. -/
theorem Refuses.cons? (refuses : Refuses item sequence) :
    cons? item sequence = .error .notListLike := by
  cases refuses with
  | notACharacter noCharacter notEmpty => rw [cons?_atom noCharacter, if_neg notEmpty]
  | pending items => cases item <;> rfl

/-- An item and a sequence are put together or refused. -/
theorem exists_puts_or_refuses (item sequence : Expr) :
    (∃ result, Puts item sequence result) ∨ Refuses item sequence := by
  -- only a character is put before an atom with something in it, or stays an atom before no items
  by_cases isOne : ∃ c, item = character c
  · obtain ⟨c, rfl⟩ := isOne
    match sequence with
    | .atom text => exact .inl ⟨_, .longer c text⟩
    | .call items => exact .inr (.pending _ items)
    | .list [] => exact .inl ⟨_, .alone c⟩
    | .list (_ :: _) => exact .inl ⟨_, .ahead nofun⟩
  · have noCharacter := not_exists.mp isOne
    cases sequence with
    | call items => exact .inr (.pending item items)
    | list items => exact .inl ⟨_, .ahead fun _ => noCharacter⟩
    | atom text =>
      by_cases isEmpty : text = ""
      · subst isEmpty
        exact .inl ⟨_, .started noCharacter⟩
      · exact .inr (.notACharacter noCharacter isEmpty)

/-- What `cons?` gives is what is put together. -/
theorem cons?_eq_ok_iff : cons? item sequence = .ok result ↔ Puts item sequence result := by
  refine ⟨fun isPut => ?_, Puts.cons?⟩
  obtain ⟨other, puts⟩ | refuses := exists_puts_or_refuses item sequence
  · rw [puts.cons?] at isPut
    cases isPut
    exact puts
  · rw [refuses.cons?] at isPut
    cases isPut

/-- What `cons?` does not give a result for is what is refused. -/
theorem cons?_eq_error_iff :
    cons? item sequence = .error fault ↔ fault = .notListLike ∧ Refuses item sequence := by
  constructor
  · intro fails
    obtain ⟨other, puts⟩ | refuses := exists_puts_or_refuses item sequence
    · rw [puts.cons?] at fails
      cases fails
    · rw [refuses.cons?] at fails
      cases fails
      exact ⟨rfl, refuses⟩
  · rintro ⟨rfl, refuses⟩
    exact refuses.cons?

/-! ## Taking a sequence apart -/

/-- The first item of what is put together is the item. -/
theorem Puts.first? (puts : Puts item sequence result) : first? result = .ok item := by
  cases puts with
  | alone c => simp [character, Sequence.first?]
  | longer c text => simp [character, Sequence.first?]
  | ahead notAlone => rfl
  | started noCharacter => rfl

/-- The rest of what is put together equals the sequence. -/
theorem Puts.rest? (puts : Puts item sequence result) :
    ∃ others, rest? result = .ok others ∧ others.equals sequence = true := by
  cases puts with
  | alone c => exact ⟨.empty, by simp [character, Sequence.rest?], rfl⟩
  | longer c text => exact ⟨.atom text, by simp [Sequence.rest?], Expr.equals_self _⟩
  | ahead notAlone => exact ⟨_, rfl, Expr.equals_self _⟩
  | started noCharacter => exact ⟨_, rfl, rfl⟩

/-- The first item of a sequence that is not empty and the rest of it are put together to the
sequence itself, save that a list of a single character gives the character. -/
theorem exists_puts (notCall : ∀ items, sequence ≠ .call items)
    (notEmpty : sequence.isEmpty = false) :
    ∃ item others result, first? sequence = .ok item ∧ rest? sequence = .ok others ∧
      Puts item others result ∧
      ((∃ c, sequence = .list [character c] ∧ result = character c) ∨
        (∀ c, sequence ≠ .list [character c]) ∧ result = sequence) := by
  cases sequence with
  | call items => exact absurd rfl (notCall items)
  | list items =>
    cases items with
    | nil => cases notEmpty
    | cons item rest =>
      -- the one list that is not put together again has a character alone
      by_cases isAlone : rest = [] ∧ ∃ c, item = character c
      · obtain ⟨rfl, c, rfl⟩ := isAlone
        exact ⟨_, _, _, rfl, rfl, .alone c, .inl ⟨c, rfl, rfl⟩⟩
      · have notAlone : rest = [] → ∀ c, item ≠ character c :=
          fun isNil c isOne => isAlone ⟨isNil, c, isOne⟩
        refine ⟨_, _, _, rfl, rfl, .ahead notAlone, .inr ⟨fun c isOne => ?_, rfl⟩⟩
        cases isOne
        exact notAlone rfl c rfl
  | atom text =>
    cases spelled : text.toList with
    | nil => simp [Expr.isEmpty, String.toList_eq_nil_iff.mp spelled] at notEmpty
    | cons c rest =>
      have whole : String.singleton c ++ String.ofList rest = text := by
        simp [← String.toList_inj, spelled]
      refine ⟨character c, .atom (String.ofList rest), .atom text, ?_, ?_, ?_,
        .inr ⟨fun _ isOne => ?_, rfl⟩⟩
      · simp only [first?, spelled, character]
      · simp only [rest?, spelled, List.tail_cons]
      · exact whole ▸ .longer c (String.ofList rest)
      · cases isOne

example : (do cons? (← first? (.list [.atom "a"])) (← rest? (.list [.atom "a"]))) =
    .ok (.atom "a") := by
  decide

end Sequence

/-! ## Calls on sequences -/

namespace Evaluation

variable [OperatingSystem] {e other item sequence value : Expr} {isLine : Bool}
  {course between after : Course}

/-- A call on a sequence comes to what the operation makes of the value of its operand. -/
theorem ends_run_unary {name : String} {builtin : Builtin} {operation : Expr → Except Fault Expr}
    (isBuiltin : Builtin.ofName? name = some builtin) (noBranch : builtin.endsInBranch = false)
    (isUnary : ∀ operands es,
      builtin.value operands es = Sequence.unary operands builtin operation es)
    (ends : Run.Ends (fun limits => run limits false e) course (.ok value, after))
    (ownEnd : operation value ≠ .error .evaluationTooDeep) :
    Run.Ends (fun limits => run limits isLine (.call [.atom name, e])) course
      ((operation value).mapError Halt.fault, after) := by
  obtain ⟨least, ended⟩ := exists_least_direct ends
  -- deep enough for the operand, with room to report on its value
  let depth := max least (Sequence.reportedLevels value)
  have applied : (builtin.value ⟨depth, direct depth false⟩ [e]).exec course =
      ((operation value).mapError Halt.fault, after) := by
    rw [isUnary]
    exact Builtin.exec_unary builtin (ended depth (Nat.le_max_left _ _)) (Nat.le_max_right _ _)
  exact ends_run_builtin isBuiltin noBranch applied (conclusive_mapError_fault ownEnd)

/-- A call of `first` comes to the first item of the value of its operand. -/
theorem ends_run_first
    (ends : Run.Ends (fun limits => run limits false e) course (.ok value, after)) :
    Run.Ends (fun limits => run limits isLine (.call [.atom "first", e])) course
      ((Sequence.first? value).mapError Halt.fault, after) := by
  have isFirst : Builtin.ofName? "first" = some .first := by decide
  refine ends_run_unary isFirst rfl (fun _ _ => rfl) ends ?_
  fun_cases Sequence.first? value <;> nofun

/-- A call of `rest` comes to the rest of the value of its operand. -/
theorem ends_run_rest
    (ends : Run.Ends (fun limits => run limits false e) course (.ok value, after)) :
    Run.Ends (fun limits => run limits isLine (.call [.atom "rest", e])) course
      ((Sequence.rest? value).mapError Halt.fault, after) := by
  have isRest : Builtin.ofName? "rest" = some .rest := by decide
  refine ends_run_unary isRest rfl (fun _ _ => rfl) ends ?_
  fun_cases Sequence.rest? value <;> nofun

/-- A call of `cons` puts the value of its first operand before that of its second. -/
theorem ends_run_cons
    (isItem : Run.Ends (fun limits => run limits false e) course (.ok item, between))
    (isSequence : Run.Ends (fun limits => run limits false other) between (.ok sequence, after)) :
    Run.Ends (fun limits => run limits isLine (.call [.atom "cons", e, other])) course
      ((Sequence.cons? item sequence).mapError Halt.fault, after) := by
  have isCons : Builtin.ofName? "cons" = some .cons := by decide
  have ownEnd : Sequence.cons? item sequence ≠ .error .evaluationTooDeep := by
    intro tooDeep
    cases (Sequence.cons?_eq_error_iff.mp tooDeep).1
  obtain ⟨least, ended⟩ := exists_least_direct isItem
  obtain ⟨leastToo, endedToo⟩ := exists_least_direct isSequence
  let depth := max least leastToo
  have applied : (Builtin.value ⟨depth, direct depth false⟩ .cons [e, other]).exec course =
      ((Sequence.cons? item sequence).mapError Halt.fault, after) :=
    Builtin.exec_cons (ended depth (Nat.le_max_left _ _)) (endedToo depth (Nat.le_max_right _ _))
  exact ends_run_builtin isCons rfl applied (conclusive_mapError_fault ownEnd)

/-- What `cons` puts together `first` and `rest` take apart, for atoms and lists alike: the first item
of the result is the item, and the rest of it equals the sequence. The first item and the rest of a
value that is not empty are put together to that value again, save that a list of a single character
gives the character. No value is refused but an atom that is not empty, for what is no character.
And this is what calls come to: the operands are evaluated from left to right, and what comes out is
what the operation makes of their values. -/
theorem first_rest_and_cons_fit_together :
    (∀ item sequence result, Sequence.cons? item sequence = .ok result →
      Sequence.first? result = .ok item ∧
        ∃ others, Sequence.rest? result = .ok others ∧ others.equals sequence = true) ∧
    (∀ sequence : Expr, (∀ items, sequence ≠ .call items) → sequence.isEmpty = false →
      ∃ item others result, Sequence.first? sequence = .ok item ∧
        Sequence.rest? sequence = .ok others ∧ Sequence.cons? item others = .ok result ∧
        ((∃ c, sequence = .list [Sequence.character c] ∧ result = Sequence.character c) ∨
          (∀ c, sequence ≠ .list [Sequence.character c]) ∧ result = sequence)) ∧
    (∀ item sequence fault, (∀ items, sequence ≠ .call items) →
      (Sequence.cons? item sequence = .error fault ↔
        fault = .notListLike ∧ (∃ text, text ≠ "" ∧ sequence = .atom text) ∧
          ∀ c, item ≠ Sequence.character c)) ∧
    (∀ (e value : Expr) (course after : Course),
      Run.Ends (fun limits => run limits false e) course (.ok value, after) → ∀ isLine,
        Run.Ends (fun limits => run limits isLine (.call [.atom "first", e])) course
            ((Sequence.first? value).mapError Halt.fault, after) ∧
          Run.Ends (fun limits => run limits isLine (.call [.atom "rest", e])) course
            ((Sequence.rest? value).mapError Halt.fault, after)) ∧
    (∀ (e other item sequence : Expr) (course between after : Course),
      Run.Ends (fun limits => run limits false e) course (.ok item, between) →
      Run.Ends (fun limits => run limits false other) between (.ok sequence, after) → ∀ isLine,
        Run.Ends (fun limits => run limits isLine (.call [.atom "cons", e, other])) course
          ((Sequence.cons? item sequence).mapError Halt.fault, after)) := by
  refine ⟨?together, ?apart, ?fails, ?unary, ?cons⟩
  case together =>
    intro item sequence result isPut
    have puts := Sequence.cons?_eq_ok_iff.mp isPut
    exact ⟨puts.first?, puts.rest?⟩
  case apart =>
    intro sequence notCall notEmpty
    obtain ⟨item, others, result, isFirst, isRest, puts, isSame⟩ :=
      Sequence.exists_puts notCall notEmpty
    exact ⟨item, others, result, isFirst, isRest, puts.cons?, isSame⟩
  case fails =>
    intro item sequence fault notCall
    rw [Sequence.cons?_eq_error_iff, Sequence.refuses_iff notCall]
  case unary =>
    intro e value course after ends isLine
    exact ⟨ends_run_first ends, ends_run_rest ends⟩
  case cons =>
    intro e other item sequence course between after isItem isSequence isLine
    exact ends_run_cons isItem isSequence

end Evaluation

end LispShell
