import LispShell.Proofs.Reader.Continuation
import LispShell.Proofs.Reader.Program

/-! # Lines and programs
A command line is one form whose outer parentheses may be left out; a program is a row of forms and
is never put into parentheses. Both readers accept the same texts: those whose tokens are a row of
forms. A line of one call is that call, and the forms of any other line are put into a call. -/

namespace LispShell

/-- What a command line of the given forms reads as: without forms the empty atom, one call as it
is, and any other forms as a call of them. -/
def Expr.ofLineForms : List Expr → Expr
  | [] => .empty
  | [.call items] => .call items
  | forms => .call forms

namespace Derivation

/-- The tokens of a row of forms tell what the forms are. -/
theorem tokensOfAll_injective : Function.Injective tokensOfAll := by
  intro items others same
  have closed : tokensOfAll items ++ .rparen :: [] = tokensOfAll others ++ .rparen :: [] := by
    rw [same]
  exact (tokensOfAll_append_inj items others closed).1

/-- The tokens of a row of forms are a group exactly if the row is one form in parentheses. -/
theorem isGroup_tokensOfAll_iff (trees : List Derivation) :
    Token.isGroup (tokensOfAll trees) = true ↔ ∃ items, trees = [.row items] := by
  constructor
  · intro isGroup
    obtain ⟨tree, isTree⟩ := Token.exists_of_isGroup isGroup (List.append_nil _).symm
    have isSingle : tokensOfAll [tree] = tokensOfAll trees := by
      rw [tokensOfAll, tokensOfAll, List.append_nil, isTree]
    obtain rfl := tokensOfAll_injective isSingle
    -- a group begins with a parenthesis, and so does no other form
    cases tree with
    | ident text => cases isGroup
    | quote inner => cases isGroup
    | row items => exact ⟨items, rfl⟩
  · rintro ⟨items, rfl⟩
    rw [tokensOfAll, tokensOfAll, List.append_nil, tokens, Token.isGroup]
    exact Token.closesAtEnd_tokensOfAll 0 items [.rparen]

/-- A form in parentheses is a line as it stands. -/
theorem wrap_row (items : List Derivation) :
    Token.wrap (row items).tokens = (row items).tokens := by
  have closes := (isGroup_tokensOfAll_iff [.row items]).mpr ⟨items, rfl⟩
  rw [tokensOfAll, tokensOfAll, List.append_nil] at closes
  rw [Token.wrap, closes, Bool.or_true, if_pos rfl]

section

variable {trees : List Derivation} (notEmpty : trees ≠ [])
  (notGroup : ¬ ∃ items, trees = [.row items])
include notEmpty notGroup

/-- All other forms are put into parentheses to make a line. -/
theorem wrap_tokensOfAll : Token.wrap (tokensOfAll trees) = (row trees).tokens := by
  have hasTokens : tokensOfAll trees ≠ [] := by
    intro noTokens
    exact notEmpty (tokensOfAll_injective noTokens)
  rw [← isGroup_tokensOfAll_iff, Bool.not_eq_true] at notGroup
  rw [Token.wrap, notGroup, List.isEmpty_eq_false_iff.mpr hasTokens, Bool.or_false,
    if_neg Bool.false_ne_true, tokens, List.cons_append]

/-- A single form among them is not a call, so the line is the call of its forms. -/
theorem value_row_eq_ofLineForms : (row trees).value = .ofLineForms (valueOfAll trees) := by
  rw [value]
  match trees with
  | [] => exact absurd rfl notEmpty
  | [.ident text] => rfl
  | [.quote inner] =>
    rw [valueOfAll, value]
    cases inner.value <;> rfl
  | [.row items] => exact absurd ⟨items, rfl⟩ notGroup
  | first :: second :: others => simp [valueOfAll, Expr.ofLineForms]

end

end Derivation

/-! ## Reading rows of forms -/

/-- The tokens of a row of forms read as the forms in turn, unless one of them nests deeper than the
reader holds. -/
theorem readForms_tokensOfAll (limit : Nat) (trees : List Derivation) :
    (Derivation.nestingOfAll trees ≤ limit ∧
      readForms limit none [] (Derivation.tokensOfAll trees) =
        (Derivation.valueOfAll trees, none)) ∨
    (limit < Derivation.nestingOfAll trees ∧
      (readForms limit none [] (Derivation.tokensOfAll trees)).2 = some .nestingTooDeep) := by
  induction trees with
  | nil => exact .inl ⟨Nat.zero_le _, rfl⟩
  | cons tree others inductionHypothesis =>
    rw [Derivation.tokensOfAll, Derivation.nestingOfAll, Derivation.valueOfAll]
    have isRead := Reading.readForm_tokens [] tree (Nat.zero_le limit)
      (Derivation.tokensOfAll others)
    rw [List.length_nil, Nat.zero_add] at isRead
    by_cases enough : tree.nesting ≤ limit
    · rw [if_pos enough] at isRead
      rw [readForms_of_ok isRead]
      rcases inductionHypothesis with ⟨fits, areOthers⟩ | ⟨tooMany, tooDeep⟩
      · refine .inl ⟨Nat.max_le.mpr ⟨enough, fits⟩, ?_⟩
        rw [areOthers]
      · exact .inr ⟨by omega, tooDeep⟩
    · rw [if_neg enough] at isRead
      rw [readForms_of_error isRead rfl]
      exact .inr ⟨by omega, rfl⟩

section

variable {source : String} {trees : List Derivation}
  (isScan : Token.scan source = ⟨Derivation.tokensOfAll trees, none⟩)
include isScan

/-- A program of forms reads as their values, unless one of them nests deeper than the reader
holds. -/
theorem readProgram_of_tokensOfAll (limit : Nat) :
    (Derivation.nestingOfAll trees ≤ limit ∧
      readProgram limit .empty source = (Derivation.valueOfAll trees, none)) ∨
    (limit < Derivation.nestingOfAll trees ∧
      (readProgram limit .empty source).2 = some .nestingTooDeep) := by
  rw [readProgram_eq_readForms, Token.ofProgram_empty, isScan]
  exact readForms_tokensOfAll limit trees

/-- A line of forms reads as what they make together, if the reader has room for it. The parentheses
that are put around most lines take one place more than the forms. -/
theorem exists_readLine_of_tokensOfAll :
    ∃ depth, Derivation.nestingOfAll trees ≤ depth ∧ depth ≤ Derivation.nestingOfAll trees + 1 ∧
      ∀ limit, readLine limit .empty source =
        if depth ≤ limit then .ok (.ofLineForms (Derivation.valueOfAll trees))
        else .error .nestingTooDeep := by
  by_cases isEmpty : trees = []
  · subst isEmpty
    exact ⟨0, Nat.zero_le _, Nat.zero_le _, fun limit => readLine_empty isScan⟩
  by_cases isGroup : ∃ items, trees = [.row items]
  · obtain ⟨items, rfl⟩ := isGroup
    have isRow : Derivation.tokensOfAll [.row items] = (Derivation.row items).tokens :=
      List.append_nil _
    refine ⟨(Derivation.row items).nesting, by simp [Derivation.nestingOfAll],
      by simp [Derivation.nestingOfAll], fun limit => ?_⟩
    rw [readLine_empty isScan, isRow, Derivation.wrap_row]
    exact Expr.ofTokens_tokens limit (.row items)
  · refine ⟨(Derivation.row trees).nesting, by simp [Derivation.nesting],
      by simp [Derivation.nesting], fun limit => ?_⟩
    rw [readLine_empty isScan, Derivation.wrap_tokensOfAll isEmpty isGroup,
      ← Derivation.value_row_eq_ofLineForms isEmpty isGroup]
    exact Expr.ofTokens_tokens limit (.row trees)

end

/-- A text that reads as a program without a fault is a row of forms. -/
theorem exists_of_readProgram_ok {limit : Nat} {source : String} {forms : List Expr}
    (isRead : readProgram limit .empty source = (forms, none)) :
    ∃ trees, Token.scan source = ⟨Derivation.tokensOfAll trees, none⟩ ∧
      Derivation.valueOfAll trees = forms := by
  rw [readProgram_eq_readForms, Token.ofProgram_empty] at isRead
  obtain ⟨noFault, trees, areTokens, areValues⟩ := exists_of_readForms_ok [] isRead
  refine ⟨trees, ?_, by rw [Derivation.valueOfAll_eq_map, areValues]⟩
  rw [areTokens, ← noFault]
  rfl

/-- The two readers agree. Without aliases, and as long as the line does not nest deeper than the
reader holds, a text reads as a command line exactly if it reads as a program without a fault, and
then as what the forms of the program make together. Where it reads as a program, one more level of
nesting is always enough for the line. -/
theorem readLine_agrees_with_readProgram (limit : Nat) (source : String) :
    (readLine limit .empty source ≠ .error .nestingTooDeep →
      ∀ e, readLine limit .empty source = .ok e ↔
        ∃ forms, readProgram limit .empty source = (forms, none) ∧ Expr.ofLineForms forms = e) ∧
    (∀ forms, readProgram limit .empty source = (forms, none) →
      readLine (limit + 1) .empty source = .ok (.ofLineForms forms)) := by
  refine ⟨fun shallow e => ⟨fun isLine => ?line, ?program⟩, fun forms isRead => ?deeper⟩
  case line =>
    obtain ⟨noFault, trees, areTokens⟩ := exists_of_readLine_ok rfl isLine
    have isScan : Token.scan source = ⟨Derivation.tokensOfAll trees, none⟩ := by
      rw [areTokens, ← noFault]
    obtain ⟨depth, enough, -, reads⟩ := exists_readLine_of_tokensOfAll isScan
    rw [reads] at isLine
    split at isLine <;> cases isLine
    next fits =>
    rcases readProgram_of_tokensOfAll isScan limit with ⟨-, isProgram⟩ | ⟨tooMany, -⟩
    · exact ⟨_, isProgram, rfl⟩
    · omega
  case program =>
    rintro ⟨forms, isProgram, rfl⟩
    obtain ⟨trees, isScan, rfl⟩ := exists_of_readProgram_ok isProgram
    obtain ⟨depth, -, -, reads⟩ := exists_readLine_of_tokensOfAll isScan
    rw [reads] at shallow ⊢
    split at shallow
    · next fits => rw [if_pos fits]
    · exact absurd rfl shallow
  case deeper =>
    obtain ⟨trees, isScan, rfl⟩ := exists_of_readProgram_ok isRead
    obtain ⟨depth, -, fits, reads⟩ := exists_readLine_of_tokensOfAll isScan
    rcases readProgram_of_tokensOfAll isScan limit with ⟨enough, -⟩ | ⟨-, tooDeep⟩
    · rw [reads, if_pos (by omega)]
    · rw [isRead] at tooDeep
      cases tooDeep

/-- A line of words and the same line in parentheses read as one call, that of the program. -/
theorem line_needs_no_parentheses :
    readLine 9 .empty "ls -l" = .ok (.call [.atom "ls", .atom "-l"]) ∧
      readLine 9 .empty "(ls -l)" = .ok (.call [.atom "ls", .atom "-l"]) ∧
      ∃ forms, readProgram 9 .empty "(ls -l)" = (forms, none) ∧
        Expr.ofLineForms forms = .call [.atom "ls", .atom "-l"] := by
  have isLine := (readLine_agrees_with_readProgram 8 "(ls -l)").2 _ rfl
  have isShallow : readLine 9 .empty "(ls -l)" ≠ .error .nestingTooDeep := by
    rw [isLine]
    rintro ⟨⟩
  exact ⟨(readLine_agrees_with_readProgram 8 "ls -l").2 _ rfl, isLine,
    ((readLine_agrees_with_readProgram 9 "(ls -l)").1 isShallow _).mp isLine⟩

/-- What closes more than is open is refused by both readers, though not at the same token: the
parenthesis that the line is given at its beginning is closed first. -/
example : readLine 9 .empty "a) (b" = .error (.unexpectedToken .lparen) ∧
    readProgram 9 .empty "a) (b" = ([.atom "a"], some (.unexpectedToken .rparen)) :=
  ⟨rfl, rfl⟩

end LispShell
