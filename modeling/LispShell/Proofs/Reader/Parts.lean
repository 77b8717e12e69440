import LispShell.Proofs.Reader.RoundTrip
import LispShell.Proofs.Token.Alias
import LispShell.Reader.Source

/-! # Lines in two parts
A row of forms is expanded and read in two parts, the first of them behind the parenthesis. What the
first part reads as only depends on the values of its forms, as long as the reader has room, so
forms may stand for others with the same values; and what reads as a call by itself is forms. -/

namespace LispShell

namespace Derivation

/-! ## Depths -/

mutual
/-- The value of a form has one level more at most than the form nests. -/
theorem height_value_le (tree : Derivation) : tree.value.height ≤ tree.nesting + 1 := by
  match tree with
  | .ident text => exact Nat.le_refl 1
  | .quote inner =>
    have isInner := height_value_le inner
    rw [value, nesting, Expr.height_toData]
    omega
  | .row items =>
    have areItems := heightOfAll_valueOfAll_le items
    rw [value, nesting, Expr.height]
    omega

/-- The values of forms have one level more at most than the forms nest. -/
theorem heightOfAll_valueOfAll_le (items : List Derivation) :
    Expr.heightOfAll (valueOfAll items) ≤ nestingOfAll items + 1 := by
  match items with
  | [] => exact Nat.zero_le 1
  | item :: rest =>
    have isFirst := height_value_le item
    have areOthers := heightOfAll_valueOfAll_le rest
    rw [valueOfAll, nestingOfAll, Expr.heightOfAll]
    omega
end

/-- What is read has one level more at most than the reader holds. -/
theorem height_le_of_ofTokens_ok {limit : Nat} {tokens : List Token} {e : Expr}
    (isRead : Expr.ofTokens limit tokens = .ok e) : e.height ≤ limit + 1 := by
  by_cases isEmpty : tokens = []
  · subst isEmpty
    cases isRead
    exact Nat.le_add_left 1 limit
  · obtain ⟨tree, rfl, rfl⟩ := Expr.exists_of_ofTokens_ok isEmpty isRead
    rw [Expr.ofTokens_tokens] at isRead
    split at isRead
    · next fits => exact Nat.le_trans (height_value_le tree) (Nat.succ_le_succ fits)
    · cases isRead

mutual
/-- Data is printed as the same form as syntax. -/
theorem ofExpr_toData (e : Expr) : ofExpr e.toData = ofExpr e := by
  match e with
  | .atom text => rfl
  | .call items => rw [Expr.toData, ofExpr, ofExpr, ofAll_toDataAll items]
  | .list items => rfl

/-- Rows of data are printed as the same forms as rows of syntax. -/
theorem ofAll_toDataAll (items : List Expr) : ofAll (Expr.toDataAll items) = ofAll items := by
  match items with
  | [] => rfl
  | item :: rest => rw [Expr.toDataAll, ofAll, ofAll, ofExpr_toData item, ofAll_toDataAll rest]
end

mutual
/-- What is read and printed nests no deeper than what was read. -/
theorem nesting_ofExpr_value_le (tree : Derivation) :
    (ofExpr tree.value).nesting ≤ tree.nesting := by
  match tree with
  | .ident text => exact Nat.le_refl 0
  | .quote inner =>
    have isInner := nesting_ofExpr_value_le inner
    rw [value, nesting, ofExpr_toData]
    omega
  | .row items =>
    have areItems := nestingOfAll_ofAll_valueOfAll_le items
    rw [value, ofExpr, nesting, nesting]
    omega

/-- Forms that are read and printed nest no deeper than they did. -/
theorem nestingOfAll_ofAll_valueOfAll_le (items : List Derivation) :
    nestingOfAll (ofAll (valueOfAll items)) ≤ nestingOfAll items := by
  match items with
  | [] => exact Nat.le_refl 0
  | item :: rest =>
    have isFirst := nesting_ofExpr_value_le item
    have areOthers := nestingOfAll_ofAll_valueOfAll_le rest
    rw [valueOfAll, ofAll, nestingOfAll, nestingOfAll]
    omega
end

/-! ## Heads among the tokens of forms -/

/-- What follows the tokens of a form is no head. -/
theorem headFollows_tokens (afterParen : Bool) (tree : Derivation) :
    Token.headFollows afterParen tree.tokens = false := by
  match tree with
  | .ident text => rfl
  | .quote inner => exact headFollows_tokens false inner
  | .row items =>
    rw [tokens, ← List.cons_append, Token.headFollows_append]
    rfl

/-- What follows the tokens of forms is no head, unless there are no forms. -/
theorem headFollows_tokensOfAll {afterParen : Bool} {trees : List Derivation}
    (isInside : afterParen = true → trees ≠ []) :
    Token.headFollows afterParen (tokensOfAll trees) = false := by
  induction trees generalizing afterParen with
  | nil => exact Bool.eq_false_iff.mpr fun isParen => isInside isParen rfl
  | cons tree rest inductionHypothesis =>
    rw [tokensOfAll, Token.headFollows_append, headFollows_tokens]
    exact inductionHypothesis nofun

/-- A row of forms is expanded inside its parentheses. -/
theorem expand_row (aliases : AliasTable) {items : List Derivation} (isNonempty : items ≠ []) :
    Token.expand aliases (row items).tokens =
      ((Token.expandFrom aliases true (tokensOfAll items)).append ⟨[.rparen], none⟩).prepend
        [.lparen] := by
  have noHead : Token.headFollows true (tokensOfAll items) = false :=
    headFollows_tokensOfAll fun _ => isNonempty
  have closing : Token.expandFrom aliases false [.rparen] = ⟨[.rparen], none⟩ := rfl
  rw [Token.expand, tokens, Token.expandFrom_cons_of_replacement?_eq_none rfl,
    Token.expandFrom_append, beq_self_eq_true, noHead, closing]

/-- A row of forms is expanded in two parts. -/
theorem expand_row_append (aliases : AliasTable) {first : List Derivation} (notEmpty : first ≠ [])
    (others : List Derivation) :
    Token.expand aliases (row (first ++ others)).tokens =
      ((Token.expandFrom aliases true (tokensOfAll first)).append
        ((Token.expandFrom aliases false (tokensOfAll others)).append
          ⟨[.rparen], none⟩)).prepend [.lparen] := by
  have noHead : Token.headFollows true (tokensOfAll first) = false :=
    headFollows_tokensOfAll fun _ => notEmpty
  rw [expand_row aliases (List.append_ne_nil_of_left_ne_nil notEmpty others), tokensOfAll_append,
    Token.expandFrom_append, noHead, Scan.append_assoc]

/-! ## Lines of forms -/

/-- Whether a text is a command line of the form, whose outer parentheses may be left out. -/
def IsLine (tree : Derivation) (source : String) : Prop :=
  ∃ tokens, Token.scan source = ⟨tokens, none⟩ ∧ Token.wrap tokens = tree.tokens

/-- A command line is read from the expanded tokens of its form. -/
theorem IsLine.readLine_eq {tree : Derivation} {source : String} (isLine : tree.IsLine source)
    (limit : Nat) (aliases : AliasTable) :
    readLine limit aliases source =
      (Token.expand aliases tree.tokens).toExcept >>= Expr.ofTokens limit := by
  obtain ⟨tokens, isScan, isWrapped⟩ := isLine
  rw [readLine, Token.ofLine, isScan, ← isWrapped]
  rfl

/-- Rows of forms with the same values are read alike in a call with more tokens after them, if the
reader has room for both. -/
theorem ofTokens_congr {limit : Nat} {trees others : List Derivation}
    (sameValues : valueOfAll trees = valueOfAll others) (fits : nestingOfAll trees + 1 ≤ limit)
    (otherFits : nestingOfAll others + 1 ≤ limit) (rest : List Token) :
    Expr.ofTokens limit (.lparen :: (tokensOfAll trees ++ rest)) =
      Expr.ofTokens limit (.lparen :: (tokensOfAll others ++ rest)) := by
  have reads {items : List Derivation} (enough : nestingOfAll items + 1 ≤ limit) :
      Reading.readForm limit [] (.lparen :: (tokensOfAll items ++ rest)) =
        Reading.readForm limit [.row (valueOfAll items).reverse] rest := by
    have isOpened : ([] : List OpenForm).length < limit := by
      rw [List.length_nil]
      omega
    rw [Reading.readForm_opening rfl, if_pos isOpened,
      Reading.readForm_tokensOfAll items [] isOpened, List.append_nil, List.length_nil,
      if_pos (by omega)]
  rw [Expr.ofTokens, Expr.ofTokens, reads fits, reads otherFits, sameValues]
  rfl

/-- What the first part of a row and the others read as together, in parentheses. -/
def readParts (limit : Nat) (first others : Scan) : Except ReadError Expr :=
  ((first.append (others.append ⟨[.rparen], none⟩)).prepend [.lparen]).toExcept >>=
    Expr.ofTokens limit

/-- A command line of a row is read from the two parts of the row. -/
theorem IsLine.readLine_append {source : String} {first others : List Derivation}
    (isLine : (row (first ++ others)).IsLine source) (notEmpty : first ≠ []) (limit : Nat)
    (aliases : AliasTable) :
    readLine limit aliases source =
      readParts limit (Token.expandFrom aliases true (tokensOfAll first))
        (Token.expandFrom aliases false (tokensOfAll others)) := by
  rw [isLine.readLine_eq, expand_row_append aliases notEmpty]
  rfl

/-- Forms with the same values may stand for one another in the first part of a row, if the reader
has room for both. -/
theorem readParts_congr {limit : Nat} {trees replaced : List Derivation}
    (sameValues : valueOfAll trees = valueOfAll replaced) (fits : nestingOfAll trees + 1 ≤ limit)
    (replacedFits : nestingOfAll replaced + 1 ≤ limit) (others : Scan) :
    readParts limit ⟨tokensOfAll trees, none⟩ others =
      readParts limit ⟨tokensOfAll replaced, none⟩ others := by
  obtain ⟨tokens, _ | fault⟩ := others
  · exact ofTokens_congr sameValues fits replacedFits (tokens ++ [.rparen])
  · rfl

/-- Forms alone read as the call of their values, if the reader has room for it. -/
theorem readParts_nil {limit : Nat} {trees : List Derivation}
    (fits : nestingOfAll trees + 1 ≤ limit) :
    readParts limit ⟨tokensOfAll trees, none⟩ .nil = .ok (.call (valueOfAll trees)) := by
  have isRead := Expr.ofTokens_tokens limit (row trees)
  rw [nesting, if_pos fits] at isRead
  exact isRead

/-- Where a first part reads as a call by itself, it is the tokens of forms whose values are the
items of the call. -/
theorem exists_of_readParts_ok {limit : Nat} {first : Scan} {items : List Expr}
    (isRead : readParts limit first .nil = .ok (.call items)) :
    ∃ trees, first = ⟨tokensOfAll trees, none⟩ ∧ valueOfAll trees = items := by
  obtain ⟨tokens, _ | fault⟩ := first
  case some => cases isRead
  replace isRead : Expr.ofTokens limit (.lparen :: (tokens ++ [.rparen])) = .ok (.call items) :=
    isRead
  obtain ⟨tree, isTokens, isValue⟩ := Expr.exists_of_ofTokens_ok (List.cons_ne_nil _ _) isRead
  cases tree with
  | ident text => cases isValue
  | quote inner => cases isTokens
  | row trees =>
    rw [Derivation.tokens, List.cons.injEq] at isTokens
    rw [value, Expr.call.injEq] at isValue
    obtain rfl := List.append_cancel_right isTokens.2
    exact ⟨trees, rfl, isValue⟩

end Derivation

end LispShell
