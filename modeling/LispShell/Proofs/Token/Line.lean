import LispShell.Proofs.Reader.Grammar
import LispShell.Token.Alias

/-! # The tokens of a line
A line is one group if the parenthesis that it begins with is closed by its last token. What has
closed its group cannot close it later, and the tokens of a form leave the depth as it is. Without
aliases every token stands for itself. -/

namespace LispShell.Token

/-- Without aliases every token stands for itself. -/
@[simp] theorem expansion_empty (afterParen : Bool) (token : Token) :
    expansion .empty afterParen token = ⟨[token], none⟩ := by
  cases token <;> cases afterParen <;> rfl

/-- Without aliases tokens stand for themselves. -/
theorem expandFrom_empty (afterParen : Bool) (tokens : List Token) :
    expandFrom .empty afterParen tokens = ⟨tokens, none⟩ := by
  induction tokens generalizing afterParen with
  | nil => rfl
  | cons token rest inductionHypothesis =>
    simp [expandFrom, inductionHypothesis, Scan.append, Scan.prepend]

/-- Without aliases tokens stand for themselves. -/
@[simp] theorem expand_empty (tokens : List Token) : expand .empty tokens = ⟨tokens, none⟩ :=
  expandFrom_empty false tokens

/-- Without aliases the tokens of a program are those of its text. -/
@[simp] theorem ofProgram_empty (source : String) : ofProgram .empty source = scan source := by
  simp [ofProgram, Scan.append, Scan.prepend]

/-! ## Groups -/

/-- A group that is closed stays closed, and is one only without more tokens. -/
theorem closesAtEnd_append {depth : Nat} {tokens : List Token}
    (closes : closesAtEnd depth tokens = true) (more : List Token) :
    closesAtEnd depth (tokens ++ more) = more.isEmpty := by
  fun_induction closesAtEnd depth tokens with
  | case1 => cases closes
  | case3 rest =>
    rw [List.isEmpty_iff.mp closes]
    rfl
  | case2 _ _ inductionHypothesis
  | case4 _ _ inductionHypothesis
  | case5 _ _ inductionHypothesis
  | case6 _ _ _ inductionHypothesis => simpa [closesAtEnd] using inductionHypothesis closes

/-- Tokens have one beginning that closes a group at most. -/
theorem eq_of_closesAtEnd {depth : Nat} {tokens others more otherMore : List Token}
    (closes : closesAtEnd depth tokens = true) (otherCloses : closesAtEnd depth others = true)
    (same : tokens ++ more = others ++ otherMore) : tokens = others := by
  rcases List.append_eq_append_iff.mp same with ⟨between, rfl, -⟩ | ⟨between, rfl, -⟩
  · rw [closesAtEnd_append closes, List.isEmpty_iff] at otherCloses
    rw [otherCloses, List.append_nil]
  · rw [closesAtEnd_append otherCloses, List.isEmpty_iff] at closes
    rw [closes, List.append_nil]

/-- What ends in an identifier does not close a group with its last token. -/
theorem closesAtEnd_append_ident (depth : Nat) (tokens : List Token) (text : String) :
    closesAtEnd depth (tokens ++ [.ident text]) = false := by
  fun_induction closesAtEnd depth tokens with
  | case1 => simp [closesAtEnd]
  | case3 => simp [closesAtEnd]
  | case2 _ _ inductionHypothesis
  | case4 _ _ inductionHypothesis
  | case5 _ _ inductionHypothesis
  | case6 _ _ _ inductionHypothesis => simpa [closesAtEnd] using inductionHypothesis

/-- What ends in an identifier is no group. -/
theorem isGroup_append_ident (tokens : List Token) (text : String) :
    isGroup (tokens ++ [.ident text]) = false := by
  match tokens with
  | .lparen :: rest => exact closesAtEnd_append_ident 0 rest text
  | [] | .rparen :: _ | .quote :: _ | .ident _ :: _ => rfl

mutual
/-- The tokens of a form leave the depth as it is. -/
theorem closesAtEnd_tokens (depth : Nat) (tree : Derivation) (rest : List Token) :
    closesAtEnd depth (tree.tokens ++ rest) = closesAtEnd depth rest := by
  match tree with
  | .ident text => simp [Derivation.tokens, closesAtEnd]
  | .quote inner => simpa [Derivation.tokens, closesAtEnd] using closesAtEnd_tokens depth inner rest
  | .row items =>
    simp [Derivation.tokens, closesAtEnd, closesAtEnd_tokensOfAll (depth + 1) items]

/-- The tokens of forms leave the depth as it is. -/
theorem closesAtEnd_tokensOfAll (depth : Nat) (items : List Derivation) (rest : List Token) :
    closesAtEnd depth (Derivation.tokensOfAll items ++ rest) = closesAtEnd depth rest := by
  match items with
  | [] => rfl
  | item :: others =>
    rw [Derivation.tokensOfAll, List.append_assoc, closesAtEnd_tokens depth item,
      closesAtEnd_tokensOfAll depth others]
end

/-- A group that begins a row of forms is the first of them. -/
theorem exists_of_isGroup {tokens more : List Token} {items : List Derivation}
    (isGroup : isGroup tokens = true) (same : Derivation.tokensOfAll items = tokens ++ more) :
    ∃ tree : Derivation, tree.tokens = tokens := by
  unfold Token.isGroup at isGroup
  split at isGroup
  next inner =>
    match items with
    | .row group :: others =>
      rw [Derivation.tokensOfAll, Derivation.tokens, List.cons_append, List.cons_append,
        List.cons.injEq] at same
      have closes : closesAtEnd 0 (Derivation.tokensOfAll group ++ [.rparen]) = true :=
        closesAtEnd_tokensOfAll 0 group [.rparen]
      refine ⟨.row group, ?_⟩
      rw [Derivation.tokens, eq_of_closesAtEnd closes isGroup same.2]
    | [] | .ident _ :: _ | .quote _ :: _ =>
      simp [Derivation.tokensOfAll, Derivation.tokens] at same
  · cases isGroup

end LispShell.Token
