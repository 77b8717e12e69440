import LispShell.Proofs.Reader.Acceptance
import LispShell.Proofs.Token.Line
import LispShell.Proofs.Token.Scanner
import LispShell.Reader.Source

/-! # Lines that go on
A command line that fails but can be mended by more lines should count as incomplete, so that more
is read. A line is put into parentheses before it is read, so whatever is open at its end meets a
closing parenthesis first. Open parentheses and escapes are still found incomplete; a quote at the
end of the line is not. -/

namespace LispShell

/-- Without aliases a line is read from its tokens as one group. -/
theorem readLine_empty {limit : Nat} {source : String} {scanned : Scan}
    (isScan : Token.scan source = scanned) :
    readLine limit .empty source =
      match scanned.failure with
      | some fault => .error fault
      | none => Expr.ofTokens limit (Token.wrap scanned.tokens) := by
  subst isScan
  unfold readLine Token.ofLine
  rcases Token.scan source with ⟨tokens, _ | fault⟩ <;>
    simp [Scan.toExcept, bind, Except.bind]

/-- The tokens of a line that reads as an expression are a row of forms. -/
theorem exists_of_readLine_ok {limit : Nat} {source : String} {scanned : Scan} {e : Expr}
    (isScan : Token.scan source = scanned) (isRead : readLine limit .empty source = .ok e) :
    scanned.failure = none ∧ ∃ items, Derivation.tokensOfAll items = scanned.tokens := by
  rw [readLine_empty isScan] at isRead
  obtain ⟨tokens, _ | fault⟩ := scanned
  case some => cases isRead
  refine ⟨rfl, ?_⟩
  by_cases isEmpty : tokens = []
  · exact ⟨[], isEmpty.symm⟩
  cases isGroup : Token.isGroup tokens with
  | true =>
    simp only [Token.wrap, isGroup, Bool.or_true, if_true] at isRead
    obtain ⟨tree, rfl, -⟩ := Expr.exists_of_ofTokens_ok isEmpty isRead
    exact ⟨[tree], List.append_nil _⟩
  | false =>
    simp only [Token.wrap, isGroup, List.isEmpty_eq_false_iff.mpr isEmpty, Bool.or_false] at isRead
    obtain ⟨tree, isTokens, -⟩ := Expr.exists_of_ofTokens_ok (by simp) isRead
    cases tree with
    | ident text => simp [Derivation.tokens] at isTokens
    | quote inner => simp [Derivation.tokens] at isTokens
    | row items => exact ⟨items, by simpa [Derivation.tokens] using isTokens⟩

namespace Derivation

/-- The last token of a form is no quote. -/
theorem exists_last (tree : Derivation) :
    ∃ before last, tree.tokens = before ++ [last] ∧ last ≠ .quote := by
  cases tree with
  | ident text => exact ⟨[], .ident text, rfl, by simp⟩
  | quote inner =>
    obtain ⟨before, last, isLast, notQuote⟩ := exists_last inner
    exact ⟨.quote :: before, last, by rw [tokens, isLast, List.cons_append], notQuote⟩
  | row items => exact ⟨.lparen :: tokensOfAll items, .rparen, rfl, by simp⟩

/-- The last token of an open parenthesis and its forms is no quote. -/
theorem Frame.exists_last (items : List Derivation) :
    ∃ before last, (row items).tokens = before ++ [last] ∧ last ≠ .quote := by
  cases items with
  | nil => exact ⟨[], .lparen, rfl, by simp⟩
  | cons item items =>
    obtain ⟨before, last, isLast, notQuote⟩ := item.exists_last
    refine ⟨.lparen :: (Derivation.tokensOfAll items.reverse ++ before), last, ?_, notQuote⟩
    simp [tokens, tokensOfAll_append, Derivation.tokensOfAll, isLast]

end Derivation

/-- Where a closing parenthesis is put after open frames, the fault is final exactly if a quote is
pending there. -/
theorem isFinal_iff_of_frames {limit : Nat} {tokens : List Token} {fault : ReadError}
    {frames : List Derivation.Frame}
    (isOpen : Derivation.Frame.tokensOfAll frames = .lparen :: tokens)
    (failed : Expr.ofTokens limit (.lparen :: tokens ++ [.rparen]) = .error fault)
    (shallow : fault ≠ .nestingTooDeep) :
    fault.isIncomplete = false ↔ ∃ before, tokens = before ++ [.quote] := by
  rw [← isOpen, Expr.ofTokens, isOpen, List.cons_append, List.isEmpty_cons, ← List.cons_append,
    ← isOpen] at failed
  rcases Reading.readForm_frames limit frames [.rparen] with ⟨-, reading⟩ | tooDeep
  · rw [reading] at failed
    cases frames with
    | nil => cases isOpen
    | cons frame outer =>
      cases frame with
      | quote =>
        cases failed
        refine iff_of_true rfl ?_
        rcases List.append_eq_cons_iff.mp isOpen with ⟨-, isQuote⟩ | ⟨before, -, isLast⟩
        · cases isQuote
        · exact ⟨before, isLast⟩
      | row items =>
        refine iff_of_false ?_ ?_
        · simp only [List.map_cons, Derivation.Frame.opened, Reading.readForm,
            Reading.feed] at failed
          cases placed : Reading.place (.call (items.map Derivation.value).reverse)
              (outer.map Derivation.Frame.opened) with
          | finished form => simp [placed] at failed
          | unfinished inner =>
            rw [placed] at failed
            cases failed
            simp
        · rintro ⟨before, rfl⟩
          obtain ⟨inner, last, isLast, notQuote⟩ := Derivation.Frame.exists_last items
          rw [Derivation.Frame.tokensOfAll, isLast, ← List.append_assoc,
            ← List.cons_append] at isOpen
          cases (List.append_inj' isOpen rfl).2
          exact notQuote rfl
  · rw [tooDeep] at failed
    cases failed
    exact absurd rfl shallow

section

variable {limit : Nat} {line : String} {tokens : List Token} {fault : ReadError}
  (isScan : Token.scan line = ⟨tokens, none⟩) (failed : readLine limit .empty line = .error fault)
  (shallow : fault ≠ .nestingTooDeep)
include isScan failed shallow

/-- A line that fails is not the group of a form. -/
theorem isGroup_eq_false_of_failed {items : List Derivation} {more : List Token}
    (isRow : Derivation.tokensOfAll items = tokens ++ more) : Token.isGroup tokens = false := by
  refine Bool.eq_false_iff.mpr fun isGroup => ?_
  obtain ⟨tree, rfl⟩ := Token.exists_of_isGroup isGroup isRow
  rw [readLine_empty isScan] at failed
  simp only [Token.wrap, isGroup, Bool.or_true, if_true, Expr.ofTokens_tokens] at failed
  split at failed <;> cases failed
  exact shallow rfl

/-- The fault of a line whose tokens, behind a parenthesis, are those of open frames is final
exactly if a quote is pending at its end. -/
theorem isFinal_iff_of_failed {frames : List Derivation.Frame}
    (isOpen : Derivation.Frame.tokensOfAll frames = .lparen :: tokens)
    (notGroup : Token.isGroup tokens = false) :
    fault.isIncomplete = false ↔ ∃ before, tokens = before ++ [.quote] := by
  rw [readLine_empty isScan] at failed
  have isNonempty : tokens ≠ [] := by
    rintro rfl
    cases failed
  simp only [Token.wrap, notGroup, List.isEmpty_eq_false_iff.mpr isNonempty,
    Bool.or_false] at failed
  exact isFinal_iff_of_frames isOpen failed shallow

/-- The fault of a line whose tokens a row of forms begins with is final exactly if a quote is
pending at its end. -/
theorem isFinal_iff_of_tokensOfAll {items : List Derivation} {more : List Token}
    (isRow : Derivation.tokensOfAll items = tokens ++ more) :
    fault.isIncomplete = false ↔ ∃ before, tokens = before ++ [.quote] := by
  have isWhole : (Derivation.row items).tokens = (.lparen :: tokens) ++ (more ++ [.rparen]) := by
    simp [Derivation.tokens, isRow]
  obtain ⟨frames, isOpen⟩ := Derivation.exists_frames_of_append isWhole (by simp)
  exact isFinal_iff_of_failed isScan failed shallow isOpen
    (isGroup_eq_false_of_failed isScan failed shallow isRow)

end

/-- A line that ends in an identifier has an incomplete fault if a row of forms begins with its
tokens, up to the text of the identifier. -/
theorem isIncomplete_of_ident {limit : Nat} {line : String} {before more : List Token}
    {text other : String} {fault : ReadError} {items : List Derivation}
    (isScan : Token.scan line = ⟨before ++ [.ident text], none⟩)
    (failed : readLine limit .empty line = .error fault) (shallow : fault ≠ .nestingTooDeep)
    (isRow : Derivation.tokensOfAll items = before ++ .ident other :: more) :
    fault.isIncomplete = true := by
  have isWhole : (Derivation.row items).tokens =
      (.lparen :: before) ++ (.ident other :: more ++ [.rparen]) := by
    simp [Derivation.tokens, isRow]
  obtain ⟨frames, isOpen⟩ := Derivation.exists_frames_of_append isWhole (by simp)
  -- the frames before the identifier take it whatever its text
  have isPlaced := Derivation.Progress.tokens_place (.ident text) frames
  rw [isOpen, Derivation.tokens, List.cons_append] at isPlaced
  have notGroup := Token.isGroup_append_ident before text
  rw [← Bool.not_eq_false]
  cases placed : Derivation.Progress.place (.ident text) frames with
  | finished tree =>
    rw [placed, Derivation.Progress.tokens] at isPlaced
    cases tree with
    | ident text => cases isPlaced
    | quote inner => cases isPlaced
    | row items => cases (List.append_inj' (List.cons.inj isPlaced).2 rfl).2
  | unfinished inner =>
    rw [placed, Derivation.Progress.tokens] at isPlaced
    rw [isFinal_iff_of_failed isScan failed shallow isPlaced notGroup]
    rintro ⟨others, isQuote⟩
    cases (List.append_inj' isQuote rfl).2

/-- A line that fails, but reads as an expression with more lines after it, is taken for complete
exactly if its last token is a quote, with no fault of the scan after it. -/
theorem isComplete_iff_quote_pending {limit more : Nat} {line rest : String} {fault : ReadError}
    {e : Expr} (failed : readLine limit .empty line = .error fault)
    (shallow : fault ≠ .nestingTooDeep)
    (mended : readLine more .empty (line ++ "\n" ++ rest) = .ok e) :
    isComplete limit .empty line = true ↔
      ∃ before, Token.scan line = ⟨before ++ [.quote], none⟩ := by
  have isComplete_iff : isComplete limit .empty line = true ↔ fault.isIncomplete = false := by
    simp [isComplete, failed]
  have isWhole : Token.scan (line ++ "\n" ++ rest) =
      Token.scanFrom (.bare []) (line.toList ++ '\n' :: rest.toList) := by
    simp [Token.scan]
  rw [isComplete_iff]
  obtain ⟨tokens, cause, failing⟩ | ⟨tokens, next, passing⟩ :=
    Token.scanFrom_append (.bare []) line.toList
  · rw [failing] at isWhole
    cases (exists_of_readLine_ok isWhole mended).1
  have isLine : Token.scan line = next.finish.prepend tokens := by
    simpa [Token.scan, Token.scanFrom] using passing []
  rw [passing] at isWhole
  obtain ⟨noFault, items, isRow⟩ := exists_of_readLine_ok isWhole mended
  -- what the end of the line finds the scanner in the middle of
  cases next with
  | bare held =>
    have isScan : Token.scan line = ⟨tokens ++ ScanMode.endWord held, none⟩ := isLine
    have isEnded : Token.EndWords ('\n' :: rest.toList) := by
      rintro c ⟨⟩
      exact .inl rfl
    rw [Token.scanFrom_endWord isEnded, Scan.prepend_prepend] at isRow
    rw [isFinal_iff_of_tokensOfAll isScan failed shallow isRow, isScan]
    simp
  | comment =>
    have isScan : Token.scan line = ⟨tokens, none⟩ := by
      simpa [ScanMode.finish, Scan.nil, Scan.prepend] using isLine
    rw [isFinal_iff_of_tokensOfAll isScan failed shallow isRow, isScan]
    simp
  | quoted held =>
    have isScan : Token.scan line = ⟨tokens ++ [ScanMode.heldToken held], none⟩ := isLine
    -- the quoted text goes on in the next line, so the line ends in another identifier
    obtain ⟨other, others, isIdent⟩ := Token.exists_ident_of_isInQuotes rfl noFault
    rw [isIdent] at isRow
    simp [isIncomplete_of_ident isScan failed shallow isRow, isScan, ScanMode.heldToken]
  | escape inQuotes held =>
    rw [readLine_empty isLine] at failed
    cases failed
    simp [ReadError.isIncomplete, isLine, ScanMode.finish, Scan.prepend]
  | hexEscape inQuotes held => exact absurd noFault (Token.scanFrom_hexEscape_newline _ _ _)
  | hexDigit inQuotes held high => exact absurd noFault (Token.scanFrom_hexDigit_newline _ _ _ _)

/-- An open parenthesis is found incomplete. -/
theorem isComplete_eq_false_of_open_row :
    readLine 2 .empty "(a" = .error .unmatchedParen ∧
    readLine 1 .empty ("(a" ++ "\n" ++ ")") = .ok (.call [.atom "a"]) ∧
    isComplete 2 .empty "(a" = false := by
  have failed : readLine 2 .empty "(a" = .error .unmatchedParen := rfl
  have mended : readLine 1 .empty ("(a" ++ "\n" ++ ")") = .ok (.call [.atom "a"]) := rfl
  refine ⟨failed, mended, Bool.eq_false_iff.mpr fun isComplete => ?_⟩
  obtain ⟨before, isQuote⟩ := (isComplete_iff_quote_pending failed (by decide) mended).mp isComplete
  have isLast : [.lparen] ++ [.ident "a"] = before ++ [Token.quote] := congrArg Scan.tokens isQuote
  cases (List.append_inj' isLast rfl).2

/-- A pending quote is not: the line fails at the parenthesis put after it, though a word on the
next line mends it. -/
theorem isComplete_eq_true_of_quote_pending :
    readLine 100 .empty "'" = .error (.unexpectedToken .rparen) ∧
    readLine 100 .empty ("'" ++ "\n" ++ "a") = .ok (.call [.atom "a"]) ∧
    isComplete 100 .empty "'" = true :=
  ⟨rfl, rfl, rfl⟩

end LispShell
