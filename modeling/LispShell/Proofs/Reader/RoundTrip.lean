import LispShell.Expr.Printer
import LispShell.Proofs.Expr.Shape
import LispShell.Proofs.Reader.Program
import LispShell.Proofs.Token.Length
import LispShell.Proofs.Token.Line

/-! # Reading what is printed
An expression is printed as a form, whose row of tokens the scanner finds again at any depth and
however the form is broken over lines. So printed data reads as itself behind a quote, and printed
syntax as itself, if every atom is plain. An atom that is not plain is never read back. -/

namespace LispShell

namespace Derivation

mutual
/-- The form that an expression is printed as. -/
def ofExpr : Expr → Derivation
  | .atom text => .ident text
  | .call items => .row (ofAll items)
  | .list items => .row (ofAll items)

/-- The forms that a row of expressions is printed as. -/
def ofAll : List Expr → List Derivation
  | [] => []
  | item :: rest => ofExpr item :: ofAll rest
end

theorem ofAll_eq_map (items : List Expr) : ofAll items = items.map ofExpr := by
  induction items with
  | nil => rfl
  | cons item rest inductionHypothesis => simp [ofAll, inductionHypothesis]

/-- Data is the quoted value of the form that it is printed as. -/
theorem toData_value_ofExpr {v : Expr} (isData : v.isData = true) :
    (ofExpr v).value.toData = v := by
  induction v with
  | atom text => rfl
  | call items => simp at isData
  | list items inductionHypothesis =>
    rw [Expr.isData_list] at isData
    have areSame : ∀ item ∈ items, (ofExpr item).value.toData = item := fun item isIn =>
      inductionHypothesis item isIn (isData item isIn)
    simp only [ofExpr, value, Expr.toData, ofAll_eq_map, valueOfAll_eq_map, Expr.toDataAll_eq_map,
      List.map_map, Function.comp_def]
    rw [List.map_congr_left areSame, List.map_id']

/-- Syntax is the value of the form that it is printed as. -/
theorem value_ofExpr {e : Expr} (isSyntax : e.isSyntax = true) : (ofExpr e).value = e := by
  induction e with
  | atom text => rfl
  | call items inductionHypothesis =>
    rw [Expr.isSyntax, Expr.areSyntax_iff] at isSyntax
    have areSame : ∀ item ∈ items, (ofExpr item).value = item := fun item isIn =>
      inductionHypothesis item isIn (isSyntax item isIn)
    simp only [ofExpr, value, ofAll_eq_map, valueOfAll_eq_map, List.map_map, Function.comp_def]
    rw [List.map_congr_left areSame, List.map_id']
  | list items => simp [Expr.isSyntax] at isSyntax

end Derivation

/-! ## Scanning what is printed -/

namespace Token

/-- A text between double quotes is a token. -/
theorem scanFrom_quotedText {text : List Char} (areQuotable : ∀ c ∈ text, isQuotable c)
    (rest : List Char) :
    scanFrom (.bare []) ('"' :: text ++ '"' :: rest) =
      (scanFrom (.bare []) rest).prepend [.ident (String.ofList text)] := by
  rw [List.cons_append, scanFrom]
  simp [ScanMode.step, ScanMode.stepBare, ScanMode.endWord, scanFrom_quotable areQuotable, scanFrom,
    ScanMode.stepQuoted, ScanMode.heldToken]

end Token

namespace Expr

/-- Whether an atom is plain: it is empty or has a blank, and has no double quote and no backslash;
or it has no blank and none of `( ) ' " ; \`. -/
def isPlain (text : String) : Bool :=
  if text == "" || text.toList.any Text.isBlank then text.toList.all Token.isQuotable
  else text.toList.all Token.isWordChar

/-- The printed form of an atom, whose quotes are one case. -/
theorem renderAtom_eq (text : String) :
    renderAtom text =
      if text == "" || text.toList.any Text.isBlank then "\"" ++ text ++ "\"" else text := by
  unfold renderAtom
  by_cases isEmpty : text = ""
  · simp [isEmpty]
  · simp [isEmpty]

variable {rest : List Char}

/-- A plain atom is printed as its token. -/
theorem scanFrom_renderAtom {text : String} (isPlain : isPlain text = true)
    (isEnded : Token.EndWords rest) :
    Token.scanFrom (.bare []) ((renderAtom text).toList ++ rest) =
      (Token.scanFrom (.bare []) rest).prepend [.ident text] := by
  rw [renderAtom_eq]
  unfold Expr.isPlain at isPlain
  split at isPlain
  · next needsQuotes =>
    rw [if_pos needsQuotes]
    have isQuoted := Token.scanFrom_quotedText (List.all_eq_true.mp isPlain) rest
    simpa using isQuoted
  · next noQuotes =>
    rw [if_neg noQuotes, Token.scanFrom_word (List.all_eq_true.mp isPlain),
      Token.scanFrom_endWord isEnded, ScanMode.endWord]
    have isNonempty : text ≠ "" := by
      rintro rfl
      exact noQuotes rfl
    simp [ScanMode.heldToken, isNonempty]

/-- Whether an expression is printed as the tokens of its form, in front of anything that ends a
word. -/
def PrintsTokens (e : Expr) : Prop :=
  ∀ rest, Token.EndWords rest →
    Token.scanFrom (.bare []) (e.render.toList ++ rest) =
      (Token.scanFrom (.bare []) rest).prepend (Derivation.ofExpr e).tokens

/-- Items that are printed as their tokens are so in a row, with blanks between them. -/
theorem scanFrom_intercalate (separator : String) (separates : separator ≠ "")
    (areBlank : separator.toList.all Text.isBlank = true) {items : List Expr}
    (print : ∀ item ∈ items, item.PrintsTokens) (isEnded : Token.EndWords rest) :
    Token.scanFrom (.bare []) ((String.intercalate separator (renderAll items)).toList ++ rest) =
      (Token.scanFrom (.bare []) rest).prepend
        (Derivation.tokensOfAll (Derivation.ofAll items)) := by
  rw [String.toList_intercalate]
  induction items with
  | nil => rfl
  | cons item items inductionHypothesis =>
    obtain ⟨printsFirst, printOthers⟩ := List.forall_mem_cons.mp print
    rw [renderAll, List.map_cons, Derivation.ofAll, Derivation.tokensOfAll]
    cases items with
    | nil =>
      simpa [renderAll, Derivation.ofAll, Derivation.tokensOfAll] using printsFirst rest isEnded
    | cons next items =>
      have restPrints := inductionHypothesis printOthers
      have isSeparated (others : List Char) : Token.EndWords (separator.toList ++ others) := by
        cases chars : separator.toList with
        | nil => exact absurd (String.toList_eq_nil_iff.mp chars) separates
        | cons blank blanks =>
          rintro c ⟨⟩
          exact .inl (List.all_eq_true.mp areBlank blank (by simp [chars]))
      rw [renderAll, List.map_cons] at restPrints ⊢
      rw [List.intercalate_cons_cons, List.append_assoc, List.append_assoc,
        printsFirst _ (isSeparated _), Token.scanFrom_blanks (List.all_eq_true.mp areBlank),
        restPrints, Scan.prepend_prepend]

/-- A row is printed as its tokens, in one line or in several. -/
theorem scanFrom_renderItems {items : List Expr} (print : ∀ item ∈ items, item.PrintsTokens)
    (wrap : Bool) :
    Token.scanFrom (.bare []) ((renderItems wrap (renderAll items)).toList ++ rest) =
      (Token.scanFrom (.bare []) rest).prepend
        (Derivation.row (Derivation.ofAll items)).tokens := by
  -- the blanks of either layout are skipped, so both give the same tokens
  cases wrap with
  | false =>
    have opening (others : List Char) : Token.scanFrom (.bare []) ('(' :: others) =
        (Token.scanFrom (.bare []) others).prepend [.lparen] := rfl
    have closing : Token.scanFrom (.bare []) (')' :: rest) =
        (Token.scanFrom (.bare []) rest).prepend [.rparen] := rfl
    have isEnded : Token.EndWords (')' :: rest) := by
      rintro c ⟨⟩
      exact .inr rfl
    have inner := scanFrom_intercalate " " (by decide) rfl print isEnded
    simp [renderItems, opening, inner, closing, Derivation.tokens, -String.toList_intercalate]
  | true =>
    have opening (others : List Char) : Token.scanFrom (.bare []) ('(' :: '\n' :: '\t' :: others) =
        (Token.scanFrom (.bare []) others).prepend [.lparen] := rfl
    have closing : Token.scanFrom (.bare []) ('\n' :: ')' :: rest) =
        (Token.scanFrom (.bare []) rest).prepend [.rparen] := rfl
    have isEnded : Token.EndWords ('\n' :: ')' :: rest) := by
      rintro c ⟨⟩
      exact .inl rfl
    have inner := scanFrom_intercalate "\n\t" (by decide) rfl print isEnded
    simp [renderItems, opening, inner, closing, Derivation.tokens, -String.toList_intercalate]

/-- An expression of plain atoms is printed as its tokens. -/
theorem printsTokens {e : Expr} (arePlain : ∀ text ∈ e.atoms, isPlain text = true) :
    e.PrintsTokens := by
  induction e with
  | atom text =>
    exact fun rest isEnded => scanFrom_renderAtom (arePlain text (by simp [atoms])) isEnded
  | call items inductionHypothesis =>
    rw [atoms] at arePlain
    refine fun rest _ => scanFrom_renderItems (fun item isIn => ?_) false
    exact inductionHypothesis item isIn (forall_atoms_of_mem arePlain isIn)
  | list items inductionHypothesis =>
    rw [atoms] at arePlain
    refine fun rest _ => scanFrom_renderItems (fun item isIn => ?_) _
    exact inductionHypothesis item isIn (forall_atoms_of_mem arePlain isIn)

end Expr

/-! ## Reading it back -/

/-- A text that scans as the tokens of a form reads as its value, if the reader has room for it. -/
theorem readProgram_of_scan {limit : Nat} {source : String} {tree : Derivation}
    (isScan : Token.scan source = ⟨tree.tokens, none⟩) :
    readProgram limit .empty source =
      if tree.nesting ≤ limit then ([tree.value], none) else ([], some .nestingTooDeep) := by
  rw [readProgram_eq_readForms, Token.ofProgram_empty, isScan]
  exact readForms_tokens limit tree

/-- A text that reads as one expression scans as the tokens of a form of that value. -/
theorem exists_of_readProgram_eq {limit : Nat} {source : String} {e : Expr}
    (isRead : readProgram limit .empty source = ([e], none)) :
    ∃ tree : Derivation, Token.scan source = ⟨tree.tokens, none⟩ ∧ tree.value = e := by
  rw [readProgram_eq_readForms, Token.ofProgram_empty] at isRead
  generalize Token.scan source = scanned at isRead ⊢
  obtain ⟨tokens, failure⟩ := scanned
  obtain ⟨rfl, trees, isTokens, areValues⟩ := exists_of_readForms_ok [] isRead
  match trees, areValues with
  | [tree], areValues =>
    have isTree : tree.tokens = tokens := by
      simpa [Derivation.tokensOfAll, Derivation.Frame.tokensOfAll] using isTokens
    exact ⟨tree, by rw [isTree], by simpa using areValues⟩

/-- The scan of a text behind a quote. -/
theorem scan_quote (text : String) :
    Token.scan ("'" ++ text) = (Token.scan text).prepend [.quote] := by
  simp [Token.scan, Token.scanFrom, ScanMode.step, ScanMode.stepBare, ScanMode.endWord]

namespace Expr

/-- The printed form of plain atoms scans as its tokens. -/
theorem scan_render {e : Expr} (arePlain : ∀ text ∈ e.atoms, isPlain text = true) :
    Token.scan e.render = ⟨(Derivation.ofExpr e).tokens, none⟩ := by
  have isScan := printsTokens arePlain [] (by simp [Token.EndWords])
  rw [List.append_nil] at isScan
  rw [Token.scan, isScan]
  simp [Token.scanFrom, ScanMode.finish, ScanMode.endWord, Scan.prepend]

/-! ## Atoms that are not plain -/

/-- A form whose value is an atom has no other identifier than its text. -/
theorem identLength_tokens (tree : Derivation) {text : String} (isAtom : tree.value = .atom text) :
    Token.identLength tree.tokens = text.length := by
  match tree with
  | .ident other =>
    cases isAtom
    rfl
  | .quote inner =>
    have isInner : inner.value = .atom text := by
      rw [Derivation.value] at isAtom
      cases isValue : inner.value <;> simp_all [toData]
    exact identLength_tokens inner isInner
  | .row items => cases isAtom

/-- The printed form of an atom that is not plain has fewer characters in its identifiers than the
atom, or its last backslash has become a double quote. -/
theorem scan_renderAtom_of_not_isPlain {text : String} (notPlain : isPlain text = false) :
    Token.identLength (Token.scan (renderAtom text)).tokens < text.length ∨
    ∃ before, text = before ++ "\\" ∧
      Token.scan (renderAtom text) = ⟨[.ident (before ++ "\"")], none⟩ := by
  rw [renderAtom_eq]
  unfold isPlain at notPlain
  split at notPlain
  · next needsQuotes =>
    have isScan : Token.scan ("\"" ++ text ++ "\"") =
        Token.scanFrom (.quoted []) (text.toList ++ ['"']) := by
      simp [Token.scan, Token.scanFrom, ScanMode.step, ScanMode.stepBare, ScanMode.endWord]
    rw [if_pos needsQuotes, isScan]
    have notQuotable : ∃ c ∈ text.toList, Token.isQuotable c = false := by
      simpa using notPlain
    rcases Token.scanFrom_of_not_isQuotable notQuotable [] with shorter | ⟨before, isText, isIdent⟩
    · exact .inl (by simpa [String.length_toList] using shorter)
    · refine .inr ⟨String.ofList before, ?_, ?_⟩
      · rw [← String.toList_inj]
        simpa using isText
      · rw [isIdent]
        simp
  · next noQuotes =>
    rw [if_neg noQuotes]
    have notWord : ∃ c ∈ text.toList, Token.isWordChar c = false := by
      simpa using notPlain
    have shorter := Token.identLength_scanFrom_lt_of_not_isWordChar notWord []
    exact .inl (by simpa [Token.scan, String.length_toList] using shorter)

/-- An atom that is not plain is not read back. -/
theorem readProgram_render_ne {limit : Nat} {text : String} (notPlain : isPlain text = false) :
    readProgram limit .empty ("'" ++ (atom text).render) ≠ ([.atom text], none) := by
  intro isRead
  obtain ⟨tree, isScan, isAtom⟩ := exists_of_readProgram_eq isRead
  rw [scan_quote, render] at isScan
  rcases scan_renderAtom_of_not_isPlain notPlain with shorter | ⟨before, rfl, isIdent⟩
  · have isLength := congrArg (Token.identLength ∘ Scan.tokens) isScan
    simp only [Function.comp_apply, Scan.prepend, Token.identLength_append, Token.identLength,
      Nat.zero_add, identLength_tokens tree isAtom] at isLength
    omega
  · rw [isIdent] at isScan
    have isTree : (Derivation.quote (.ident (before ++ "\""))).tokens = tree.tokens :=
      congrArg Scan.tokens isScan
    rw [← Derivation.tokens_injective isTree] at isAtom
    simp [Derivation.value, toData] at isAtom

/-- Reading undoes printing. Behind a quote the printed form of a tree of lists and plain atoms
reads as exactly that tree, and the printed form of a tree of calls and plain atoms as exactly that
tree; the only other thing that can happen is that the form nests deeper than the reader holds. An
atom that is not plain is not read back. -/
theorem read_render (limit : Nat) :
    (∀ v : Expr, v.isData = true → (∀ text ∈ v.atoms, isPlain text = true) →
      readProgram limit .empty ("'" ++ v.render) =
        if (Derivation.quote (.ofExpr v)).nesting ≤ limit then ([v], none)
        else ([], some .nestingTooDeep)) ∧
    (∀ e : Expr, e.isSyntax = true → (∀ text ∈ e.atoms, isPlain text = true) →
      readProgram limit .empty e.render =
        if (Derivation.ofExpr e).nesting ≤ limit then ([e], none)
        else ([], some .nestingTooDeep)) ∧
    ∀ text : String, isPlain text = false →
      readProgram limit .empty ("'" ++ (atom text).render) ≠ ([atom text], none) := by
  refine ⟨fun v isData arePlain => ?_, fun e isSyntax arePlain => ?_, fun text notPlain => ?_⟩
  · have isScan : Token.scan ("'" ++ v.render) = ⟨(Derivation.quote (.ofExpr v)).tokens, none⟩ := by
      rw [scan_quote, scan_render arePlain]
      rfl
    rw [readProgram_of_scan isScan, Derivation.value, Derivation.toData_value_ofExpr isData]
  · rw [readProgram_of_scan (scan_render arePlain), Derivation.value_ofExpr isSyntax]
  · exact readProgram_render_ne notPlain

/-- A list of an atom with a blank and the empty list reads back. -/
theorem read_render_list :
    readProgram 3 .empty ("'" ++ (Expr.list [.atom "a b", .list []]).render) =
      ([.list [.atom "a b", .list []]], none) := by
  rw [(read_render 3).1 (.list [.atom "a b", .list []]) (by decide) (by decide)]
  exact if_pos (by decide)

end Expr

end LispShell
