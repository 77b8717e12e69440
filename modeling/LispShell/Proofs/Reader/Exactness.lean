import LispShell.Proofs.Reader.Line
import LispShell.Proofs.Reader.RoundTrip
import LispShell.Proofs.Token.Ink

/-! # Printed forms that read as what was printed
The printed forms of a row of expressions, scanned one after the other, are the tokens of forms with
these expressions for values only if the row is pure syntax and all its atoms are plain. The ink of
the atoms must not be lost, so no atom has a double quote or a backslash, nor a quote or a semicolon
outside double quotes; and there are no more parentheses than those of the row. -/

namespace LispShell

namespace Expr

mutual
/-- The number of calls and lists at any depth. -/
def rows : Expr → Nat
  | .atom _ => 0
  | .call items => rowsOfAll items + 1
  | .list items => rowsOfAll items + 1

/-- The number of calls and lists at any depth in a row of expressions. -/
def rowsOfAll : List Expr → Nat
  | [] => 0
  | item :: rest => item.rows + rowsOfAll rest
end

mutual
/-- A quoted form has the atoms that it had. -/
theorem atoms_toData (e : Expr) : e.toData.atoms = e.atoms := by
  match e with
  | .atom text => rfl
  | .call items => rw [toData, atoms, atoms, atomsOfAll_toDataAll items]
  | .list items => rfl

/-- Quoted forms have the atoms that they had. -/
theorem atomsOfAll_toDataAll (items : List Expr) :
    atomsOfAll (toDataAll items) = atomsOfAll items := by
  match items with
  | [] => rfl
  | item :: rest =>
    rw [toDataAll, atomsOfAll, atomsOfAll, atoms_toData item, atomsOfAll_toDataAll rest]
end

mutual
/-- A quoted form has as many rows as it had. -/
theorem rows_toData (e : Expr) : e.toData.rows = e.rows := by
  match e with
  | .atom text => rfl
  | .call items => rw [toData, rows, rows, rowsOfAll_toDataAll items]
  | .list items => rfl

/-- Quoted forms have as many rows as they had. -/
theorem rowsOfAll_toDataAll (items : List Expr) :
    rowsOfAll (toDataAll items) = rowsOfAll items := by
  match items with
  | [] => rfl
  | item :: rest =>
    rw [toDataAll, rowsOfAll, rowsOfAll, rows_toData item, rowsOfAll_toDataAll rest]
end

end Expr

namespace Derivation

mutual
/-- The identifiers of a form are the atoms of its value. -/
theorem idents_tokens (tree : Derivation) : Token.idents tree.tokens = tree.value.atoms := by
  match tree with
  | .ident text => rfl
  | .quote inner =>
    have noIdent : Token.idents [.quote] = [] := rfl
    rw [tokens, ← List.singleton_append, Token.idents_append, noIdent, List.nil_append, value,
      Expr.atoms_toData, idents_tokens inner]
  | .row items =>
    have opening : Token.idents [.lparen] = [] := rfl
    have closing : Token.idents [.rparen] = [] := rfl
    rw [tokens, ← List.singleton_append, Token.idents_append, Token.idents_append, opening, closing,
      List.nil_append, List.append_nil, idents_tokensOfAll items, value, Expr.atoms]

/-- The identifiers of forms are the atoms of their values. -/
theorem idents_tokensOfAll (items : List Derivation) :
    Token.idents (tokensOfAll items) = Expr.atomsOfAll (valueOfAll items) := by
  match items with
  | [] => rfl
  | item :: rest =>
    rw [tokensOfAll, Token.idents_append, valueOfAll, Expr.atomsOfAll, idents_tokens item,
      idents_tokensOfAll rest]
end

mutual
/-- A form has two parentheses for each row of its value. -/
theorem parens_tokens (tree : Derivation) : Token.parens tree.tokens = 2 * tree.value.rows := by
  match tree with
  | .ident text => rfl
  | .quote inner =>
    have isInner := parens_tokens inner
    have noParen : Token.parens [.quote] = 0 := rfl
    rw [tokens, ← List.singleton_append, Token.parens_append, noParen, Nat.zero_add, value,
      Expr.rows_toData, isInner]
  | .row items =>
    have areItems := parens_tokensOfAll items
    have opening : Token.parens [.lparen] = 1 := rfl
    have closing : Token.parens [.rparen] = 1 := rfl
    rw [tokens, ← List.singleton_append, Token.parens_append, Token.parens_append, opening, closing,
      areItems, value, Expr.rows]
    omega

/-- Forms have two parentheses for each row of their values. -/
theorem parens_tokensOfAll (items : List Derivation) :
    Token.parens (tokensOfAll items) = 2 * Expr.rowsOfAll (valueOfAll items) := by
  match items with
  | [] => rfl
  | item :: rest =>
    have isFirst := parens_tokens item
    have areOthers := parens_tokensOfAll rest
    rw [tokensOfAll, Token.parens_append, valueOfAll, Expr.rowsOfAll]
    omega
end

mutual
/-- What an expression is printed as is pure syntax. -/
theorem isSyntax_value_ofExpr (e : Expr) : (ofExpr e).value.isSyntax = true := by
  match e with
  | .atom text => rfl
  | .call items => exact areSyntax_valueOfAll_ofAll items
  | .list items => exact areSyntax_valueOfAll_ofAll items

/-- What a row of expressions is printed as is pure syntax. -/
theorem areSyntax_valueOfAll_ofAll (items : List Expr) :
    Expr.areSyntax (valueOfAll (ofAll items)) = true := by
  match items with
  | [] => rfl
  | item :: rest =>
    rw [ofAll, valueOfAll, Expr.areSyntax, isSyntax_value_ofExpr item,
      areSyntax_valueOfAll_ofAll rest]
    rfl
end

end Derivation

namespace Token

/-! ## Marks in printed texts -/

variable {cs : List Char}

/-- Between double quotes nothing is marked. -/
theorem marks_quoted (areQuotable : ∀ c ∈ cs, isQuotable c = true) (rest : List Char) :
    marks true (cs ++ rest) = marks true rest := by
  induction cs with
  | nil => rfl
  | cons c cs inductionHypothesis =>
    obtain ⟨isFirst, areOthers⟩ := List.forall_mem_cons.mp areQuotable
    have notQuote : c ≠ '"' := by
      rintro rfl
      cases isFirst
    rw [List.cons_append, marks, if_neg notQuote, Bool.not_true, Bool.false_and,
      if_neg Bool.false_ne_true, inductionHypothesis areOthers]

/-- Outside double quotes a text without double quotes has its marks. -/
theorem marks_bare (areQuotable : ∀ c ∈ cs, isQuotable c = true) (rest : List Char) :
    marks false (cs ++ rest) = cs.countP isMark + marks false rest := by
  induction cs with
  | nil => exact (Nat.zero_add _).symm
  | cons c cs inductionHypothesis =>
    obtain ⟨isFirst, areOthers⟩ := List.forall_mem_cons.mp areQuotable
    have notQuote : c ≠ '"' := by
      rintro rfl
      cases isFirst
    rw [List.cons_append, marks, if_neg notQuote, Bool.not_false, Bool.true_and,
      inductionHypothesis areOthers, List.countP_cons]
    split <;> omega

/-- Blanks are not marked. -/
theorem marks_blanks (areBlank : ∀ c ∈ cs, Text.isBlank c = true) (rest : List Char) :
    marks false (cs ++ rest) = marks false rest := by
  have noMark (c : Char) (isBlank : Text.isBlank c = true) : isMark c = false := by
    rw [isMark, ← Bool.not_eq_true, List.contains_iff_mem]
    intro isIn
    simp only [List.mem_cons, List.not_mem_nil, or_false] at isIn
    rcases isIn with rfl | rfl | rfl | rfl <;> cases isBlank
  have areQuotable : ∀ c ∈ cs, isQuotable c = true := by
    intro c isIn
    have isBlank := areBlank c isIn
    rw [isQuotable, Bool.and_eq_true, bne_iff_ne, bne_iff_ne]
    constructor <;> rintro rfl <;> cases isBlank
  have noMarks : cs.countP isMark = 0 :=
    List.countP_eq_zero.mpr fun c isIn => Bool.eq_false_iff.mp (noMark c (areBlank c isIn))
  rw [marks_bare areQuotable, noMarks, Nat.zero_add]

end Token

namespace Expr

/-- The marks that stand outside double quotes where an atom is printed. -/
def looseMarks (text : String) : Nat :=
  if text == "" || text.toList.any Text.isBlank then 0 else text.toList.countP Token.isMark

/-- The loose marks of a row of atoms. -/
def looseMarksOfAll : List String → Nat
  | [] => 0
  | text :: rest => looseMarks text + looseMarksOfAll rest

/-- The loose marks of two rows of atoms are counted apart. -/
theorem looseMarksOfAll_append (texts others : List String) :
    looseMarksOfAll (texts ++ others) = looseMarksOfAll texts + looseMarksOfAll others := by
  induction texts with
  | nil => exact (Nat.zero_add _).symm
  | cons text rest inductionHypothesis =>
    rw [List.cons_append, looseMarksOfAll, looseMarksOfAll, inductionHypothesis, Nat.add_assoc]

/-- An atom of a row without loose marks has none. -/
theorem looseMarks_eq_zero_of_mem {texts : List String} (noMarks : looseMarksOfAll texts = 0) :
    ∀ text ∈ texts, looseMarks text = 0 := by
  induction texts with
  | nil => exact List.forall_mem_nil _
  | cons text rest inductionHypothesis =>
    rw [looseMarksOfAll, Nat.add_eq_zero_iff] at noMarks
    exact List.forall_mem_cons.mpr ⟨noMarks.1, inductionHypothesis noMarks.2⟩

/-- An atom without double quotes and backslashes is plain if it has no loose marks. -/
theorem isPlain_of_looseMarks_eq_zero {text : String}
    (areQuotable : ∀ c ∈ text.toList, Token.isQuotable c = true)
    (noMarks : looseMarks text = 0) : isPlain text = true := by
  unfold looseMarks at noMarks
  unfold isPlain
  split
  · exact List.all_eq_true.mpr areQuotable
  · next noQuotes =>
    rw [if_neg noQuotes] at noMarks
    simp only [Bool.or_eq_true, List.any_eq_true, not_or, not_exists, not_and] at noQuotes
    refine List.all_eq_true.mpr fun c isIn => ?_
    have notBlank := noQuotes.2 c isIn
    have notMark := List.countP_eq_zero.mp noMarks c isIn
    have isQuotable := areQuotable c isIn
    simp_all [Token.isWordChar, Token.isMark, Token.isQuotable]

/-- Whether an expression is printed with two marks outside double quotes for each of its rows and
the loose marks of its atoms. -/
def PrintsMarks (e : Expr) : Prop :=
  ∀ rest, Token.marks false (e.render.toList ++ rest) =
    2 * e.rows + looseMarksOfAll e.atoms + Token.marks false rest

/-- An atom is printed with its loose marks. -/
theorem printsMarks_atom {text : String}
    (areQuotable : ∀ c ∈ text.toList, Token.isQuotable c = true) : (atom text).PrintsMarks := by
  intro rest
  rw [render, renderAtom_eq, rows, atoms, looseMarksOfAll, looseMarksOfAll, looseMarks]
  split
  · have opening (others : List Char) :
        Token.marks false ('"' :: others) = Token.marks true others := rfl
    have closing : Token.marks true ('"' :: rest) = Token.marks false rest := rfl
    simp [opening, Token.marks_quoted areQuotable, closing]
  · rw [Token.marks_bare areQuotable]
    omega

/-- A row of expressions is printed with the marks of each. -/
theorem marks_intercalate (separator : String)
    (areBlank : separator.toList.all Text.isBlank = true) {items : List Expr}
    (print : ∀ item ∈ items, item.PrintsMarks) (rest : List Char) :
    Token.marks false ((String.intercalate separator (renderAll items)).toList ++ rest) =
      2 * rowsOfAll items + looseMarksOfAll (atomsOfAll items) + Token.marks false rest := by
  rw [String.toList_intercalate]
  induction items with
  | nil => simp [renderAll, rowsOfAll, atomsOfAll, looseMarksOfAll]
  | cons item items inductionHypothesis =>
    obtain ⟨printsFirst, printOthers⟩ := List.forall_mem_cons.mp print
    rw [renderAll, List.map_cons, rowsOfAll, atomsOfAll, looseMarksOfAll_append]
    cases items with
    | nil =>
      have isPrinted := printsFirst rest
      simp only [renderAll, List.map_nil, List.intercalate_singleton, rowsOfAll, atomsOfAll,
        looseMarksOfAll]
      omega
    | cons next items =>
      have restPrints := inductionHypothesis printOthers
      rw [renderAll, List.map_cons] at restPrints ⊢
      rw [List.intercalate_cons_cons, List.append_assoc, List.append_assoc, printsFirst,
        Token.marks_blanks (List.all_eq_true.mp areBlank), restPrints]
      omega

/-- The parentheses of a row are two more marks. -/
theorem marks_renderItems {items : List Expr} (print : ∀ item ∈ items, item.PrintsMarks)
    (wrap : Bool) (rest : List Char) :
    Token.marks false ((renderItems wrap (renderAll items)).toList ++ rest) =
      2 * (rowsOfAll items + 1) + looseMarksOfAll (atomsOfAll items) +
        Token.marks false rest := by
  cases wrap with
  | false =>
    have opening (others : List Char) :
        Token.marks false ('(' :: others) = Token.marks false others + 1 := rfl
    have closing : Token.marks false (')' :: rest) = Token.marks false rest + 1 := rfl
    have inner := marks_intercalate " " rfl print (')' :: rest)
    have isPrinted : (renderItems false (renderAll items)).toList ++ rest =
        '(' :: ((String.intercalate " " (renderAll items)).toList ++ ')' :: rest) := by
      simp [renderItems, -String.toList_intercalate]
    rw [isPrinted, opening, inner, closing]
    omega
  | true =>
    have opening (others : List Char) : Token.marks false ('(' :: '\n' :: '\t' :: others) =
        Token.marks false others + 1 := rfl
    have closing : Token.marks false ('\n' :: ')' :: rest) = Token.marks false rest + 1 := rfl
    have inner := marks_intercalate "\n\t" rfl print ('\n' :: ')' :: rest)
    have isPrinted : (renderItems true (renderAll items)).toList ++ rest =
        '(' :: '\n' :: '\t' ::
          ((String.intercalate "\n\t" (renderAll items)).toList ++ '\n' :: ')' :: rest) := by
      simp [renderItems, -String.toList_intercalate]
    rw [isPrinted, opening, inner, closing]
    omega

/-- An expression whose atoms have no double quotes and no backslashes is printed with its marks. -/
theorem printsMarks {e : Expr}
    (areQuotable : ∀ text ∈ e.atoms, ∀ c ∈ text.toList, Token.isQuotable c = true) :
    e.PrintsMarks := by
  induction e with
  | atom text => exact printsMarks_atom (areQuotable text (List.mem_singleton.mpr rfl))
  | call items inductionHypothesis =>
    rw [atoms] at areQuotable
    apply marks_renderItems
    intro item isIn
    exact inductionHypothesis item isIn (forall_atoms_of_mem areQuotable isIn)
  | list items inductionHypothesis =>
    rw [atoms] at areQuotable
    apply marks_renderItems
    intro item isIn
    exact inductionHypothesis item isIn (forall_atoms_of_mem areQuotable isIn)

/-- Expressions that are printed with their marks are so one after the other. -/
theorem marksOfAll_renderAll {items : List Expr} (print : ∀ item ∈ items, item.PrintsMarks) :
    Token.marksOfAll (renderAll items) =
      2 * rowsOfAll items + looseMarksOfAll (atomsOfAll items) := by
  induction items with
  | nil => rfl
  | cons item rest inductionHypothesis =>
    obtain ⟨printsFirst, printOthers⟩ := List.forall_mem_cons.mp print
    have isPrinted := printsFirst []
    have arePrinted := inductionHypothesis printOthers
    rw [List.append_nil, Token.marks] at isPrinted
    rw [renderAll, Token.marksOfAll, rowsOfAll, atomsOfAll, looseMarksOfAll_append]
    omega

/-! ## Ink in printed texts -/

/-- Texts in a row have their ink, if what is between them has none. -/
theorem ink_intercalate (separator : String) (noInk : Token.ink separator.toList = 0)
    (texts : List String) :
    Token.ink (String.intercalate separator texts).toList =
      Token.ink (texts.flatMap String.toList) := by
  rw [String.toList_intercalate]
  induction texts with
  | nil => rfl
  | cons text rest inductionHypothesis =>
    cases rest with
    | nil => simp
    | cons next rest =>
      rw [List.map_cons] at inductionHypothesis ⊢
      rw [List.map_cons, List.intercalate_cons_cons, Token.ink_append, Token.ink_append, noInk,
        Nat.add_zero, inductionHypothesis, ← Token.ink_append, ← List.flatMap_cons]

/-- The parentheses of a row have no ink. -/
theorem ink_renderItems (wrap : Bool) (texts : List String) :
    Token.ink (renderItems wrap texts).toList = Token.ink (texts.flatMap String.toList) := by
  cases wrap with
  | false =>
    have opening : Token.ink ['('] = 0 := rfl
    have closing : Token.ink [')'] = 0 := rfl
    have inner := ink_intercalate " " rfl texts
    have isPrinted : (renderItems false texts).toList =
        ['('] ++ ((String.intercalate " " texts).toList ++ [')']) := by
      simp [renderItems, -String.toList_intercalate]
    rw [isPrinted, Token.ink_append, Token.ink_append, opening, inner, closing]
    omega
  | true =>
    have opening : Token.ink ['(', '\n', '\t'] = 0 := rfl
    have closing : Token.ink ['\n', ')'] = 0 := rfl
    have inner := ink_intercalate "\n\t" rfl texts
    have isPrinted : (renderItems true texts).toList =
        ['(', '\n', '\t'] ++ ((String.intercalate "\n\t" texts).toList ++ ['\n', ')']) := by
      simp [renderItems, -String.toList_intercalate]
    rw [isPrinted, Token.ink_append, Token.ink_append, opening, inner, closing]
    omega

/-- Printing a row adds no ink if printing its items adds none. -/
theorem ink_renderAll {items : List Expr}
    (areSame : ∀ item ∈ items,
      Token.ink item.render.toList = Token.ink (item.atoms.flatMap String.toList)) :
    Token.ink ((renderAll items).flatMap String.toList) =
      Token.ink ((atomsOfAll items).flatMap String.toList) := by
  induction items with
  | nil => rfl
  | cons item rest inductionHypothesis =>
    obtain ⟨isFirst, areOthers⟩ := List.forall_mem_cons.mp areSame
    rw [renderAll, List.flatMap_cons, Token.ink_append, isFirst, inductionHypothesis areOthers,
      atomsOfAll, List.flatMap_append, Token.ink_append]

/-- Printing adds no ink. -/
theorem ink_render (e : Expr) :
    Token.ink e.render.toList = Token.ink (e.atoms.flatMap String.toList) := by
  induction e with
  | atom text =>
    have delimiter : Token.ink ['"'] = 0 := rfl
    rw [render, renderAtom_eq, atoms, List.flatMap_singleton]
    split
    · simp [Token.ink_cons '"' (text.toList ++ _), delimiter]
    · rfl
  | call items inductionHypothesis =>
    rw [render, ink_renderItems, atoms]
    exact ink_renderAll inductionHypothesis
  | list items inductionHypothesis =>
    rw [render, ink_renderItems, atoms]
    exact ink_renderAll inductionHypothesis

end Expr

/-! ## What is read back -/

/-- Printed forms of plain atoms scan one after the other as their tokens. -/
theorem Token.scanAll_render {items : List Expr}
    (arePlain : ∀ text ∈ Expr.atomsOfAll items, Expr.isPlain text = true) :
    scanAll (items.map Expr.render) =
      ⟨Derivation.tokensOfAll (Derivation.ofAll items), none⟩ := by
  induction items with
  | nil => rfl
  | cons item rest inductionHypothesis =>
    rw [Expr.atomsOfAll, List.forall_mem_append] at arePlain
    rw [List.map_cons, scanAll, Expr.scan_render arePlain.1, inductionHypothesis arePlain.2]
    rfl

namespace Derivation

variable {items : List Expr} {trees : List Derivation}
  (isScan : Token.scanAll (items.map Expr.render) = ⟨tokensOfAll trees, none⟩)
  (areValues : valueOfAll trees = items)
include isScan areValues

/-- If the printed forms of a row scan as forms with the row for values, then all atoms of the row
are plain. -/
theorem isPlain_of_scanAll_render : ∀ text ∈ Expr.atomsOfAll items, Expr.isPlain text = true := by
  rw [← Expr.renderAll_eq_map] at isScan
  have areTokens : tokensOfAll trees =
      (Expr.renderAll items).flatMap fun text => (Token.scan text).tokens := by
    rw [← Token.tokens_scanAll (congrArg Scan.failure isScan), isScan]
  have areIdents : Token.idents (tokensOfAll trees) = Expr.atomsOfAll items := by
    rw [idents_tokensOfAll, areValues]
  have noLoss : Token.ink ((Expr.renderAll items).flatMap String.toList) ≤
      Token.inkOf ((Expr.renderAll items).flatMap fun text => (Token.scan text).tokens) := by
    apply Nat.le_of_eq
    rw [← areTokens, Token.inkOf, areIdents, Expr.ink_renderAll fun item _ => Expr.ink_render item]
  obtain ⟨areQuotable, sameParens⟩ := Token.tokens_of_ink_le noLoss
  rw [← areTokens, areIdents] at areQuotable
  have print : ∀ item ∈ items, item.PrintsMarks := by
    intro item isIn
    exact Expr.printsMarks (Expr.forall_atoms_of_mem areQuotable isIn)
  have noMarks : Expr.looseMarksOfAll (Expr.atomsOfAll items) = 0 := by
    rw [← areTokens, parens_tokensOfAll, areValues, Expr.marksOfAll_renderAll print] at sameParens
    omega
  intro text isIn
  refine Expr.isPlain_of_looseMarks_eq_zero (areQuotable text isIn) ?_
  exact Expr.looseMarks_eq_zero_of_mem noMarks text isIn

/-- If the printed forms of a row scan as forms with the row for values, then the row is pure
syntax. -/
theorem areSyntax_of_scanAll_render : Expr.areSyntax items = true := by
  have isPrinted := Token.scanAll_render (isPlain_of_scanAll_render isScan areValues)
  rw [isScan, Scan.mk.injEq] at isPrinted
  rw [← areValues, tokensOfAll_injective isPrinted.1]
  exact areSyntax_valueOfAll_ofAll items

end Derivation

end LispShell
