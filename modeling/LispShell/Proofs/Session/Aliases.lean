import LispShell.Proofs.Evaluation.Refusals
import LispShell.Proofs.Reader.Exactness
import LispShell.Proofs.Reader.Parts
import LispShell.Proofs.Session.Commands
import LispShell.Script.Run

/-! # What an alias stands for
An alias keeps the printed forms of the items of what it is defined by, and they are scanned again
wherever it is used. So a line that uses it reads as the line with the defining form written out,
if the printed forms scan as the items. -/

namespace LispShell

/-! ## The definition of an alias -/

namespace Definition

/-- The texts that an operand contributes to an alias. -/
def textsOf : Expr → List String
  | .atom text => [text]
  | .call items => items.map Expr.render
  | .list items => items.map Expr.render

/-- Where each expression that is not too high is given a value, a row of them is given its
values. -/
theorem mapM_eq_pure {α : Type} {each : Expr → Run α} {value : Expr → α} {bound : Nat}
    (isGiven : ∀ item : Expr, item.height ≤ bound → each item = pure (value item))
    {items : List Expr} (areLow : Expr.heightOfAll items ≤ bound) :
    items.mapM each = pure (items.map value) := by
  induction items with
  | nil => rfl
  | cons item rest inductionHypothesis =>
    rw [Expr.heightOfAll, Nat.max_le] at areLow
    rw [List.mapM_cons, isGiven item areLow.1, inductionHypothesis areLow.2]
    rfl

/-- An operand whose items are not too high contributes its texts. -/
theorem replacementTexts_eq_pure {operands : Operands} {e : Expr}
    (isLow : e.height ≤ operands.room + 1) :
    replacementTexts operands e = pure (textsOf e) := by
  have isPrinted (item : Expr) (itemIsLow : item.height ≤ operands.room) :
      Operands.render operands.room item = pure item.render := by
    rw [Operands.render, Operands.within, if_pos itemIsLow]
  cases e with
  | atom text => rfl
  | call items =>
    rw [Expr.height] at isLow
    exact mapM_eq_pure isPrinted (by omega)
  | list items =>
    rw [Expr.height] at isLow
    exact mapM_eq_pure isPrinted (by omega)

end Definition

/-- A session with one more alias. -/
def Course.withAlias (course : Course) (name : String) (texts : List String) : Course :=
  ⟨⟨{ course.shell.session with aliases := course.shell.session.aliases.insert name texts },
    course.shell.world⟩, course.effects⟩

/-- The definition of an alias files the texts of the operands after the name. -/
theorem Definition.exec_defineAlias {operands : Operands} {replacements : List Expr}
    (isNonempty : replacements ≠ []) (areLow : Expr.heightOfAll replacements ≤ operands.room + 1)
    {name : String} (isName : name ≠ "") (course : Course) :
    (defineAlias operands (.atom name :: replacements)).exec course =
      (.ok (.atom "created alias"), course.withAlias name (replacements.flatMap textsOf)) := by
  obtain ⟨first, others, rfl⟩ := List.exists_cons_of_ne_nil isNonempty
  have isSymbol : symbol operands .defineAlias (.atom name) = pure name := by
    simp [symbol, isName]
  rw [defineAlias, isSymbol, pure_bind, mapM_eq_pure (fun _ => replacementTexts_eq_pure) areLow,
    pure_bind, List.flatMap_def]
  rfl

/-- The same of the call that is evaluated to its value. -/
theorem Evaluation.exec_run_defineAlias [OperatingSystem] {limits : Limits}
    {replacements : List Expr} (isNonempty : replacements ≠ [])
    (areLow : Expr.heightOfAll replacements ≤ limits.depth) {name : String} (isName : name ≠ "")
    (isLine : Bool) (course : Course) :
    (run limits isLine (.call (.atom "alias" :: .atom name :: replacements))).exec course =
      (.ok (.atom "created alias"),
        course.withAlias name (replacements.flatMap Definition.textsOf)) := by
  obtain ⟨_ | room, steps⟩ := limits
  · obtain ⟨first, others, rfl⟩ := List.exists_cons_of_ne_nil isNonempty
    have isHigh : 0 < first.height := by cases first <;> simp [Expr.height]
    rw [Expr.heightOfAll, Nat.max_le] at areLow
    exact absurd areLow.1 (Nat.not_le.mpr isHigh)
  · have isBuiltin : Builtin.ofName? "alias" = some .defineAlias := by decide
    have isNamed (operands : Operands) :
        (headName operands (.atom "alias")).exec course = (.ok "alias", course) := rfl
    have evaluated : (evaluate steps (room + 1) isLine true
        (.call (.atom "alias" :: .atom name :: replacements))).exec course =
          (.ok (.value (.atom "created alias")),
            course.withAlias name (replacements.flatMap Definition.textsOf)) := by
      rw [evaluate, exec_activate_definition isBuiltin rfl (isNamed _), Builtin.value,
        Run.exec_bind_ok course (Definition.exec_defineAlias isNonempty areLow isName course)]
      rfl
    rw [run, Run.exec_bind_ok course evaluated]
    rfl

/-- A form that reads as the definition of a name by a parenthesised form has its parts. -/
theorem Derivation.exists_of_tokens_definition {tree : Derivation} {name : String} {form : Expr}
    {tokens : List Token}
    (isTokens : tree.tokens = .lparen :: .ident "alias" :: .ident name :: .lparen ::
      (tokens ++ [.rparen] ++ [.rparen]))
    (isValue : tree.value = .call [.atom "alias", .atom name, form]) :
    ∃ trees, tokens = Derivation.tokensOfAll trees ∧ form = .call (valueOfAll trees) ∧
      tree.nesting = nestingOfAll trees + 2 := by
  cases tree with
  | ident text => cases isValue
  | quote inner => cases isTokens
  | row items =>
    rw [value, Expr.call.injEq, valueOfAll_eq_map] at isValue
    obtain ⟨first, others, rfl, -, isValue⟩ := List.map_eq_cons_iff.mp isValue
    obtain ⟨second, others, rfl, -, isValue⟩ := List.map_eq_cons_iff.mp isValue
    obtain ⟨third, others, rfl, isForm, isValue⟩ := List.map_eq_cons_iff.mp isValue
    obtain rfl := List.map_eq_nil_iff.mp isValue
    -- the tokens tell the forms apart from left to right
    simp only [Derivation.tokens, tokensOfAll, List.append_nil, List.append_assoc,
      List.cons.injEq, true_and] at isTokens
    obtain ⟨rfl, areOthers⟩ := tokens_append_inj first (.ident "alias") isTokens
    obtain ⟨rfl, isThird⟩ := tokens_append_inj second (.ident name) areOthers
    cases third with
    | ident text => cases isThird
    | quote inner => cases isThird
    | row trees =>
      rw [Derivation.tokens, List.cons_append, List.append_assoc, List.cons.injEq] at isThird
      refine ⟨trees, (List.append_cancel_right isThird.2).symm, isForm.symm, ?_⟩
      simp [nesting, nestingOfAll]

namespace Session

/-- A line that reads as the definition of an alias files the texts of the operands after the
name. -/
theorem exec_evalLine_defineAlias [OperatingSystem] {limits : Limits} {course : Course}
    {name definition : String} {replacements : List Expr} (isNonempty : replacements ≠ [])
    (isName : name ≠ "")
    (isRead : readLine limits.depth course.shell.session.aliases definition =
      .ok (.call (.atom "alias" :: .atom name :: replacements))) :
    (evalLine limits definition).exec course =
      (.ok (.atom "created alias"),
        course.withAlias name (replacements.flatMap Definition.textsOf)) := by
  have areLow : Expr.heightOfAll replacements ≤ limits.depth := by
    have areTokens := isRead
    rw [readLine] at areTokens
    cases isLine : Token.ofLine course.shell.session.aliases definition with
    | error fault =>
      rw [isLine] at areTokens
      cases areTokens
    | ok tokens =>
      rw [isLine] at areTokens
      have isBound := Derivation.height_le_of_ofTokens_ok areTokens
      simp only [Expr.height, Expr.heightOfAll] at isBound
      omega
  rw [evalLine, Run.exec_bind_ok course (Run.exec_session course), isRead]
  exact Evaluation.exec_run_defineAlias isNonempty areLow isName true course

/-! ## The use of an alias -/

section

variable {limit : Nat} {aliases : AliasTable} {name : String} {form : Expr}
  {source : List Derivation}

/-- Where the definition of an alias is read, the source of the defining form expands to the tokens
of forms, and their values are its items. -/
theorem exists_of_definition_read {definition : String}
    (isItself : Token.expansion aliases true (.ident "alias") = ⟨[.ident "alias"], none⟩)
    (isNonempty : source ≠ [])
    (isDefinition :
      (Derivation.row [.ident "alias", .ident name, .row source]).IsLine definition)
    (isRead : readLine limit aliases definition =
      .ok (.call [.atom "alias", .atom name, form])) :
    ∃ trees, form = .call (Derivation.valueOfAll trees) ∧
      Derivation.nestingOfAll trees + 2 ≤ limit ∧
      Token.expandFrom aliases true (Derivation.tokensOfAll source) =
        ⟨Derivation.tokensOfAll trees, none⟩ := by
  have keepsHead : Token.expandFrom aliases true (Derivation.tokensOfAll [.ident "alias"]) =
      ⟨[.ident "alias"], none⟩ := by
    rw [Derivation.tokensOfAll, Derivation.tokensOfAll, Derivation.tokens, List.append_nil,
      Token.expandFrom, Token.expandFrom, Scan.append_nil, isItself]
  have expandsOthers : Token.expandFrom aliases false
      (Derivation.tokensOfAll [.ident name, .row source]) =
        ((Token.expandFrom aliases true (Derivation.tokensOfAll source)).append
          ⟨[.rparen], none⟩).prepend [.ident name, .lparen] := by
    have notReplaced : aliases.replacement? false (.ident name) = none := rfl
    rw [Derivation.tokensOfAll, Derivation.tokensOfAll, Derivation.tokensOfAll, List.append_nil,
      Derivation.tokens, List.singleton_append,
      Token.expandFrom_cons_of_replacement?_eq_none notReplaced]
    -- the form is expanded as by itself, wherever it stands
    exact congrArg (Scan.prepend [.ident name]) (Derivation.expand_row aliases isNonempty)
  have expands := Derivation.expand_row_append aliases
    (List.cons_ne_nil (.ident "alias") []) [.ident name, .row source]
  rw [keepsHead, expandsOthers] at expands
  rw [isDefinition.readLine_eq, ← List.singleton_append, expands] at isRead
  -- only what the form expands to is left to be read, between tokens that are known
  generalize Token.expandFrom aliases true (Derivation.tokensOfAll source) = scanned at isRead ⊢
  obtain ⟨tokens, _ | fault⟩ := scanned
  case some => cases isRead
  replace isRead : Expr.ofTokens limit (.lparen :: .ident "alias" :: .ident name :: .lparen ::
      (tokens ++ [.rparen] ++ [.rparen])) = .ok (.call [.atom "alias", .atom name, form]) := isRead
  obtain ⟨tree, isTokens, isValue⟩ := Expr.exists_of_ofTokens_ok (List.cons_ne_nil _ _) isRead
  obtain ⟨trees, rfl, isForm, nests⟩ := Derivation.exists_of_tokens_definition isTokens isValue
  rw [← isTokens, Expr.ofTokens_tokens] at isRead
  split at isRead
  · next fits => exact ⟨trees, isForm, by omega, rfl⟩
  · cases isRead

/-- A line that uses an alias is read from the texts of the alias and its operands, if these do not
use the alias. -/
theorem readLine_use (limit : Nat) (aliases : AliasTable) (texts : List String) {used : String}
    {operands : List Derivation} (isUsed : (Derivation.row (.ident name :: operands)).IsLine used)
    (notHead : ¬ [.lparen, .ident name] <:+: Derivation.tokensOfAll operands) :
    readLine limit (aliases.insert name texts) used =
      Derivation.readParts limit (Token.scanAll texts)
        (Token.expandFrom aliases false (Derivation.tokensOfAll operands)) := by
  have isReplaced : Token.expandFrom (aliases.insert name texts) true
      (Derivation.tokensOfAll [.ident name]) = Token.scanAll texts := by
    rw [Derivation.tokensOfAll, Derivation.tokensOfAll, Derivation.tokens, List.append_nil,
      Token.expandFrom, Token.expandFrom, Scan.append_nil, Token.expansion_insert_self]
  have keepsOthers : Token.expandFrom (aliases.insert name texts) false
      (Derivation.tokensOfAll operands) =
        Token.expandFrom aliases false (Derivation.tokensOfAll operands) :=
    Token.expandFrom_insert texts (fun isParen => absurd isParen Bool.false_ne_true) notHead
  have isRow : (Derivation.row ([.ident name] ++ operands)).IsLine used := isUsed
  rw [isRow.readLine_append (List.cons_ne_nil _ _), isReplaced, keepsOthers]

end

section

variable {limit : Nat} {aliases : AliasTable} {source trees : List Derivation}
  (isNonempty : source ≠ [])
  (expands : Token.expandFrom aliases true (Derivation.tokensOfAll source) =
    ⟨Derivation.tokensOfAll trees, none⟩)
  (fits : Derivation.nestingOfAll trees + 1 ≤ limit) {items : List Expr}
  (areValues : Derivation.valueOfAll trees = items) {name used written : String}
include isNonempty expands fits areValues

/-- A line that uses an alias for a form of plain atoms without data reads as the line with the form
written out. -/
theorem readLine_use_eq (areSyntax : Expr.areSyntax items = true)
    (arePlain : ∀ text ∈ Expr.atomsOfAll items, Expr.isPlain text = true)
    {others : List Derivation}
    (notHead : ¬ [.lparen, .ident name] <:+: Derivation.tokensOfAll others)
    (isUsed : (Derivation.row (.ident name :: others)).IsLine used)
    (isWritten : (Derivation.row (source ++ others)).IsLine written) :
    readLine limit (aliases.insert name (items.map Expr.render)) used =
      readLine limit aliases written := by
  have areLow := Derivation.nestingOfAll_ofAll_valueOfAll_le trees
  have isSyntax : (Expr.call items).isSyntax = true := areSyntax
  have sameValues : Derivation.valueOfAll (Derivation.ofAll items) =
      Derivation.valueOfAll trees := by
    rw [areValues]
    exact Expr.call.inj (Derivation.value_ofExpr isSyntax)
  rw [areValues] at areLow
  -- the two lines differ in their first parts, which are forms with the same values
  rw [isWritten.readLine_append isNonempty, expands]
  refine (readLine_use limit aliases (items.map Expr.render) isUsed notHead).trans ?_
  rw [Token.scanAll_render arePlain]
  exact Derivation.readParts_congr sameValues (by omega) fits _

/-- A line that uses an alias alone reads as the form itself only if the form has plain atoms and no
data. -/
theorem isPlain_of_readLine_use_eq (isUsed : (Derivation.row [.ident name]).IsLine used)
    (isWritten : (Derivation.row source).IsLine written)
    (same : readLine limit (aliases.insert name (items.map Expr.render)) used =
      readLine limit aliases written) :
    Expr.areSyntax items = true ∧ ∀ text ∈ Expr.atomsOfAll items, Expr.isPlain text = true := by
  have notHead : ¬ [.lparen, .ident name] <:+: Derivation.tokensOfAll [] := by
    simp [Derivation.tokensOfAll]
  have isUse := readLine_use limit aliases (items.map Expr.render) isUsed notHead
  rw [← List.append_nil source] at isWritten
  have isForm := isWritten.readLine_append isNonempty limit aliases
  rw [expands] at isForm
  have isCall := isForm.trans (Derivation.readParts_nil fits)
  rw [areValues] at isCall
  -- the texts alone read as the call too, so they are the tokens of forms with its items for values
  obtain ⟨replaced, isScan, areItems⟩ :=
    Derivation.exists_of_readParts_ok (isUse.symm.trans (same.trans isCall))
  exact ⟨Derivation.areSyntax_of_scanAll_render isScan areItems,
    Derivation.isPlain_of_scanAll_render isScan areItems⟩

end

end Session

end LispShell
