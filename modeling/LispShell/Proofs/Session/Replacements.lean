import LispShell.Proofs.Reader.Faults
import LispShell.Proofs.Session.Aliases

/-! # What the texts of aliases do to lines
The definition of an alias files its texts whatever they are, and they are scanned only where the
alias is called. So a text that does not scan breaks each line that calls the alias, and no more
input mends such a line, though its fault may be the one of a line that goes on. -/

namespace LispShell

namespace AliasTable

variable {aliases : AliasTable} {name : String} {texts : List String}

/-- With a new alias the texts of all aliases scan just if its own do and those of the others. -/
theorem scans_insert_iff :
    Scans (aliases.insert name texts) ↔
      (∀ text ∈ texts, (Token.scan text).failure = none) ∧
        ∀ other, other ≠ name → aliases.fault? other = none := by
  have isNew : fault? (aliases.insert name texts) name = (Token.scanAll texts).failure := by
    rw [fault?, Table.find?_insert, if_pos rfl]
    rfl
  have isOld {other : String} (isOther : other ≠ name) :
      fault? (aliases.insert name texts) other = aliases.fault? other := by
    rw [fault?, Table.find?_insert, if_neg isOther]
    rfl
  rw [scans_iff, ← Token.failure_scanAll_eq_none_iff, ← isNew]
  constructor
  · intro noFault
    refine ⟨noFault name, fun other isOther => ?_⟩
    rw [← isOld isOther]
    exact noFault other
  · rintro ⟨nameHasNone, othersHaveNone⟩ other
    by_cases isName : other = name
    · rw [isName]
      exact nameHasNone
    · rw [isOld isName]
      exact othersHaveNone other isName

/-- The texts of all aliases scan just if every line that scans has tokens. -/
theorem scans_iff_ofLine :
    aliases.Scans ↔ ∀ line, (Token.scan line).failure = none →
      ∃ tokens, Token.ofLine aliases line = .ok tokens := by
  rw [scans_iff]
  constructor
  · intro noFault line lineScans
    cases isLine : Token.ofLine aliases line with
    | ok tokens => exact ⟨tokens, rfl⟩
    | error fault =>
      have isScan : Token.scan line = ⟨(Token.scan line).tokens, none⟩ := by rw [← lineScans]
      obtain ⟨name, -, isFault⟩ := Token.exists_head_of_ofLine_eq_error isScan isLine
      rw [noFault name] at isFault
      cases isFault
  · intro areRead name
    apply Classical.not_not.mp
    intro isFault
    -- the call of the alias alone would have its fault
    have isScan := Token.scan_writtenCall [name]
    have isHead : [.lparen, .ident name] <:+:
        .lparen :: .lparen :: ([name].map Token.ident ++ [.rparen]) := ⟨[.lparen], [.rparen], rfl⟩
    obtain ⟨fault, failed⟩ := Token.exists_ofLine_eq_error isScan isHead isFault
    obtain ⟨tokens, isRead⟩ := areRead (Token.writtenCall [name]) (congrArg Scan.failure isScan)
    rw [failed] at isRead
    cases isRead

end AliasTable

/-- Operands whose atoms have no backslashes contribute texts that scan. -/
theorem Definition.failure_scan_of_mem_textsOf {replacements : List Expr}
    (areClean : ∀ text ∈ Expr.atomsOfAll replacements, '\\' ∉ text.toList) :
    ∀ text ∈ replacements.flatMap textsOf, (Token.scan text).failure = none := by
  have arePrinted {items : List Expr}
      (areClean : ∀ text ∈ Expr.atomsOfAll items, '\\' ∉ text.toList) :
      ∀ text ∈ items.map Expr.render, (Token.scan text).failure = none := by
    rw [List.forall_mem_map]
    intro item isIn
    apply Token.failure_scan_eq_none
    exact Expr.not_mem_render (Expr.forall_atoms_of_mem areClean isIn)
  intro text isIn
  obtain ⟨e, isOperand, isText⟩ := List.mem_flatMap.mp isIn
  have operandIsClean := Expr.forall_atoms_of_mem areClean isOperand
  cases e with
  | atom word =>
    obtain rfl := List.mem_singleton.mp isText
    exact Token.failure_scan_eq_none (operandIsClean text (List.mem_singleton.mpr rfl))
  | call items => exact arePrinted operandIsClean text isText
  | list items => exact arePrinted operandIsClean text isText

namespace Derivation

/-- Words are their tokens. -/
theorem tokensOfAll_map_ident (texts : List String) :
    tokensOfAll (texts.map .ident) = texts.map .ident := by
  induction texts with
  | nil => rfl
  | cons text rest inductionHypothesis =>
    rw [List.map_cons, tokensOfAll, tokens, inductionHypothesis, List.map_cons,
      List.singleton_append]

/-- Words have the atoms for values. -/
theorem valueOfAll_map_ident (texts : List String) :
    valueOfAll (texts.map .ident) = texts.map .atom := by
  rw [valueOfAll_eq_map, List.map_map]
  rfl

/-- Words do not nest. -/
theorem nestingOfAll_map_ident (texts : List String) : nestingOfAll (texts.map .ident) = 0 := by
  induction texts with
  | nil => rfl
  | cons text rest inductionHypothesis =>
    rw [List.map_cons, nestingOfAll, inductionHypothesis]
    rfl

/-- A written call is a line of its words. -/
theorem isLine_writtenCall (texts : List String) :
    (row (texts.map .ident)).IsLine (Token.writtenCall texts) := by
  refine ⟨_, Token.scan_writtenCall texts, ?_⟩
  have closes : Token.closesAtEnd 0 (tokensOfAll (texts.map .ident) ++ [.rparen]) = true :=
    Token.closesAtEnd_tokensOfAll 0 _ [.rparen]
  rw [tokensOfAll_map_ident] at closes
  rw [tokens, tokensOfAll_map_ident, Token.wrap, Token.isGroup, closes, Bool.or_true, if_pos rfl]

end Derivation

/-- A written call of a name that is no alias reads as the call. -/
theorem readLine_writtenCall {limit : Nat} (hasRoom : 0 < limit) {aliases : AliasTable}
    {name : String} (notAlias : aliases.find? name = none) (texts : List String) :
    readLine limit aliases (Token.writtenCall (name :: texts)) =
      .ok (.call (.atom name :: texts.map .atom)) := by
  let words : List Derivation := (name :: texts).map .ident
  have isExpanded : Token.expand aliases (Derivation.row words).tokens =
      ⟨(Derivation.row words).tokens, none⟩ := by
    have notReplaced : aliases.replacement? true (.ident name) = none := notAlias
    have noParen : Token.lparen ∉ texts.map Token.ident ++ [.rparen] := by simp
    rw [Derivation.tokens, Derivation.tokensOfAll_map_ident, Token.expand,
      Token.expandFrom_cons_of_replacement?_eq_none rfl, List.map_cons, List.cons_append,
      beq_self_eq_true, Token.expandFrom_cons_of_replacement?_eq_none notReplaced,
      beq_false_of_ne (by simp), Token.expandFrom_of_not_mem_lparen noParen]
    rfl
  have fits : (Derivation.row words).nesting ≤ limit := by
    rw [Derivation.nesting, Derivation.nestingOfAll_map_ident]
    exact hasRoom
  rw [(Derivation.isLine_writtenCall (name :: texts)).readLine_eq, isExpanded]
  refine (Expr.ofTokens_tokens limit (.row words)).trans ?_
  rw [if_pos fits, Derivation.value, Derivation.valueOfAll_map_ident]
  rfl

namespace Session

/-- Only the texts of aliases break a line that scans. The texts of all aliases scan just if every
line that scans has tokens. A line that scans and has none calls an alias with its fault; it is
found incomplete if that is the fault of a text that ends after a backslash, and yet, unless it ends
between double quotes, no more lines mend it. The definition of an alias files its texts whatever
they are, so it keeps the texts of all aliases scanning just if its own scan, as they do if the
atoms of its operands have no backslashes. And any text can be filed. -/
theorem alias_texts_alone_break_lines [OperatingSystem] (limits : Limits) (course : Course) :
    (∀ aliases : AliasTable, aliases.Scans ↔ ∀ line, (Token.scan line).failure = none →
      ∃ tokens, Token.ofLine aliases line = .ok tokens) ∧
    (∀ (aliases : AliasTable) line tokens fault, Token.scan line = ⟨tokens, none⟩ →
      Token.ofLine aliases line = .error fault →
        (∃ name, [.lparen, .ident name] <:+: .lparen :: tokens ∧
          aliases.fault? name = some fault) ∧
        isComplete limits.depth aliases line = !fault.isIncomplete ∧
        (Token.endsInQuotes line = false → ∀ more, ∃ cause,
          readLine limits.depth aliases (line ++ "\n" ++ more) = .error cause ∧
          ((Token.scan more).failure = none → cause = fault))) ∧
    (∀ name definition replacements, name ≠ "" → replacements ≠ [] →
      readLine limits.depth course.shell.session.aliases definition =
        .ok (.call (.atom "alias" :: .atom name :: replacements)) →
      ∃ after, (evalLine limits definition).exec course = (.ok (.atom "created alias"), after) ∧
        (after.shell.session.aliases.Scans ↔
          (∀ text ∈ replacements.flatMap Definition.textsOf, (Token.scan text).failure = none) ∧
            ∀ other, other ≠ name → course.shell.session.aliases.fault? other = none) ∧
        ((∀ text ∈ Expr.atomsOfAll replacements, '\\' ∉ text.toList) →
          ∀ text ∈ replacements.flatMap Definition.textsOf,
            (Token.scan text).failure = none)) ∧
    (0 < limits.depth → course.shell.session.aliases.find? "alias" = none → ∀ name text,
      ∃ definition, (Token.scan definition).failure = none ∧
        readLine limits.depth course.shell.session.aliases definition =
          .ok (.call [.atom "alias", .atom name, .atom text])) := by
  refine ⟨fun aliases => AliasTable.scans_iff_ofLine, ?lines, ?definitions, ?texts⟩
  case lines =>
    intro aliases line tokens fault isScan failed
    refine ⟨Token.exists_head_of_ofLine_eq_error isScan failed, ?_, ?_⟩
    · rw [isComplete, readLine, failed]
      rfl
    · intro notInQuotes more
      obtain ⟨cause, isCause, isSame⟩ :=
        Token.ofLine_append_newline isScan notInQuotes failed more
      refine ⟨cause, ?_, isSame⟩
      rw [readLine, isCause]
      rfl
  case definitions =>
    intro name definition replacements isName isNonempty isRead
    refine ⟨_, exec_evalLine_defineAlias isNonempty isName isRead, ?_, ?_⟩
    · exact AliasTable.scans_insert_iff
    · exact Definition.failure_scan_of_mem_textsOf
  case texts =>
    intro hasRoom notAlias name text
    refine ⟨Token.writtenCall ["alias", name, text], ?_, ?_⟩
    · rw [Token.scan_writtenCall]
    · exact readLine_writtenCall hasRoom notAlias [name, text]

/-- A definition can break the reader for good. After `(alias n \\)` the line `(n)`, which scans,
ends after the backslash that `n` stands for; it is found incomplete, and no lines after it mend
it. -/
theorem backslash_alias_breaks_line :
    ∃ after : Course, after.shell.session.Reachable ∧
      (evalLine .standard "(alias n \\\\)").exec .fresh = (.ok (.atom "created alias"), after) ∧
      ¬ after.shell.session.aliases.Scans ∧
      Token.scan "(n)" = ⟨[.lparen, .ident "n", .rparen], none⟩ ∧
      isComplete Limits.standard.depth after.shell.session.aliases "(n)" = false ∧
      ∀ more, ∃ cause, readLine Limits.standard.depth after.shell.session.aliases
        ("(n)" ++ "\n" ++ more) = .error cause := by
  have isRead : readLine Limits.standard.depth Course.fresh.shell.session.aliases
      "(alias n \\\\)" = .ok (.call [.atom "alias", .atom "n", .atom "\\"]) := rfl
  have isName : "n" ≠ "" := by decide
  have isEvaluated := exec_evalLine_defineAlias (List.cons_ne_nil _ _) isName isRead
  have isReachable : Reachable
      ((evalLine .standard "(alias n \\\\)").exec .fresh).2.shell.session := .line _ _ .fresh
  rw [isEvaluated] at isReachable
  have isScan : Token.scan "(n)" = ⟨[.lparen, .ident "n", .rparen], none⟩ := rfl
  have failed : Token.ofLine (Table.insert .empty "n" ["\\"]) "(n)" =
      .error .endAfterBackslash := rfl
  refine ⟨_, isReachable, isEvaluated, ?_, isScan, rfl, fun more => ?_⟩
  · intro scans
    obtain ⟨tokens, isRead⟩ := AliasTable.scans_iff_ofLine.mp scans "(n)" rfl
    cases failed.symm.trans isRead
  · obtain ⟨cause, isCause, -⟩ := Token.ofLine_append_newline isScan rfl failed more
    refine ⟨cause, ?_⟩
    rw [readLine]
    exact congrArg (· >>= Expr.ofTokens Limits.standard.depth) isCause

end Session

end LispShell
