import LispShell.Proofs.Reader.Completion
import LispShell.Proofs.Reader.RoundTrip
import LispShell.Proofs.Token.Length
import LispShell.Proofs.Token.Written

/-! # Lexical faults
A text without a backslash scans without a fault, and printing adds no backslash. A line that scans
has a lexical fault only where it calls an alias whose texts do not scan, and then more lines do not
mend it. -/

namespace LispShell

/-! ## Backslashes -/

/-- Only a backslash leads into an escape, and outside escapes no character is a fault. -/
theorem ScanMode.step_of_ne_backslash {mode : ScanMode} (notEscape : mode.isInEscape = false)
    {c : Char} (notBackslash : c ≠ '\\') :
    ∃ tokens next, mode.step c = .ok (tokens, next) ∧ next.isInEscape = false := by
  cases mode with
  | bare held =>
    refine ⟨(stepBare held c).1, (stepBare held c).2, rfl, ?_⟩
    unfold stepBare
    rw [if_neg notBackslash]
    repeat' split
    all_goals rfl
  | quoted held =>
    refine ⟨(stepQuoted held c).1, (stepQuoted held c).2, rfl, ?_⟩
    unfold stepQuoted
    rw [if_neg notBackslash]
    split <;> rfl
  | comment =>
    refine ⟨_, _, rfl, ?_⟩
    split <;> rfl
  | escape inQuotes held => cases notEscape
  | hexEscape inQuotes held => cases notEscape
  | hexDigit inQuotes held high => cases notEscape

namespace Token

/-- From outside escapes on, what has no backslash scans without a fault. -/
theorem failure_scanFrom_eq_none {mode : ScanMode} (notEscape : mode.isInEscape = false)
    {cs : List Char} (noBackslash : '\\' ∉ cs) : (scanFrom mode cs).failure = none := by
  induction cs generalizing mode with
  | nil =>
    cases mode with
    | bare held => rfl
    | quoted held => rfl
    | comment => rfl
    | escape inQuotes held => cases notEscape
    | hexEscape inQuotes held => cases notEscape
    | hexDigit inQuotes held high => cases notEscape
  | cons c cs inductionHypothesis =>
    rw [List.mem_cons, not_or] at noBackslash
    obtain ⟨tokens, next, isStep, nextNotEscape⟩ :=
      ScanMode.step_of_ne_backslash notEscape (Ne.symm noBackslash.1)
    rw [scanFrom, isStep]
    exact inductionHypothesis nextNotEscape noBackslash.2

/-- A text without a backslash scans without a fault. -/
theorem failure_scan_eq_none {text : String} (noBackslash : '\\' ∉ text.toList) :
    (scan text).failure = none :=
  failure_scanFrom_eq_none rfl noBackslash

end Token

namespace Expr

/-- Texts in a row have no backslash if neither they nor what is between them has one. -/
theorem not_mem_intercalate (separator : String) (isClean : '\\' ∉ separator.toList)
    {texts : List String} (areClean : ∀ text ∈ texts, '\\' ∉ text.toList) :
    '\\' ∉ (String.intercalate separator texts).toList := by
  rw [String.toList_intercalate]
  induction texts with
  | nil => exact List.not_mem_nil
  | cons text rest inductionHypothesis =>
    obtain ⟨isFirst, areOthers⟩ := List.forall_mem_cons.mp areClean
    cases rest with
    | nil => simpa using isFirst
    | cons next rest =>
      have restClean := inductionHypothesis areOthers
      rw [List.map_cons] at restClean ⊢
      rw [List.map_cons, List.intercalate_cons_cons, List.append_assoc, List.mem_append,
        List.mem_append, not_or, not_or]
      exact ⟨isFirst, isClean, restClean⟩

/-- A row is printed without a backslash if its items are. -/
theorem not_mem_renderItems {items : List Expr}
    (areClean : ∀ item ∈ items, '\\' ∉ item.render.toList) (wrap : Bool) :
    '\\' ∉ (renderItems wrap (renderAll items)).toList := by
  have textsClean : ∀ text ∈ renderAll items, '\\' ∉ text.toList := by
    rw [renderAll_eq_map, List.forall_mem_map]
    exact areClean
  cases wrap with
  | false =>
    have inner := not_mem_intercalate " " (by decide) textsClean
    simpa [renderItems, -String.toList_intercalate] using inner
  | true =>
    have inner := not_mem_intercalate "\n\t" (by decide) textsClean
    simpa [renderItems, -String.toList_intercalate] using inner

/-- Printing adds no backslash. -/
theorem not_mem_render {e : Expr} (areClean : ∀ text ∈ e.atoms, '\\' ∉ text.toList) :
    '\\' ∉ e.render.toList := by
  induction e with
  | atom text =>
    have isClean := areClean text (List.mem_singleton.mpr rfl)
    rw [render, renderAtom_eq]
    split
    · simpa using isClean
    · exact isClean
  | call items inductionHypothesis =>
    rw [atoms] at areClean
    apply not_mem_renderItems
    intro item isIn
    exact inductionHypothesis item isIn (forall_atoms_of_mem areClean isIn)
  | list items inductionHypothesis =>
    rw [atoms] at areClean
    apply not_mem_renderItems
    intro item isIn
    exact inductionHypothesis item isIn (forall_atoms_of_mem areClean isIn)

end Expr

/-! ## Faults of lines -/

namespace Token

variable {aliases : AliasTable} {line : String} {tokens : List Token} {fault : ReadError}

/-- A line has the fault of its tokens behind a parenthesis. -/
theorem failure_expand_wrap (aliases : AliasTable) (tokens : List Token) :
    (expand aliases (wrap tokens)).failure = (expandFrom aliases true tokens).failure := by
  cases isGroup : isGroup tokens with
  | true => rw [expandFrom_of_isGroup isGroup]
  | false =>
    by_cases isEmpty : tokens = []
    · rw [isEmpty]
      rfl
    · -- the parenthesis that is put after the tokens is no head
      have closing (afterParen : Bool) :
          (expandFrom aliases afterParen [.rparen]).failure = none := rfl
      rw [expand_wrap_of_not_isGroup isGroup isEmpty, expandFrom_append, Scan.prepend,
        Scan.failure_append, closing, Option.or_none]

/-- A line that scans has a lexical fault just if its expansion has. -/
theorem ofLine_eq_error_iff (isScan : scan line = ⟨tokens, none⟩) :
    ofLine aliases line = .error fault ↔
      (expandFrom aliases true tokens).failure = some fault := by
  have isExpanded : ofLine aliases line = (expand aliases (wrap tokens)).toExcept := by
    rw [ofLine, isScan]
    rfl
  rw [isExpanded, Scan.toExcept, ← failure_expand_wrap]
  split
  next isFailure => rw [isFailure, Except.error.injEq, Option.some.injEq]
  next noFailure => simp [noFailure]

/-- A lexical fault of a line that scans is that of an alias that the line calls. -/
theorem exists_head_of_ofLine_eq_error (isScan : scan line = ⟨tokens, none⟩)
    (failed : ofLine aliases line = .error fault) :
    ∃ name, [.lparen, .ident name] <:+: .lparen :: tokens ∧ aliases.fault? name = some fault := by
  have isFailure : (expandFrom aliases (Token.lparen == .lparen) tokens).failure = some fault :=
    (ofLine_eq_error_iff isScan).mp failed
  exact exists_head_of_failure isFailure

/-- A line that scans has a lexical fault where it calls an alias with a fault. -/
theorem exists_ofLine_eq_error {name : String} (isScan : scan line = ⟨tokens, none⟩)
    (isHead : [.lparen, .ident name] <:+: .lparen :: tokens)
    (isFault : aliases.fault? name ≠ none) : ∃ fault, ofLine aliases line = .error fault := by
  have failed : (expandFrom aliases (Token.lparen == .lparen) tokens).failure ≠ none :=
    failure_ne_none_of_head isHead isFault
  obtain ⟨fault, isFailure⟩ := Option.ne_none_iff_exists'.mp failed
  exact ⟨fault, (ofLine_eq_error_iff isScan).mpr isFailure⟩

/-- More lines do not mend a lexical fault of a line that scans and does not end between double
quotes: it stays as long as they scan. -/
theorem ofLine_append_newline (isScan : scan line = ⟨tokens, none⟩)
    (notInQuotes : endsInQuotes line = false) (failed : ofLine aliases line = .error fault)
    (more : String) :
    ∃ cause, ofLine aliases (line ++ "\n" ++ more) = .error cause ∧
      ((scan more).failure = none → cause = fault) := by
  obtain ⟨others, isWhole, areOthers⟩ := scan_append_newline notInQuotes more
  rw [isScan] at isWhole areOthers
  obtain rfl := areOthers rfl
  cases isMore : (scan more).failure with
  | some cause =>
    refine ⟨cause, ?_, nofun⟩
    rw [ofLine, isWhole, Scan.prepend, isMore]
    rfl
  | none =>
    -- the tokens of the line come first, so their fault is the first that is met
    rw [Scan.prepend, isMore] at isWhole
    refine ⟨fault, (ofLine_eq_error_iff isWhole).mpr ?_, fun _ => rfl⟩
    rw [expandFrom_append, Scan.failure_append, (ofLine_eq_error_iff isScan).mp failed]
    rfl

end Token

end LispShell
