import LispShell.Proofs.Token.Scanner
import LispShell.Token.Alias

/-! # Expansion
Tokens are expanded one after the other, and all that one leaves for the next is whether it stands
at the head of a call. Only heads are expanded, so tokens without a head in front stand for
themselves, and a fault of expansion is that of the texts of an alias that is a head. Where the
texts of all aliases scan, expansion has no fault. -/

namespace LispShell

/-- Whether the texts of all aliases scan without a fault. -/
def AliasTable.Scans (aliases : AliasTable) : Prop :=
  ∀ name texts, aliases.find? name = some texts → ∀ text ∈ texts, (Token.scan text).failure = none

namespace Scan

/-- What comes after a scan without a fault is reached. -/
theorem append_of_failure_eq_none {first : Scan} (noFault : first.failure = none)
    (second : Scan) : first.append second = second.prepend first.tokens := by
  rw [append, noFault]

/-- The fault of one scan after the other is the first that there is. -/
theorem failure_append (first second : Scan) :
    (first.append second).failure = first.failure.or second.failure := by
  obtain ⟨tokens, _ | fault⟩ := first <;> rfl

/-- Scans may be put together in either order. -/
theorem append_assoc (first second third : Scan) :
    (first.append second).append third = first.append (second.append third) := by
  obtain ⟨tokens, _ | fault⟩ := first
  · obtain ⟨others, _ | fault⟩ := second <;> simp [append, prepend]
  · simp [append]

end Scan

namespace Token

variable {aliases : AliasTable}

/-- Whether the token after the given ones stands at the head of a call. -/
def headFollows (afterParen : Bool) : List Token → Bool
  | [] => afterParen
  | token :: rest => headFollows (token == .lparen) rest

/-- What follows a row of tokens follows its last part. -/
theorem headFollows_append (afterParen : Bool) (tokens others : List Token) :
    headFollows afterParen (tokens ++ others) =
      headFollows (headFollows afterParen tokens) others := by
  induction tokens generalizing afterParen with
  | nil => rfl
  | cons token rest inductionHypothesis => exact inductionHypothesis _

/-- Tokens are expanded after those before them. -/
theorem expandFrom_append (afterParen : Bool) (tokens others : List Token) :
    expandFrom aliases afterParen (tokens ++ others) =
      (expandFrom aliases afterParen tokens).append
        (expandFrom aliases (headFollows afterParen tokens) others) := by
  induction tokens generalizing afterParen with
  | nil => exact (Scan.nil_append _).symm
  | cons token rest inductionHypothesis =>
    rw [List.cons_append, expandFrom, expandFrom, inductionHypothesis, Scan.append_assoc,
      headFollows]

/-- A token that is not replaced stands for itself. -/
theorem expandFrom_cons_of_replacement?_eq_none {afterParen : Bool} {token : Token}
    (notReplaced : aliases.replacement? afterParen token = none) (rest : List Token) :
    expandFrom aliases afterParen (token :: rest) =
      (expandFrom aliases (token == .lparen) rest).prepend [token] := by
  rw [expandFrom, expansion, notReplaced, Scan.append_of_failure_eq_none rfl]

/-- Where no identifier stands at the head of a call, tokens stand for themselves. -/
theorem expandFrom_of_not_mem_lparen {tokens : List Token} (noParen : .lparen ∉ tokens) :
    expandFrom aliases false tokens = ⟨tokens, none⟩ := by
  induction tokens with
  | nil => rfl
  | cons token rest inductionHypothesis =>
    rw [List.mem_cons, not_or] at noParen
    obtain ⟨notParen, noOther⟩ := noParen
    have notReplaced : aliases.replacement? false token = none := by cases token <;> rfl
    rw [expandFrom_cons_of_replacement?_eq_none notReplaced, beq_false_of_ne (Ne.symm notParen),
      inductionHypothesis noOther]
    rfl

/-! ## New aliases -/

/-- A head that names a new alias expands to the scan of its texts. -/
theorem expansion_insert_self (aliases : AliasTable) (name : String) (texts : List String) :
    expansion (aliases.insert name texts) true (.ident name) = scanAll texts := by
  have isFound : AliasTable.replacement? (aliases.insert name texts) true (.ident name) =
      some texts :=
    (Table.find?_insert aliases name name texts).trans (if_pos rfl)
  rw [expansion, isFound]

/-- A token expands as before, unless it is a head that names a new alias. -/
theorem expansion_insert_of_ne {name : String} (texts : List String) {afterParen : Bool}
    {token : Token} (notHead : afterParen = true → token ≠ .ident name) :
    expansion (aliases.insert name texts) afterParen token = expansion aliases afterParen token := by
  have sameReplacement : AliasTable.replacement? (aliases.insert name texts) afterParen token =
      aliases.replacement? afterParen token := by
    cases token with
    | lparen => rfl
    | rparen => rfl
    | quote => rfl
    | ident text =>
      cases afterParen with
      | false => rfl
      | true =>
        have different : text ≠ name := fun isName => notHead rfl (congrArg ident isName)
        exact (Table.find?_insert aliases name text texts).trans (if_neg different)
  rw [expansion, expansion, sameReplacement]

/-- A new alias changes nothing about tokens in which it is no head. -/
theorem expandFrom_insert {name : String} (texts : List String) {afterParen : Bool}
    {tokens : List Token} (notFirst : afterParen = true → tokens.head? ≠ some (.ident name))
    (notHead : ¬ [.lparen, .ident name] <:+: tokens) :
    expandFrom (aliases.insert name texts) afterParen tokens =
      expandFrom aliases afterParen tokens := by
  induction tokens generalizing afterParen with
  | nil => rfl
  | cons token rest inductionHypothesis =>
    have notName : afterParen = true → token ≠ .ident name := fun isAfterParen isName =>
      notFirst isAfterParen (congrArg some isName)
    have restNotFirst : (token == .lparen) = true → rest.head? ≠ some (.ident name) := by
      intro isParen isFirst
      obtain rfl : token = .lparen := by simpa using isParen
      obtain ⟨others, rfl⟩ := List.head?_eq_some_iff.mp isFirst
      exact notHead ⟨[], others, rfl⟩
    have restNotHead : ¬ [.lparen, .ident name] <:+: rest := fun isHead =>
      notHead (List.infix_cons isHead)
    rw [expandFrom, expandFrom, inductionHypothesis restNotFirst restNotHead,
      expansion_insert_of_ne texts notName]

/-! ## Faults of aliases -/

/-- Texts scan one after the other without a fault just if each does. -/
theorem failure_scanAll_eq_none_iff {texts : List String} :
    (scanAll texts).failure = none ↔ ∀ text ∈ texts, (scan text).failure = none := by
  induction texts with
  | nil => exact iff_of_true rfl (List.forall_mem_nil _)
  | cons text rest inductionHypothesis =>
    rw [scanAll, Scan.failure_append, Option.or_eq_none_iff, inductionHypothesis,
      List.forall_mem_cons]

end Token

namespace AliasTable

/-- The fault that the texts of an alias show where it is used. -/
def fault? (aliases : AliasTable) (name : String) : Option ReadError :=
  (aliases.find? name).bind fun texts => (Token.scanAll texts).failure

/-- The texts of all aliases scan just if no alias has a fault. -/
theorem scans_iff {aliases : AliasTable} :
    aliases.Scans ↔ ∀ name, aliases.fault? name = none := by
  simp only [Scans, fault?, Option.bind_eq_none_iff, Token.failure_scanAll_eq_none_iff]

end AliasTable

namespace Token

variable {aliases : AliasTable} {previous token : Token} {tokens : List Token}

/-- A token is expanded with a fault just where it is a head that names an alias with the fault. -/
theorem failure_expansion_eq_some_iff {fault : ReadError} :
    (expansion aliases (previous == .lparen) token).failure = some fault ↔
      previous = .lparen ∧ ∃ name, token = .ident name ∧ aliases.fault? name = some fault := by
  have unreplaced {afterParen : Bool} (notReplaced : aliases.replacement? afterParen token = none) :
      (expansion aliases afterParen token).failure = none := by
    rw [expansion, notReplaced]
  cases token with
  | ident name =>
    by_cases isParen : previous = .lparen
    · subst isParen
      unfold expansion AliasTable.replacement? AliasTable.fault?
      cases isFound : aliases.find? name <;> simp [isFound]
    · have notReplaced : aliases.replacement? (previous == .lparen) (.ident name) = none := by
        rw [beq_false_of_ne isParen]
        rfl
      simp [unreplaced notReplaced, isParen]
  | lparen => simp [unreplaced rfl]
  | rparen => simp [unreplaced rfl]
  | quote => simp [unreplaced rfl]

/-- A fault of expansion is that of an alias that is a head. -/
theorem exists_head_of_failure {fault : ReadError}
    (failed : (expandFrom aliases (previous == .lparen) tokens).failure = some fault) :
    ∃ name, [.lparen, .ident name] <:+: previous :: tokens ∧ aliases.fault? name = some fault := by
  induction tokens generalizing previous with
  | nil => cases failed
  | cons token rest inductionHypothesis =>
    rw [expandFrom, Scan.failure_append, Option.or_eq_some_iff] at failed
    rcases failed with isFirst | ⟨-, isOther⟩
    · obtain ⟨rfl, name, rfl, isFault⟩ := failure_expansion_eq_some_iff.mp isFirst
      exact ⟨name, ⟨[], rest, rfl⟩, isFault⟩
    · obtain ⟨name, isHead, isFault⟩ := inductionHypothesis isOther
      exact ⟨name, List.infix_cons isHead, isFault⟩

/-- Where an alias with a fault is a head, expansion has a fault. -/
theorem failure_ne_none_of_head {name : String}
    (isHead : [.lparen, .ident name] <:+: previous :: tokens)
    (isFault : aliases.fault? name ≠ none) :
    (expandFrom aliases (previous == .lparen) tokens).failure ≠ none := by
  induction tokens generalizing previous with
  | nil =>
    have isShort := isHead.length_le
    simp at isShort
  | cons token rest inductionHypothesis =>
    rw [expandFrom, Scan.failure_append]
    intro noFault
    obtain ⟨noFirst, noOther⟩ := Option.or_eq_none_iff.mp noFault
    rcases List.infix_cons_iff.mp isHead with isFirst | isOther
    · obtain ⟨fault, isSome⟩ := Option.ne_none_iff_exists'.mp isFault
      obtain ⟨rfl, isIdent⟩ := List.cons_prefix_cons.mp isFirst
      obtain ⟨rfl, -⟩ := List.cons_prefix_cons.mp isIdent
      rw [failure_expansion_eq_some_iff.mpr ⟨rfl, name, rfl, isSome⟩] at noFirst
      cases noFirst
    · exact inductionHypothesis isOther noOther

/-- Where the texts of all aliases scan, expansion has no fault. -/
theorem failure_expandFrom_eq_none (scans : aliases.Scans) (afterParen : Bool)
    (tokens : List Token) :
    (expandFrom aliases afterParen tokens).failure = none := by
  -- whether a token is a head only depends on the one before it
  obtain ⟨previous, rfl⟩ : ∃ previous : Token, afterParen = (previous == .lparen) := by
    cases afterParen with
    | true => exact ⟨.lparen, rfl⟩
    | false => exact ⟨.rparen, rfl⟩
  refine Option.eq_none_iff_forall_ne_some.mpr fun fault failed => ?_
  obtain ⟨name, -, isFault⟩ := exists_head_of_failure failed
  rw [AliasTable.scans_iff.mp scans name] at isFault
  cases isFault

end Token

end LispShell
