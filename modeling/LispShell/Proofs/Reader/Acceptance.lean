import LispShell.Proofs.Reader.Grammar

/-! # What the reader accepts
A row of tokens reads as an expression if it is empty or a form. The failures tell the other rows
apart: one that is incomplete can be carried on to a form, and one that is not cannot. -/

namespace LispShell

namespace Derivation

/-! ## The grammar is unambiguous -/

/-- No form begins with a closing parenthesis. -/
theorem tokens_append_ne_rparen (tree : Derivation) (rest others : List Token) :
    tree.tokens ++ rest ≠ .rparen :: others := by
  cases tree <;> simp [tokens]

mutual
/-- A row of tokens begins with one form at most. -/
theorem tokens_append_inj (tree other : Derivation) {rest otherRest : List Token}
    (same : tree.tokens ++ rest = other.tokens ++ otherRest) : tree = other ∧ rest = otherRest := by
  match tree, other with
  | .ident text, .ident otherText => simpa [tokens] using same
  | .quote inner, .quote otherInner =>
    obtain ⟨rfl, rfl⟩ := tokens_append_inj inner otherInner (by simpa [tokens] using same)
    exact ⟨rfl, rfl⟩
  | .row items, .row otherItems =>
    obtain ⟨rfl, rfl⟩ := tokensOfAll_append_inj items otherItems (by simpa [tokens] using same)
    exact ⟨rfl, rfl⟩
  | .ident _, .quote _ | .ident _, .row _ | .quote _, .ident _ | .quote _, .row _
  | .row _, .ident _ | .row _, .quote _ => simp [tokens] at same

/-- A row of tokens has one row of forms before its first unmatched parenthesis at most. -/
theorem tokensOfAll_append_inj (items others : List Derivation) {rest otherRest : List Token}
    (same : tokensOfAll items ++ .rparen :: rest = tokensOfAll others ++ .rparen :: otherRest) :
    items = others ∧ rest = otherRest := by
  match items, others with
  | [], [] => simpa [tokensOfAll] using same
  | [], other :: _ =>
    rw [tokensOfAll, tokensOfAll, List.append_assoc] at same
    exact absurd same.symm (tokens_append_ne_rparen other _ _)
  | item :: _, [] =>
    rw [tokensOfAll, tokensOfAll, List.append_assoc] at same
    exact absurd same (tokens_append_ne_rparen item _ _)
  | item :: items, other :: others =>
    rw [tokensOfAll, tokensOfAll, List.append_assoc, List.append_assoc] at same
    obtain ⟨rfl, sameRest⟩ := tokens_append_inj item other same
    obtain ⟨rfl, rfl⟩ := tokensOfAll_append_inj items others sameRest
    exact ⟨rfl, rfl⟩
end

/-- A row of tokens is a form in one way at most. -/
theorem tokens_injective : Function.Injective tokens := fun tree other same =>
  (tokens_append_inj tree other (congrArg (· ++ []) same)).1

end Derivation

/-- Whether nowhere in the row more than `limit` quotes and parentheses are open at once. -/
def Token.NestWithin (limit : Nat) (tokens : List Token) : Prop :=
  ∀ frames, Derivation.Frame.tokensOfAll frames <+: tokens → frames.length ≤ limit

/-- As many tokens as the limit cannot nest deeper than it. -/
theorem Token.nestWithin_of_length_le {limit : Nat} {tokens : List Token}
    (fits : tokens.length ≤ limit) : NestWithin limit tokens := by
  have length_le (frames : List Derivation.Frame) :
      frames.length ≤ (Derivation.Frame.tokensOfAll frames).length := by
    induction frames with
    | nil => exact Nat.zero_le _
    | cons frame outer inductionHypothesis =>
      have isNonempty : 0 < frame.tokens.length := by cases frame <;> simp [Derivation.Frame.tokens]
      simp only [Derivation.Frame.tokensOfAll, List.length_cons, List.length_append]
      omega
  exact fun frames isPrefix =>
    Nat.le_trans (length_le frames) (Nat.le_trans isPrefix.length_le fits)

/-! ## More tokens do not undo what has been read -/

namespace Reading

variable {limit : Nat} {opened : List OpenForm} {tokens : List Token}

/-- What is missing could be mended. -/
@[simp] theorem isIncomplete_missing (opened : List OpenForm) :
    (missing opened).isIncomplete = true := by
  unfold missing
  split <;> rfl

/-- A form that is read does not depend on the tokens after it. -/
theorem readForm_append_of_ok {form : Expr} {rest : List Token}
    (isRead : readForm limit opened tokens = .ok (form, rest)) (more : List Token) :
    readForm limit opened (tokens ++ more) = .ok (form, rest ++ more) := by
  induction tokens generalizing opened with
  | nil => cases isRead
  | cons token others inductionHypothesis =>
    rw [List.cons_append]
    unfold readForm at isRead ⊢
    split at isRead
    · cases isRead
    · cases isRead
      rfl
    · exact inductionHypothesis isRead

/-- A fault that more input could not mend stays. -/
theorem readForm_append_of_error {fault : ReadError}
    (failed : readForm limit opened tokens = .error fault) (isFinal : fault.isIncomplete = false)
    (more : List Token) : readForm limit opened (tokens ++ more) = .error fault := by
  induction tokens generalizing opened with
  | nil =>
    cases failed
    simp at isFinal
  | cons token others inductionHypothesis =>
    rw [List.cons_append]
    unfold readForm at failed ⊢
    split at failed
    · exact failed
    · cases failed
    · exact inductionHypothesis failed

end Reading

/-- Tokens that end before a form is complete are those of open frames. -/
theorem Derivation.exists_frames_of_isIncomplete {limit : Nat} {tokens : List Token}
    {fault : ReadError} (failed : Reading.readForm limit [] tokens = .error fault)
    (isIncomplete : fault.isIncomplete = true) : ∃ frames, Frame.tokensOfAll frames = tokens := by
  rcases readForm_error_cases [] failed with ⟨frames, isTokens, -⟩ | ⟨rfl, -⟩ | ⟨_, rfl⟩
  · exact ⟨frames, isTokens⟩
  · cases isIncomplete
  · cases isIncomplete

/-- Tokens with which a form begins, but not ends, are those of open frames. -/
theorem Derivation.exists_frames_of_append {tree : Derivation} {before after : List Token}
    (isWhole : tree.tokens = before ++ after) (isLonger : after ≠ []) :
    ∃ frames, Frame.tokensOfAll frames = before := by
  -- a reader with room for the whole form stops in these frames where the tokens end
  have reading := Reading.readForm_tokens_eq tree.nesting tree
  rw [if_pos (Nat.le_refl _)] at reading
  cases beginning : Reading.readForm tree.nesting [] before with
  | ok result =>
    obtain ⟨form, rest⟩ := result
    have whole := Reading.readForm_append_of_ok beginning after
    rw [← isWhole, reading, Except.ok.injEq, Prod.mk.injEq] at whole
    exact absurd (List.append_eq_nil_iff.mp whole.2.symm).2 isLonger
  | error fault =>
    cases isFinal : fault.isIncomplete with
    | true => exact exists_frames_of_isIncomplete beginning isFinal
    | false =>
      have whole := Reading.readForm_append_of_error beginning isFinal after
      rw [← isWhole, reading] at whole
      cases whole

namespace Expr

variable {limit : Nat} {tokens : List Token}

/-- The tokens of a form read as its value, if the reader has room for it. -/
theorem ofTokens_tokens (limit : Nat) (tree : Derivation) :
    ofTokens limit tree.tokens =
      if tree.nesting ≤ limit then .ok tree.value else .error .nestingTooDeep := by
  have isNonempty : tree.tokens.isEmpty = false := by cases tree <;> rfl
  rw [ofTokens, isNonempty, Reading.readForm_tokens_eq]
  by_cases enough : tree.nesting ≤ limit <;> simp [enough]

/-- Tokens that read as an expression are those of a form. -/
theorem exists_of_ofTokens_ok {e : Expr} (isNonempty : tokens ≠ [])
    (isRead : ofTokens limit tokens = .ok e) :
    ∃ tree : Derivation, tree.tokens = tokens ∧ tree.value = e := by
  rw [ofTokens, if_neg (by simpa using isNonempty)] at isRead
  split at isRead <;> cases isRead
  next isRead =>
    obtain ⟨tree, isValue, isTokens⟩ := Derivation.exists_of_readForm_ok [] isRead
    exact ⟨tree, by simpa [Derivation.Frame.tokensOfAll] using isTokens.symm, isValue⟩

/-- Tokens that do not read as an expression are not empty; either they are no form, or a form ends
before they do. -/
theorem ofTokens_error_cases {fault : ReadError} (failed : ofTokens limit tokens = .error fault) :
    tokens ≠ [] ∧ (Reading.readForm limit [] tokens = .error fault ∨
      ∃ (tree : Derivation) (token : Token) (rest : List Token),
        fault = .unexpectedToken token ∧ tokens = tree.tokens ++ token :: rest) := by
  unfold ofTokens at failed
  split at failed
  · cases failed
  · next isNonempty =>
    refine ⟨by simpa using isNonempty, ?_⟩
    split at failed <;> cases failed
    · next failed => exact .inl failed
    · next isRead =>
      obtain ⟨tree, -, isTokens⟩ := Derivation.exists_of_readForm_ok [] isRead
      exact .inr ⟨tree, _, _, rfl, isTokens⟩

/-- Reading fails for too much nesting exactly where more forms are open than the reader holds. -/
theorem ofTokens_eq_nestingTooDeep_iff :
    ofTokens limit tokens = .error .nestingTooDeep ↔ ¬ Token.NestWithin limit tokens := by
  constructor
  · intro failed within
    obtain ⟨-, failed | ⟨_, _, _, isUnexpected, -⟩⟩ := ofTokens_error_cases failed
    · rcases Derivation.readForm_error_cases [] failed with
        ⟨inner, -, isMissing⟩ | ⟨-, inner, isPrefix, tooMany⟩ | ⟨_, isUnexpected⟩
      · unfold Reading.missing at isMissing
        split at isMissing <;> cases isMissing
      · exact absurd (within inner isPrefix) (by omega)
      · cases isUnexpected
    · cases isUnexpected
  · intro notWithin
    simp only [Token.NestWithin, Classical.not_forall, Nat.not_le] at notWithin
    obtain ⟨frames, ⟨rest, rfl⟩, tooMany⟩ := notWithin
    have tooDeep :
        Reading.readForm limit [] (Derivation.Frame.tokensOfAll frames ++ rest) =
          .error .nestingTooDeep := by
      rcases Reading.readForm_frames limit frames rest with ⟨fits, -⟩ | tooDeep
      · omega
      · exact tooDeep
    unfold ofTokens
    split
    · next isEmpty =>
      rw [List.isEmpty_iff.mp isEmpty] at tooDeep
      cases tooDeep
    · rw [tooDeep]

/-- Tokens whose reading more input could mend can be carried on to a form. -/
theorem exists_extension_of_isIncomplete {fault : ReadError}
    (failed : ofTokens limit tokens = .error fault) (isIncomplete : fault.isIncomplete = true) :
    ∃ (more : List Token) (tree : Derivation), tree.tokens = tokens ++ more := by
  obtain ⟨-, failed | ⟨_, _, _, rfl, -⟩⟩ := ofTokens_error_cases failed
  · obtain ⟨frames, isTokens⟩ := Derivation.exists_frames_of_isIncomplete failed isIncomplete
    obtain ⟨more, whole, isWhole⟩ := Derivation.exists_closing (.ident "") frames
    rw [isTokens] at isWhole
    exact ⟨_, whole, isWhole⟩
  · cases isIncomplete

/-- Where tokens can be carried on to a form, reading them fails only for want of more input or for
too much nesting. -/
theorem fault_of_extension {fault : ReadError} (failed : ofTokens limit tokens = .error fault)
    {more : List Token} {tree : Derivation} (isWhole : tree.tokens = tokens ++ more) :
    fault.isIncomplete = true ∨ fault = .nestingTooDeep := by
  obtain ⟨-, failed | ⟨other, token, rest, -, rfl⟩⟩ := ofTokens_error_cases failed
  · cases isFinal : fault.isIncomplete with
    | true => exact .inl rfl
    | false =>
      have stays := Reading.readForm_append_of_error failed isFinal more
      rw [← isWhole, Reading.readForm_tokens_eq] at stays
      split at stays <;> cases stays
      exact .inr rfl
  · -- the form would begin with another one that is shorter
    rw [List.append_assoc, ← List.append_nil tree.tokens] at isWhole
    have noRest := (Derivation.tokens_append_inj tree other isWhole).2
    cases noRest

/-- The reader accepts exactly its grammar, and its failures tell the other rows of tokens apart.
Within the limit of nesting, no tokens read as the empty atom and the tokens of a form as the value
of their one derivation. The failure is an incomplete one exactly if the tokens are no form but some
extension of them is, and another one in every case that is left. -/
theorem ofTokens_accepts_grammar (limit : Nat) (tokens : List Token)
    (within : Token.NestWithin limit tokens) :
    (tokens = [] → ofTokens limit tokens = .ok .empty) ∧
    (∀ tree : Derivation, tree.tokens = tokens →
      ofTokens limit tokens = .ok tree.value ∧
        ∀ other : Derivation, other.tokens = tokens → other = tree) ∧
    ((∃ fault, ofTokens limit tokens = .error fault ∧ fault.isIncomplete = true) ↔
      tokens ≠ [] ∧ (¬ ∃ tree : Derivation, tree.tokens = tokens) ∧
        ∃ (more : List Token) (tree : Derivation), tree.tokens = tokens ++ more) ∧
    (tokens ≠ [] → (¬ ∃ (more : List Token) (tree : Derivation), tree.tokens = tokens ++ more) →
      ∃ fault, ofTokens limit tokens = .error fault ∧ fault.isIncomplete = false) := by
  have notTooDeep : ofTokens limit tokens ≠ .error .nestingTooDeep := fun tooDeep =>
    ofTokens_eq_nestingTooDeep_iff.mp tooDeep within
  have accepts (tree : Derivation) (isTokens : tree.tokens = tokens) :
      ofTokens limit tokens = .ok tree.value := by
    subst isTokens
    rw [ofTokens_tokens] at notTooDeep ⊢
    split
    · rfl
    · next tooDeep => exact absurd (if_neg tooDeep) notTooDeep
  refine ⟨?empty, ?derived, ?incomplete, ?other⟩
  case empty =>
    rintro rfl
    rfl
  case derived =>
    refine fun tree isTokens => ⟨accepts tree isTokens, fun other isOther => ?_⟩
    exact Derivation.tokens_injective (isOther.trans isTokens.symm)
  case incomplete =>
    constructor
    · rintro ⟨fault, failed, isIncomplete⟩
      refine ⟨(ofTokens_error_cases failed).1, ?_,
        exists_extension_of_isIncomplete failed isIncomplete⟩
      rintro ⟨tree, isTokens⟩
      rw [accepts tree isTokens] at failed
      cases failed
    · rintro ⟨isNonempty, notDerived, more, tree, isWhole⟩
      cases ended : ofTokens limit tokens with
      | ok e =>
        obtain ⟨tree, isTokens, -⟩ := exists_of_ofTokens_ok isNonempty ended
        exact absurd ⟨tree, isTokens⟩ notDerived
      | error fault =>
        refine ⟨fault, rfl, (fault_of_extension ended isWhole).resolve_right ?_⟩
        rintro rfl
        exact notTooDeep ended
  case other =>
    intro isNonempty noExtension
    cases ended : ofTokens limit tokens with
    | ok e =>
      obtain ⟨tree, isTokens, -⟩ := exists_of_ofTokens_ok isNonempty ended
      exact absurd ⟨[], tree, by rw [isTokens, List.append_nil]⟩ noExtension
    | error fault =>
      refine ⟨fault, rfl, Bool.eq_false_iff.mpr fun isIncomplete => ?_⟩
      exact noExtension (exists_extension_of_isIncomplete ended isIncomplete)

/-- A quoted row of one word reads as a list. -/
theorem ofTokens_quoted_row :
    Token.NestWithin 4 [.quote, .lparen, .ident "a", .rparen] ∧
      ofTokens 4 [.quote, .lparen, .ident "a", .rparen] = .ok (.list [.atom "a"]) := by
  have within : Token.NestWithin 4 [.quote, .lparen, .ident "a", .rparen] :=
    Token.nestWithin_of_length_le (by decide)
  have accepted := (ofTokens_accepts_grammar 4 _ within).2.1 (.quote (.row [.ident "a"])) rfl
  exact ⟨within, accepted.1⟩

end Expr

end LispShell
