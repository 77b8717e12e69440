import LispShell.Proofs.Token.Scanner

/-! # The length of what is scanned
No scan makes more characters than it reads. A character that does not stand for itself is lost, and
so is a last double quote: it ends a text, unless a backslash before it is lost instead. -/

namespace LispShell

namespace Token

/-- The number of characters in the identifiers of a row of tokens. -/
def identLength : List Token → Nat
  | [] => 0
  | .ident text :: rest => text.length + identLength rest
  | _ :: rest => identLength rest

/-- The characters of two rows are counted apart. -/
@[simp] theorem identLength_append (tokens others : List Token) :
    identLength (tokens ++ others) = identLength tokens + identLength others := by
  induction tokens with
  | nil => simp [identLength]
  | cons token rest inductionHypothesis =>
    cases token <;> simp [identLength, inductionHypothesis, Nat.add_assoc]

end Token

namespace ScanMode

/-- The number of characters held. -/
def heldLength : ScanMode → Nat
  | .bare held => held.length
  | .quoted held => held.length
  | .comment => 0
  | .escape _ held => held.length
  | .hexEscape _ held => held.length
  | .hexDigit _ held _ => held.length

/-- Going on with a text keeps what is held. -/
@[simp] theorem heldLength_resume (inQuotes : Bool) (held : List Char) :
    (resume inQuotes held).heldLength = held.length := by
  cases inQuotes <;> rfl

/-- The token of the characters held has their number. -/
@[simp] theorem identLength_heldToken (held : List Char) (rest : List Token) :
    Token.identLength (heldToken held :: rest) = held.length + Token.identLength rest := by
  simp [heldToken, Token.identLength]

/-- The word that ends has the characters held. -/
@[simp] theorem identLength_endWord (held : List Char) :
    Token.identLength (endWord held) = held.length := by
  cases held <;> simp [endWord, Token.identLength]

/-- The end of a text makes no characters. -/
theorem identLength_finish_le (mode : ScanMode) :
    Token.identLength mode.finish.tokens ≤ mode.heldLength := by
  cases mode <;> simp [finish, heldLength, Token.identLength, Scan.nil]

/-- One character makes one at most. -/
theorem identLength_step_le {mode next : ScanMode} {c : Char} {tokens : List Token}
    (isStep : mode.step c = .ok (tokens, next)) :
    Token.identLength tokens + next.heldLength ≤ mode.heldLength + 1 := by
  cases mode with
  | bare held =>
    simp only [step, stepBare] at isStep
    repeat' split at isStep
    all_goals cases isStep; simp [heldLength, Token.identLength]
  | quoted held =>
    simp only [step, stepQuoted] at isStep
    repeat' split at isStep
    all_goals cases isStep; simp [heldLength, Token.identLength]
  | comment =>
    cases isStep
    split <;> simp [heldLength, Token.identLength]
  | escape inQuotes held =>
    simp only [step] at isStep
    split at isStep <;> cases isStep
    · simp [heldLength, Token.identLength]
    · rw [heldLength_resume]
      simp [heldLength, Token.identLength]
  | hexEscape inQuotes held =>
    cases isStep
    simp [heldLength, Token.identLength]
  | hexDigit inQuotes held high =>
    simp only [step] at isStep
    split at isStep <;> cases isStep
    rw [heldLength_resume]
    simp [heldLength, Token.identLength]

end ScanMode

namespace Token

/-- A scan makes no more characters than it reads. -/
theorem identLength_scanFrom_le (mode : ScanMode) (cs : List Char) :
    identLength (scanFrom mode cs).tokens ≤ mode.heldLength + cs.length := by
  induction cs generalizing mode with
  | nil => exact mode.identLength_finish_le
  | cons c cs inductionHypothesis =>
    rw [scanFrom, List.length_cons]
    cases isStep : mode.step c with
    | error fault => exact Nat.zero_le _
    | ok stepped =>
      obtain ⟨tokens, next⟩ := stepped
      have stepBound := ScanMode.identLength_step_le isStep
      have restBound := inductionHypothesis next
      simp only [Scan.prepend, identLength_append]
      omega

end Token

namespace ScanMode

/-- Outside quotes a character that does not stand for itself is lost. -/
theorem identLength_stepBare_le {c : Char} (notWord : Token.isWordChar c = false)
    (held : List Char) :
    Token.identLength (stepBare held c).1 + (stepBare held c).2.heldLength ≤ held.length := by
  rcases Token.special_of_isWordChar_eq_false notWord with
    isBlank | rfl | rfl | rfl | rfl | rfl | rfl
  · rw [Token.stepBare_of_isBlank isBlank]
    simp [heldLength]
  all_goals simp [stepBare, heldLength, Token.identLength]

/-- Whether the scanner is after a backslash. -/
def isInEscape : ScanMode → Bool
  | .escape _ _ => true
  | .hexEscape _ _ => true
  | .hexDigit _ _ _ => true
  | .bare _ => false
  | .quoted _ => false
  | .comment => false

/-- Only a backslash leads into an escape, and it is lost. -/
theorem step_of_isInEscape_eq_false {mode : ScanMode} (notEscape : mode.isInEscape = false)
    (c : Char) :
    ∃ tokens next, mode.step c = .ok (tokens, next) ∧
      (next.isInEscape = false ∨
        Token.identLength tokens + next.heldLength ≤ mode.heldLength) := by
  cases mode with
  | bare held =>
    refine ⟨(stepBare held c).1, (stepBare held c).2, rfl, ?_⟩
    unfold stepBare
    repeat' split
    all_goals simp [isInEscape, heldLength, Token.identLength]
  | quoted held =>
    refine ⟨(stepQuoted held c).1, (stepQuoted held c).2, rfl, ?_⟩
    unfold stepQuoted
    repeat' split
    all_goals simp [isInEscape, heldLength, Token.identLength]
  | comment =>
    refine ⟨_, _, rfl, .inl ?_⟩
    split <;> rfl
  | escape inQuotes held => cases notEscape
  | hexEscape inQuotes held => cases notEscape
  | hexDigit inQuotes held high => cases notEscape

end ScanMode

namespace Token

/-- A last double quote is lost, or a backslash before it is. -/
theorem identLength_scanFrom_append_quote_le {mode : ScanMode}
    (notEscape : mode.isInEscape = false) (cs : List Char) :
    identLength (scanFrom mode (cs ++ ['"'])).tokens ≤ mode.heldLength + cs.length := by
  induction cs generalizing mode with
  | nil =>
    cases mode with
    | bare held =>
      simp [scanFrom, ScanMode.step, ScanMode.stepBare, ScanMode.finish, Scan.prepend,
        ScanMode.heldLength, identLength]
    | quoted held =>
      simp [scanFrom, ScanMode.step, ScanMode.stepQuoted, ScanMode.finish, Scan.prepend,
        ScanMode.heldLength]
    | comment => exact Nat.zero_le _
    | escape inQuotes held => cases notEscape
    | hexEscape inQuotes held => cases notEscape
    | hexDigit inQuotes held high => cases notEscape
  | cons c cs inductionHypothesis =>
    obtain ⟨tokens, next, isStep, loss⟩ := ScanMode.step_of_isInEscape_eq_false notEscape c
    have stepBound := ScanMode.identLength_step_le isStep
    rw [List.cons_append, scanFrom, isStep, List.length_cons]
    simp only [Scan.prepend, identLength_append]
    rcases loss with stillNotEscape | lost
    · have restBound := inductionHypothesis stillNotEscape
      omega
    · have restBound := identLength_scanFrom_le next (cs ++ ['"'])
      rw [List.length_append, List.length_singleton] at restBound
      omega

/-- A word with a character that does not stand for itself makes fewer characters than it has. -/
theorem identLength_scanFrom_lt_of_not_isWordChar {cs : List Char}
    (notWord : ∃ c ∈ cs, isWordChar c = false) (held : List Char) :
    identLength (scanFrom (.bare held) cs).tokens < held.length + cs.length := by
  induction cs generalizing held with
  | nil => simp at notWord
  | cons c cs inductionHypothesis =>
    rw [scanFrom, ScanMode.step, List.length_cons]
    cases isWord : isWordChar c with
    | true =>
      rw [stepBare_of_isWordChar isWord]
      have restBound := inductionHypothesis (by simpa [isWord] using notWord) (c :: held)
      rw [List.length_cons] at restBound
      simp only [Scan.prepend, List.nil_append]
      omega
    | false =>
      have stepBound := ScanMode.identLength_stepBare_le isWord held
      have restBound := identLength_scanFrom_le (ScanMode.stepBare held c).2 cs
      simp only [Scan.prepend, identLength_append]
      omega

/-- After a backslash and one more character, a last double quote is lost too. -/
theorem identLength_scanFrom_escape_le (inQuotes : Bool) (held : List Char) (c : Char)
    (cs : List Char) :
    identLength (scanFrom (.escape inQuotes held) (c :: cs ++ ['"'])).tokens ≤
      held.length + cs.length + 1 := by
  rw [List.cons_append, scanFrom, ScanMode.step]
  -- the `x` of a numbered escape is lost
  by_cases isNumbered : c = 'x'
  · have restBound := identLength_scanFrom_le (.hexEscape inQuotes held) (cs ++ ['"'])
    rw [List.length_append, List.length_singleton] at restBound
    simpa [isNumbered, Scan.prepend, ScanMode.heldLength, Nat.add_assoc] using restBound
  · let resumed := ScanMode.resume inQuotes ((if c = 'n' then '\n' else c) :: held)
    have notEscape : resumed.isInEscape = false := by cases inQuotes <;> rfl
    have restBound := identLength_scanFrom_append_quote_le notEscape cs
    rw [ScanMode.heldLength_resume, List.length_cons] at restBound
    simp only [if_neg isNumbered, Scan.prepend, List.nil_append]
    exact Nat.le_trans restBound (by omega)

/-- A quoted text with a double quote or a backslash makes fewer characters than it has, unless the
only one is a backslash at its end, which gives way to the double quote after it. -/
theorem scanFrom_of_not_isQuotable {cs : List Char} (notQuotable : ∃ c ∈ cs, isQuotable c = false)
    (held : List Char) :
    identLength (scanFrom (.quoted held) (cs ++ ['"'])).tokens < held.length + cs.length ∨
    ∃ before, cs = before ++ ['\\'] ∧
      scanFrom (.quoted held) (cs ++ ['"']) =
        ⟨[.ident (String.ofList (held.reverse ++ before ++ ['"']))], none⟩ := by
  -- the first character that is not held as it is decides
  induction cs generalizing held with
  | nil => simp at notQuotable
  | cons c cs inductionHypothesis =>
    rw [List.cons_append, scanFrom, ScanMode.step, List.length_cons]
    by_cases isClosing : c = '"'
    · have stepped : ScanMode.stepQuoted held c = ([ScanMode.heldToken held], .bare []) :=
        if_pos isClosing
      have notEscape : (ScanMode.bare []).isInEscape = false := rfl
      have restBound := identLength_scanFrom_append_quote_le notEscape cs
      simp only [ScanMode.heldLength, List.length_nil, Nat.zero_add] at restBound
      refine .inl ?_
      simp only [stepped, Scan.prepend, identLength_append, ScanMode.identLength_heldToken,
        identLength]
      omega
    by_cases isBackslash : c = '\\'
    · have stepped : ScanMode.stepQuoted held c = ([], .escape true held) := by
        simp [ScanMode.stepQuoted, isBackslash]
      simp only [stepped, Scan.prepend_nil]
      cases cs with
      | nil =>
        refine .inr ⟨[], by rw [isBackslash, List.nil_append], ?_⟩
        simp [scanFrom, ScanMode.step, ScanMode.resume, ScanMode.finish, ScanMode.heldToken,
          Scan.prepend]
      | cons next cs =>
        have restBound := identLength_scanFrom_escape_le true held next cs
        rw [List.length_cons]
        exact .inl (by omega)
    · have stepped : ScanMode.stepQuoted held c = ([], .quoted (c :: held)) := by
        simp [ScanMode.stepQuoted, isClosing, isBackslash]
      have isOther : ∃ c ∈ cs, isQuotable c = false := by
        simpa [isQuotable, isClosing, isBackslash] using notQuotable
      simp only [stepped, Scan.prepend_nil]
      rcases inductionHypothesis isOther (c :: held) with shorter | ⟨before, rfl, isScan⟩
      · rw [List.length_cons] at shorter
        exact .inl (by omega)
      · exact .inr ⟨c :: before, rfl, by simpa using isScan⟩

end Token

end LispShell
