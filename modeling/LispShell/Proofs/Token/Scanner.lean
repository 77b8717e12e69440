import LispShell.Token.Scanner

/-! # Runs of the scanner
How the scanner goes over a piece of a text: whatever follows, a piece gives the same tokens and
leaves the scanner in the same mode. Words, quoted texts and blanks are pieces whose tokens are
known. -/

namespace LispShell

namespace Scan

/-- Putting tokens before a scan twice puts them together. -/
@[simp] theorem prepend_prepend (outer inner : List Token) (scan : Scan) :
    (scan.prepend inner).prepend outer = scan.prepend (outer ++ inner) := by
  simp [prepend]

/-- Putting no tokens before a scan changes nothing. -/
@[simp] theorem prepend_nil (scan : Scan) : scan.prepend [] = scan := rfl

end Scan

namespace Token

/-- The mode in which a piece of a text leaves the scanner, unless the piece shows a fault. -/
def modeAfter : ScanMode → List Char → Option ScanMode
  | mode, [] => some mode
  | mode, c :: rest =>
    match mode.step c with
    | .error _ => none
    | .ok (_, next) => modeAfter next rest

/-- A piece of a text leaves the scanner in no mode and shows the same fault whatever follows, or it
gives the same tokens and leaves the scanner in a mode from which it goes on. -/
theorem scanFrom_append_modeAfter (mode : ScanMode) (piece : List Char) :
    (modeAfter mode piece = none ∧
      ∃ tokens fault, ∀ rest, scanFrom mode (piece ++ rest) = ⟨tokens, some fault⟩) ∨
    ∃ tokens next, modeAfter mode piece = some next ∧
      ∀ rest, scanFrom mode (piece ++ rest) = (scanFrom next rest).prepend tokens := by
  induction piece generalizing mode with
  | nil => exact .inr ⟨[], mode, rfl, fun _ => rfl⟩
  | cons c piece inductionHypothesis =>
    simp only [List.cons_append, scanFrom, modeAfter]
    cases mode.step c with
    | error fault => exact .inl ⟨rfl, [], fault, fun _ => rfl⟩
    | ok stepped =>
      obtain ⟨first, next⟩ := stepped
      obtain ⟨isNone, tokens, fault, failing⟩ | ⟨tokens, last, isLast, passing⟩ :=
        inductionHypothesis next
      · refine .inl ⟨isNone, first ++ tokens, fault, ?_⟩
        intro rest
        simp [failing rest, Scan.prepend]
      · refine .inr ⟨first ++ tokens, last, isLast, ?_⟩
        intro rest
        simp [passing rest]

/-- A piece of a text shows the same fault whatever follows, or it gives the same tokens and leaves
the scanner in the same mode. -/
theorem scanFrom_append (mode : ScanMode) (piece : List Char) :
    (∃ tokens fault, ∀ rest, scanFrom mode (piece ++ rest) = ⟨tokens, some fault⟩) ∨
    ∃ tokens next, ∀ rest, scanFrom mode (piece ++ rest) = (scanFrom next rest).prepend tokens := by
  obtain ⟨-, failing⟩ | ⟨tokens, next, -, passing⟩ := scanFrom_append_modeAfter mode piece
  · exact .inl failing
  · exact .inr ⟨tokens, next, passing⟩

/-! ## Words, quoted texts and blanks -/

/-- Whether the character stands for itself in a bare word. -/
def isWordChar (c : Char) : Bool :=
  !(Text.isBlank c || ['(', ')', '\'', '"', ';', '\\'].contains c)

/-- Whether the character stands for itself between double quotes. -/
def isQuotable (c : Char) : Bool :=
  c != '"' && c != '\\'

/-- A character that does not stand for itself in a bare word is a blank or one of six others. -/
theorem special_of_isWordChar_eq_false {c : Char} (notWord : isWordChar c = false) :
    Text.isBlank c = true ∨ c = '(' ∨ c = ')' ∨ c = '\'' ∨ c = '"' ∨ c = ';' ∨ c = '\\' := by
  cases isBlank : Text.isBlank c with
  | true => exact .inl rfl
  | false => simpa [isWordChar, isBlank, Classical.or_iff_not_imp_left] using notWord

/-- A character of a bare word is held. -/
theorem stepBare_of_isWordChar {c : Char} (isWord : isWordChar c = true) (held : List Char) :
    ScanMode.stepBare held c = ([], .bare (c :: held)) := by
  simp only [isWordChar, List.contains_cons, List.contains_nil, Bool.or_false,
    Bool.not_eq_eq_eq_not, Bool.not_true, Bool.or_eq_false_iff, beq_eq_false_iff_ne,
    ne_eq] at isWord
  simp [ScanMode.stepBare, isWord]

/-- The characters of a bare word are held. -/
theorem scanFrom_word {word : List Char} (isWord : ∀ c ∈ word, isWordChar c)
    (held rest : List Char) :
    scanFrom (.bare held) (word ++ rest) = scanFrom (.bare (word.reverse ++ held)) rest := by
  induction word generalizing held with
  | nil => rfl
  | cons c word inductionHypothesis =>
    obtain ⟨isFirst, areOthers⟩ := List.forall_mem_cons.mp isWord
    rw [List.cons_append, scanFrom, ScanMode.step, stepBare_of_isWordChar isFirst]
    simp [inductionHypothesis areOthers]

/-- The characters of a quoted text are held. -/
theorem scanFrom_quotable {text : List Char} (areQuotable : ∀ c ∈ text, isQuotable c)
    (held rest : List Char) :
    scanFrom (.quoted held) (text ++ rest) = scanFrom (.quoted (text.reverse ++ held)) rest := by
  induction text generalizing held with
  | nil => rfl
  | cons c text inductionHypothesis =>
    obtain ⟨isFirst, areOthers⟩ := List.forall_mem_cons.mp areQuotable
    simp only [isQuotable, Bool.and_eq_true, bne_iff_ne, ne_eq] at isFirst
    simp [scanFrom, ScanMode.step, ScanMode.stepQuoted, isFirst, inductionHypothesis areOthers]

/-- A blank is none of the characters that are not blank. -/
theorem ne_of_isBlank {c : Char} (isBlank : Text.isBlank c = true) (special : Char)
    (notBlank : Text.isBlank special = false) : c ≠ special := by
  rintro rfl
  rw [isBlank] at notBlank
  cases notBlank

/-- A blank ends the word before it. -/
theorem stepBare_of_isBlank {c : Char} (isBlank : Text.isBlank c = true) (held : List Char) :
    ScanMode.stepBare held c = (ScanMode.endWord held, .bare []) := by
  have notSpecial := ne_of_isBlank isBlank
  simp [ScanMode.stepBare, isBlank, notSpecial '"' rfl, notSpecial '\\' rfl, notSpecial ';' rfl,
    notSpecial '\'' rfl, notSpecial '(' rfl, notSpecial ')' rfl]

/-- Blanks between words give no tokens. -/
theorem scanFrom_blanks {blanks : List Char} (areBlank : ∀ c ∈ blanks, Text.isBlank c)
    (rest : List Char) : scanFrom (.bare []) (blanks ++ rest) = scanFrom (.bare []) rest := by
  induction blanks with
  | nil => rfl
  | cons c blanks inductionHypothesis =>
    obtain ⟨isFirst, areOthers⟩ := List.forall_mem_cons.mp areBlank
    rw [List.cons_append, scanFrom, ScanMode.step, stepBare_of_isBlank isFirst]
    exact inductionHypothesis areOthers

/-- Whether a word ends before the characters: they are none, or they begin with a blank or a
closing parenthesis. -/
def EndWords (rest : List Char) : Prop :=
  ∀ c ∈ rest.head?, Text.isBlank c = true ∨ c = ')'

/-- A word that is ended is a token. -/
theorem scanFrom_endWord {rest : List Char} (isEnded : EndWords rest) (held : List Char) :
    scanFrom (.bare held) rest = (scanFrom (.bare []) rest).prepend (ScanMode.endWord held) := by
  cases rest with
  | nil => simp [scanFrom, ScanMode.finish, ScanMode.endWord, Scan.prepend]
  | cons c rest =>
    rcases isEnded c rfl with isBlank | rfl
    · simp [scanFrom, ScanMode.step, stepBare_of_isBlank isBlank, ScanMode.endWord]
    · simp [scanFrom, ScanMode.step, ScanMode.stepBare, ScanMode.endWord]

end Token

/-! ## Quoted texts that are open -/

namespace ScanMode

/-- Whether the scanner is between double quotes. -/
def isInQuotes : ScanMode → Bool
  | .quoted _ => true
  | .escape inQuotes _ => inQuotes
  | .hexEscape inQuotes _ => inQuotes
  | .hexDigit inQuotes _ _ => inQuotes
  | .bare _ => false
  | .comment => false

/-- A mode that goes on with what is between double quotes is between double quotes. -/
@[simp] theorem isInQuotes_resume (inQuotes : Bool) (held : List Char) :
    (resume inQuotes held).isInQuotes = inQuotes := by
  cases inQuotes <;> rfl

/-- The characters held, in reverse order. -/
def held : ScanMode → List Char
  | .bare held => held
  | .quoted held => held
  | .comment => []
  | .escape _ held => held
  | .hexEscape _ held => held
  | .hexDigit _ held _ => held

/-- Going on with a text keeps what is held. -/
@[simp] theorem held_resume (inQuotes : Bool) (kept : List Char) :
    (resume inQuotes kept).held = kept := by
  cases inQuotes <;> rfl

/-- Between double quotes what is held is kept, or it is a token by itself. -/
theorem step_of_isInQuotes {mode next : ScanMode} (inQuotes : mode.isInQuotes = true) {c : Char}
    {tokens : List Token} (isStep : mode.step c = .ok (tokens, next)) :
    (tokens = [] ∧ next.isInQuotes = true ∧ mode.held <:+ next.held) ∨
      tokens = [heldToken mode.held] := by
  cases mode with
  | bare kept => cases inQuotes
  | comment => cases inQuotes
  | quoted kept =>
    simp only [step, stepQuoted] at isStep
    split at isStep
    · cases isStep
      exact .inr rfl
    · split at isStep <;> cases isStep
      · exact .inl ⟨rfl, rfl, List.suffix_rfl⟩
      · exact .inl ⟨rfl, rfl, List.suffix_cons c kept⟩
  | escape quotes kept =>
    simp only [step] at isStep
    split at isStep <;> cases isStep
    · exact .inl ⟨rfl, inQuotes, List.suffix_rfl⟩
    · refine .inl ⟨rfl, (isInQuotes_resume _ _).trans inQuotes, ?_⟩
      rw [held_resume]
      exact List.suffix_cons _ kept
  | hexEscape quotes kept =>
    cases isStep
    exact .inl ⟨rfl, inQuotes, List.suffix_rfl⟩
  | hexDigit quotes kept high =>
    simp only [step] at isStep
    split at isStep <;> cases isStep
    refine .inl ⟨rfl, (isInQuotes_resume _ _).trans inQuotes, ?_⟩
    rw [held_resume]
    exact List.suffix_cons _ kept

end ScanMode

namespace Token

/-- From between double quotes on, a scan begins with an identifier that begins with what is held,
or it shows a fault before any token. -/
theorem exists_of_isInQuotes {mode : ScanMode} (inQuotes : mode.isInQuotes = true)
    (rest : List Char) :
    (∃ fault, scanFrom mode rest = ⟨[], some fault⟩) ∨
    ∃ more others failure, scanFrom mode rest =
      ⟨.ident (String.ofList (mode.held.reverse ++ more)) :: others, failure⟩ := by
  induction rest generalizing mode with
  | nil =>
    cases mode with
    | quoted kept =>
      refine .inr ⟨[], [], none, ?_⟩
      rw [List.append_nil]
      rfl
    | bare kept => cases inQuotes
    | comment => cases inQuotes
    | escape quotes kept => exact .inl ⟨_, rfl⟩
    | hexEscape quotes kept => exact .inl ⟨_, rfl⟩
    | hexDigit quotes kept high => exact .inl ⟨_, rfl⟩
  | cons c rest inductionHypothesis =>
    rw [scanFrom]
    cases isStep : mode.step c with
    | error fault => exact .inl ⟨fault, rfl⟩
    | ok stepped =>
      obtain ⟨tokens, next⟩ := stepped
      rcases ScanMode.step_of_isInQuotes inQuotes isStep with
        ⟨rfl, nextInQuotes, added, isHeld⟩ | rfl
      · rcases inductionHypothesis nextInQuotes with
          ⟨fault, failing⟩ | ⟨more, others, failure, isIdent⟩
        · exact .inl ⟨fault, failing⟩
        · refine .inr ⟨added.reverse ++ more, others, failure, ?_⟩
          rw [← isHeld, List.reverse_append, List.append_assoc] at isIdent
          exact isIdent
      · refine .inr ⟨[], (scanFrom next rest).tokens, (scanFrom next rest).failure, ?_⟩
        rw [List.append_nil]
        rfl

/-- From between double quotes on, a scan without a fault begins with an identifier. -/
theorem exists_ident_of_isInQuotes {mode : ScanMode} (inQuotes : mode.isInQuotes = true)
    {rest : List Char} (noFault : (scanFrom mode rest).failure = none) :
    ∃ text others, scanFrom mode rest = ⟨.ident text :: others, none⟩ := by
  rcases exists_of_isInQuotes inQuotes rest with ⟨fault, failing⟩ | ⟨_, others, _, isIdent⟩
  · rw [failing] at noFault
    cases noFault
  · rw [isIdent] at noFault ⊢
    obtain rfl := noFault
    exact ⟨_, others, rfl⟩

/-! ## Numbered escapes at the end of a line -/

/-- The end of a line is not the second digit of a numbered escape. -/
theorem scanFrom_hexDigit_newline (inQuotes : Bool) (held : List Char) (high : Char)
    (rest : List Char) :
    (scanFrom (.hexDigit inQuotes held high) ('\n' :: rest)).failure ≠ none := by
  have noDigit : Text.hexDigit? '\n' = none := by decide
  cases isHigh : Text.hexDigit? high <;>
    simp [scanFrom, ScanMode.step, ScanMode.hexChar?, noDigit, isHigh]

/-- The end of a line is not the first digit of a numbered escape. -/
theorem scanFrom_hexEscape_newline (inQuotes : Bool) (held rest : List Char) :
    (scanFrom (.hexEscape inQuotes held) ('\n' :: rest)).failure ≠ none := by
  have noDigit : Text.hexDigit? '\n' = none := by decide
  cases rest <;>
    simp [scanFrom, ScanMode.step, ScanMode.finish, ScanMode.hexChar?, noDigit, Scan.prepend]

/-! ## Texts in lines -/

/-- Whether the text ends between double quotes. -/
def endsInQuotes (source : String) : Bool :=
  (modeAfter (.bare []) source.toList).any ScanMode.isInQuotes

/-- The end of a line completes what the end of the text would, except between double quotes. -/
theorem scanFrom_newline {mode : ScanMode} (notInQuotes : mode.isInQuotes = false)
    (rest : List Char) :
    ∃ others, scanFrom mode ('\n' :: rest) = others.prepend mode.finish.tokens ∧
      (mode.finish.failure = none → others = scanFrom (.bare []) rest) := by
  cases mode with
  | bare held => exact ⟨_, rfl, fun _ => rfl⟩
  | comment => exact ⟨_, rfl, fun _ => rfl⟩
  | quoted held => cases notInQuotes
  | escape quotes held => exact ⟨_, rfl, nofun⟩
  | hexEscape quotes held => exact ⟨_, rfl, nofun⟩
  | hexDigit quotes held high => exact ⟨_, rfl, nofun⟩

/-- The tokens of a piece that does not end between double quotes come first, whatever the lines
after it, and then those of the lines if the piece has no fault. -/
theorem scanFrom_append_newline {mode : ScanMode} {piece : List Char}
    (notInQuotes : (modeAfter mode piece).any ScanMode.isInQuotes = false) (rest : List Char) :
    ∃ others, scanFrom mode (piece ++ '\n' :: rest) =
        others.prepend (scanFrom mode piece).tokens ∧
      ((scanFrom mode piece).failure = none → others = scanFrom (.bare []) rest) := by
  obtain ⟨-, tokens, fault, failing⟩ | ⟨tokens, next, isNext, passing⟩ :=
    scanFrom_append_modeAfter mode piece
  · have isPiece : scanFrom mode piece = ⟨tokens, some fault⟩ := by simpa using failing []
    refine ⟨⟨[], some fault⟩, ?_, ?_⟩
    · rw [failing, isPiece, Scan.prepend, List.append_nil]
    · intro noFault
      rw [isPiece] at noFault
      cases noFault
  · have isPiece : scanFrom mode piece = next.finish.prepend tokens := by
      simpa [scanFrom] using passing []
    rw [isNext] at notInQuotes
    obtain ⟨others, goesOn, areRest⟩ := scanFrom_newline notInQuotes rest
    refine ⟨others, ?_, ?_⟩
    · rw [passing, goesOn, isPiece, Scan.prepend_prepend]
      rfl
    · rw [isPiece]
      exact areRest

/-- The tokens of a text that does not end between double quotes come first, whatever the lines
after it, and then those of the lines if the text has no fault. -/
theorem scan_append_newline {first : String} (notInQuotes : endsInQuotes first = false)
    (second : String) :
    ∃ others, scan (first ++ "\n" ++ second) = others.prepend (scan first).tokens ∧
      ((scan first).failure = none → others = scan second) := by
  simpa [scan] using scanFrom_append_newline notInQuotes second.toList

end Token

end LispShell
