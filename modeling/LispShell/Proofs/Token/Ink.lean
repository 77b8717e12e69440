import LispShell.Proofs.Token.Scanner
import LispShell.Token.Alias

/-! # Ink
Printing adds blanks, parentheses and double quotes only; all other characters are ink. No scan
makes more ink than it reads. A scan that loses none meets no escape, no quote and no comment, so it
keeps what is between double quotes as it is and makes a token of each parenthesis outside. -/

namespace LispShell

namespace Token

/-- Whether the character is ink: no blank, no parenthesis and no double quote. -/
def isInk (c : Char) : Bool :=
  !(Text.isBlank c || ['(', ')', '"'].contains c)

/-- The number of characters that are ink. -/
def ink (cs : List Char) : Nat :=
  cs.countP isInk

/-- No characters have no ink. -/
@[simp] theorem ink_nil : ink [] = 0 :=
  rfl

/-- The ink of two rows of characters is counted apart. -/
@[simp] theorem ink_append (cs others : List Char) : ink (cs ++ others) = ink cs + ink others :=
  List.countP_append

/-- The first character is counted with the others. -/
theorem ink_cons (c : Char) (cs : List Char) : ink (c :: cs) = ink [c] + ink cs := by
  rw [← List.singleton_append, ink_append]

/-- The order of characters does not matter. -/
@[simp] theorem ink_reverse (cs : List Char) : ink cs.reverse = ink cs :=
  List.countP_reverse

/-- One character is one of ink at most. -/
theorem ink_singleton_le (c : Char) : ink [c] ≤ 1 :=
  List.countP_le_length

/-- The texts of the identifiers in a row of tokens. -/
def idents : List Token → List String
  | [] => []
  | .ident text :: rest => text :: idents rest
  | _ :: rest => idents rest

/-- The identifiers of two rows of tokens follow one another. -/
@[simp] theorem idents_append (tokens others : List Token) :
    idents (tokens ++ others) = idents tokens ++ idents others := by
  induction tokens with
  | nil => rfl
  | cons token rest inductionHypothesis =>
    cases token <;> simp [idents, inductionHypothesis]

/-- The ink of the identifiers in a row of tokens. -/
def inkOf (tokens : List Token) : Nat :=
  ink ((idents tokens).flatMap String.toList)

/-- No tokens have no ink. -/
@[simp] theorem inkOf_nil : inkOf [] = 0 :=
  rfl

/-- The ink of two rows of tokens is counted apart. -/
@[simp] theorem inkOf_append (tokens others : List Token) :
    inkOf (tokens ++ others) = inkOf tokens + inkOf others := by
  rw [inkOf, idents_append, List.flatMap_append, ink_append, inkOf, inkOf]

/-- Whether the character is a parenthesis, a quote or a semicolon. -/
def isMark (c : Char) : Bool :=
  ['(', ')', '\'', ';'].contains c

/-- The number of marks outside double quotes. -/
def marks : (inQuotes : Bool) → List Char → Nat
  | _, [] => 0
  | inQuotes, c :: rest =>
    if c = '"' then marks (!inQuotes) rest
    else if !inQuotes && isMark c then marks inQuotes rest + 1
    else marks inQuotes rest

/-- The number of marks outside double quotes in a row of texts. -/
def marksOfAll : List String → Nat
  | [] => 0
  | text :: rest => marks false text.toList + marksOfAll rest

/-- The number of parentheses in a row of tokens. -/
def parens (tokens : List Token) : Nat :=
  tokens.countP fun token => token == .lparen || token == .rparen

/-- No tokens have no parentheses. -/
@[simp] theorem parens_nil : parens [] = 0 :=
  rfl

/-- The parentheses of two rows of tokens are counted apart. -/
@[simp] theorem parens_append (tokens others : List Token) :
    parens (tokens ++ others) = parens tokens + parens others :=
  List.countP_append

end Token

namespace ScanMode

/-- The ink held. -/
def heldInk : ScanMode → Nat
  | .bare held => Token.ink held
  | .quoted held => Token.ink held
  | .comment => 0
  | .escape _ held => Token.ink held
  -- the `x` counts until the character of the numbered escape is known
  | .hexEscape _ held => Token.ink held + 1
  | .hexDigit _ held _ => Token.ink held + 1

/-- Going on with a text keeps the ink held. -/
@[simp] theorem heldInk_resume (inQuotes : Bool) (held : List Char) :
    (resume inQuotes held).heldInk = Token.ink held := by
  cases inQuotes <;> rfl

/-- The token of the characters held has their ink. -/
@[simp] theorem inkOf_heldToken (held : List Char) :
    Token.inkOf [heldToken held] = Token.ink held := by
  simp [heldToken, Token.inkOf, Token.idents]

/-- The word that ends has the ink held. -/
@[simp] theorem inkOf_endWord (held : List Char) :
    Token.inkOf (endWord held) = Token.ink held := by
  cases held with
  | nil => rfl
  | cons c rest => exact inkOf_heldToken (c :: rest)

/-- The end of a text makes no ink. -/
theorem inkOf_finish_le (mode : ScanMode) : Token.inkOf mode.finish.tokens ≤ mode.heldInk := by
  cases mode <;> simp [finish, heldInk, Scan.nil]

/-- Whether a character, read outside or between double quotes after those held, loses no ink: the
scanner is again outside or between double quotes, all that is held was so before, and a token was
made of each mark. -/
structure KeepsInk (inQuotes : Bool) (held : List Char) (c : Char) (tokens : List Token)
    (after : Bool) (kept : List Char) : Prop where
  /-- The ink is the same. -/
  ink : Token.inkOf tokens + Token.ink kept = Token.ink held + Token.ink [c]
  /-- The characters of identifiers were held. -/
  idents : ∀ text ∈ Token.idents tokens, text.toList = held.reverse
  /-- The characters that are held now were held, but for the one that was read. -/
  kept : ∀ other ∈ kept, other ∈ held ∨ (other = c ∧ Token.isQuotable c = true)
  /-- Each mark has become a token. -/
  marks : ∀ rest, Token.parens tokens + Token.marks after rest = Token.marks inQuotes (c :: rest)

/-- The identifier of a word that ends is the characters held. -/
theorem toList_of_mem_idents_endWord {held : List Char} {text : String}
    (isIn : text ∈ Token.idents (endWord held)) : text.toList = held.reverse := by
  cases held with
  | nil => cases isIn
  | cons c rest => simp_all [endWord, heldToken, Token.idents]

/-- A character that ends a word, other than an escape, a quote or a comment, loses no ink. -/
theorem keepsInk_endWord {held : List Char} {c : Char} {others : List Token} {after : Bool}
    (noInk : Token.ink [c] = 0) (noIdents : Token.idents others = [])
    (marks : ∀ rest, Token.parens others + Token.marks after rest =
      Token.marks false (c :: rest)) :
    KeepsInk false held c (endWord held ++ others) after [] where
  ink := by
    have noOtherInk : Token.inkOf others = 0 := by
      rw [Token.inkOf, noIdents]
      rfl
    simp [noInk, noOtherInk]
  idents text isIn := by
    rw [Token.idents_append, noIdents, List.append_nil] at isIn
    exact toList_of_mem_idents_endWord isIn
  kept other isIn := by cases isIn
  marks rest := by
    have noParens : Token.parens (endWord held) = 0 := by
      cases held <;> rfl
    rw [Token.parens_append, noParens, Nat.zero_add, marks]

/-- A character of a bare word is held. -/
theorem keepsInk_of_isWordChar {c : Char} (isWord : Token.isWordChar c = true) (held : List Char) :
    KeepsInk false held c [] false (c :: held) where
  ink := by rw [Token.inkOf_nil, Nat.zero_add, Token.ink_cons, Nat.add_comm]
  idents text isIn := by cases isIn
  kept other isIn := by
    rcases List.mem_cons.mp isIn with rfl | isHeld
    · exact .inr ⟨rfl, by simp_all [Token.isWordChar, Token.isQuotable]⟩
    · exact .inl isHeld
  marks rest := by simp_all [Token.isWordChar, Token.isMark, Token.marks, Token.parens]

/-- A blank outside double quotes loses no ink. -/
theorem keepsInk_of_isBlank {c : Char} (isBlank : Text.isBlank c = true) (held : List Char) :
    KeepsInk false held c (endWord held) false [] := by
  have notSpecial := Token.ne_of_isBlank isBlank
  have noInk : Token.ink [c] = 0 := by simp [Token.ink, Token.isInk, isBlank]
  have noMark (rest : List Char) : Token.marks false (c :: rest) = Token.marks false rest := by
    simp [Token.marks, Token.isMark, notSpecial '"' rfl, notSpecial '(' rfl, notSpecial ')' rfl,
      notSpecial '\'' rfl, notSpecial ';' rfl]
  rw [← List.append_nil (endWord held)]
  exact keepsInk_endWord noInk rfl fun rest => by rw [noMark, Token.parens_nil, Nat.zero_add]

/-- A character outside double quotes loses no ink, or it is lost. -/
theorem stepBare_keepsInk_or (held : List Char) (c : Char) :
    Token.inkOf (stepBare held c).1 + (stepBare held c).2.heldInk < Token.ink held + Token.ink [c] ∨
    ∃ after kept, (stepBare held c).2 = resume after kept ∧
      KeepsInk false held c (stepBare held c).1 after kept := by
  cases isWord : Token.isWordChar c with
  | true =>
    rw [Token.stepBare_of_isWordChar isWord]
    exact .inr ⟨false, c :: held, rfl, keepsInk_of_isWordChar isWord held⟩
  | false =>
    rcases Token.special_of_isWordChar_eq_false isWord with
      isBlank | rfl | rfl | rfl | rfl | rfl | rfl
    case inl =>
      rw [Token.stepBare_of_isBlank isBlank]
      exact .inr ⟨false, [], rfl, keepsInk_of_isBlank isBlank held⟩
    -- each parenthesis becomes a token
    · exact .inr ⟨false, [], rfl, keepsInk_endWord rfl rfl fun rest => by
        simp [Token.marks, Token.parens, Token.isMark, Nat.add_comm]⟩
    · exact .inr ⟨false, [], rfl, keepsInk_endWord rfl rfl fun rest => by
        simp [Token.marks, Token.parens, Token.isMark, Nat.add_comm]⟩
    -- quotes, comments and escapes lose ink
    · have isStep : stepBare held '\'' = (endWord held ++ [.quote], .bare []) := rfl
      have isLost : Token.inkOf [.quote] + Token.ink [] < Token.ink ['\''] := by decide
      rw [isStep]
      simp only [heldInk, Token.inkOf_append, inkOf_endWord]
      exact .inl (by omega)
    · have keeps : KeepsInk false held '"' (endWord held ++ []) true [] :=
        keepsInk_endWord rfl rfl fun rest => by simp [Token.marks]
      rw [List.append_nil] at keeps
      exact .inr ⟨true, [], rfl, keeps⟩
    · have isStep : stepBare held ';' = (endWord held, .comment) := rfl
      have isLost : 0 < Token.ink [';'] := by decide
      rw [isStep]
      simp only [heldInk, inkOf_endWord]
      exact .inl (by omega)
    · have isStep : stepBare held '\\' = ([], .escape false held) := rfl
      have isLost : 0 < Token.ink ['\\'] := by decide
      rw [isStep]
      simp only [heldInk, Token.inkOf_nil]
      exact .inl (by omega)

/-- A character between double quotes loses no ink, or it is lost. -/
theorem stepQuoted_keepsInk_or (held : List Char) (c : Char) :
    Token.inkOf (stepQuoted held c).1 + (stepQuoted held c).2.heldInk <
      Token.ink held + Token.ink [c] ∨
    ∃ after kept, (stepQuoted held c).2 = resume after kept ∧
      KeepsInk true held c (stepQuoted held c).1 after kept := by
  unfold stepQuoted
  split
  · next isClosing =>
    subst isClosing
    refine .inr ⟨false, [], rfl, ?_, ?_, nofun, ?_⟩
    · simp [Token.ink, Token.isInk]
    · simp [heldToken, Token.idents]
    · simp [Token.marks, Token.parens, heldToken]
  · split
    · next notClosing isBackslash =>
      subst isBackslash
      have isLost : 0 < Token.ink ['\\'] := by decide
      simp only [heldInk, Token.inkOf_nil]
      exact .inl (by omega)
    · next notClosing notBackslash =>
      refine .inr ⟨true, c :: held, rfl, ?_, nofun, ?_, ?_⟩
      · rw [Token.inkOf_nil, Nat.zero_add, Token.ink_cons, Nat.add_comm]
      · intro other isIn
        rcases List.mem_cons.mp isIn with rfl | isHeld
        · exact .inr ⟨rfl, by simp [Token.isQuotable, notClosing, notBackslash]⟩
        · exact .inl isHeld
      · simp [Token.marks, Token.parens, notClosing]

/-- A character outside or between double quotes loses no ink, or it is lost. -/
theorem resume_keepsInk_or (inQuotes : Bool) (held : List Char) (c : Char) :
    ∃ tokens next, (resume inQuotes held).step c = .ok (tokens, next) ∧
      (Token.inkOf tokens + next.heldInk < Token.ink held + Token.ink [c] ∨
      ∃ after kept, next = resume after kept ∧ KeepsInk inQuotes held c tokens after kept) := by
  cases inQuotes with
  | false => exact ⟨_, _, rfl, stepBare_keepsInk_or held c⟩
  | true => exact ⟨_, _, rfl, stepQuoted_keepsInk_or held c⟩

/-- One character makes no more ink than it is. -/
theorem ink_step_le {mode next : ScanMode} {c : Char} {tokens : List Token}
    (isStep : mode.step c = .ok (tokens, next)) :
    Token.inkOf tokens + next.heldInk ≤ mode.heldInk + Token.ink [c] := by
  have resumes (inQuotes : Bool) (held : List Char)
      (isStep : (resume inQuotes held).step c = .ok (tokens, next)) :
      Token.inkOf tokens + next.heldInk ≤ Token.ink held + Token.ink [c] := by
    obtain ⟨_, _, isStepped, loss⟩ := resume_keepsInk_or inQuotes held c
    cases isStep.symm.trans isStepped
    rcases loss with lost | ⟨after, kept, rfl, keeps⟩
    · exact Nat.le_of_lt lost
    · rw [heldInk_resume]
      exact Nat.le_of_eq keeps.ink
  cases mode with
  | bare held => exact resumes false held isStep
  | quoted held => exact resumes true held isStep
  | comment =>
    cases isStep
    split <;> simp [heldInk]
  | escape inQuotes held =>
    simp only [step] at isStep
    split at isStep <;> cases isStep
    · next isNumbered =>
      rw [isNumbered]
      exact Nat.le_of_eq (Nat.zero_add _)
    · rw [heldInk_resume, heldInk, Token.inkOf_nil, Nat.zero_add, Token.ink_cons]
      split
      · have noInk : Token.ink ['\n'] = 0 := by decide
        omega
      · omega
  | hexEscape inQuotes held =>
    cases isStep
    simp [heldInk]
  | hexDigit inQuotes held high =>
    simp only [step] at isStep
    split at isStep <;> cases isStep
    next value isValue =>
    have isOne := Token.ink_singleton_le value
    rw [heldInk_resume, heldInk, Token.inkOf_nil, Token.ink_cons]
    omega

end ScanMode

namespace Token

/-- A scan makes no more ink than it reads. -/
theorem ink_scanFrom_le (mode : ScanMode) (cs : List Char) :
    inkOf (scanFrom mode cs).tokens ≤ mode.heldInk + ink cs := by
  induction cs generalizing mode with
  | nil => exact mode.inkOf_finish_le
  | cons c cs inductionHypothesis =>
    rw [scanFrom, ink_cons]
    cases isStep : mode.step c with
    | error fault => exact Nat.zero_le _
    | ok stepped =>
      obtain ⟨tokens, next⟩ := stepped
      have stepBound := ScanMode.ink_step_le isStep
      have restBound := inductionHypothesis next
      simp only [Scan.prepend, inkOf_append]
      omega

/-- A scan from outside or between double quotes that loses no ink has no double quote and no
backslash in its identifiers, if those held have none, and a parenthesis for each mark. -/
theorem scanFrom_of_ink_le {inQuotes : Bool} {held cs : List Char}
    (noLoss : ink held + ink cs ≤ inkOf (scanFrom (.resume inQuotes held) cs).tokens)
    (areQuotable : ∀ c ∈ held, isQuotable c = true) :
    (∀ text ∈ idents (scanFrom (.resume inQuotes held) cs).tokens,
      ∀ c ∈ text.toList, isQuotable c = true) ∧
    parens (scanFrom (.resume inQuotes held) cs).tokens = marks inQuotes cs := by
  induction cs generalizing inQuotes held with
  | nil =>
    have areHeld {text : String} (isHeld : text.toList = held.reverse) :
        ∀ c ∈ text.toList, isQuotable c = true := by
      rw [isHeld]
      exact fun c isIn => areQuotable c (List.mem_reverse.mp isIn)
    cases inQuotes with
    | false =>
      have noParens : parens (ScanMode.endWord held) = 0 := by cases held <;> rfl
      exact ⟨fun text isIn => areHeld (ScanMode.toList_of_mem_idents_endWord isIn), noParens⟩
    | true =>
      refine ⟨fun text isIn => areHeld ?_, rfl⟩
      obtain rfl := List.mem_singleton.mp isIn
      exact String.toList_ofList
  | cons c cs inductionHypothesis =>
    obtain ⟨tokens, next, isStep, loss⟩ := ScanMode.resume_keepsInk_or inQuotes held c
    rw [scanFrom, isStep] at noLoss ⊢
    simp only [Scan.prepend, inkOf_append] at noLoss
    rw [ink_cons] at noLoss
    have restBound := ink_scanFrom_le next cs
    rcases loss with lost | ⟨after, kept, rfl, keeps⟩
    · omega
    · rw [ScanMode.heldInk_resume] at restBound
      have sameInk := keeps.ink
      have restKeeps : ink kept + ink cs ≤ inkOf (scanFrom (.resume after kept) cs).tokens := by
        omega
      have areKept : ∀ other ∈ kept, isQuotable other = true := by
        intro other isIn
        rcases keeps.kept other isIn with isHeld | ⟨rfl, isQuotable⟩
        · exact areQuotable other isHeld
        · exact isQuotable
      obtain ⟨areOthers, sameMarks⟩ := inductionHypothesis restKeeps areKept
      constructor
      · intro text isIn
        simp only [Scan.prepend, idents_append, List.mem_append] at isIn
        rcases isIn with isFirst | isOther
        · rw [keeps.idents text isFirst]
          exact fun c isHeld => areQuotable c (List.mem_reverse.mp isHeld)
        · exact areOthers text isOther
      · simp only [Scan.prepend, parens_append]
        rw [sameMarks, keeps.marks]

/-! ## Several texts -/

/-- Texts that scan without a fault one after the other have the tokens of each. -/
theorem tokens_scanAll {texts : List String} (noFault : (scanAll texts).failure = none) :
    (scanAll texts).tokens = texts.flatMap fun text => (scan text).tokens := by
  induction texts with
  | nil => rfl
  | cons text rest inductionHypothesis =>
    rw [scanAll, Scan.append] at noFault ⊢
    split
    · next isFault =>
      rw [isFault] at noFault
      exact absurd noFault (by simp [isFault])
    · next noFirst =>
      rw [noFirst] at noFault
      rw [Scan.prepend, inductionHypothesis noFault, List.flatMap_cons]

/-- Where the scans of texts lose no ink, their identifiers have no double quotes and no backslashes
and their parentheses are the marks outside double quotes. -/
theorem tokens_of_ink_le {texts : List String}
    (noLoss : ink (texts.flatMap String.toList) ≤
      inkOf (texts.flatMap fun text => (scan text).tokens)) :
    (∀ text ∈ idents (texts.flatMap fun text => (scan text).tokens),
      ∀ c ∈ text.toList, isQuotable c = true) ∧
    parens (texts.flatMap fun text => (scan text).tokens) = marksOfAll texts := by
  have bound (text : String) : inkOf (scan text).tokens ≤ ink text.toList := by
    have isBound := ink_scanFrom_le (.bare []) text.toList
    rwa [ScanMode.heldInk, ink_nil, Nat.zero_add] at isBound
  have bounds (others : List String) :
      inkOf (others.flatMap fun text => (scan text).tokens) ≤
        ink (others.flatMap String.toList) := by
    induction others with
    | nil => exact Nat.le_refl 0
    | cons text rest inductionHypothesis =>
      rw [List.flatMap_cons, List.flatMap_cons, inkOf_append, ink_append]
      exact Nat.add_le_add (bound text) inductionHypothesis
  induction texts with
  | nil => exact ⟨nofun, rfl⟩
  | cons text rest inductionHypothesis =>
    rw [List.flatMap_cons, List.flatMap_cons, ink_append, inkOf_append] at noLoss
    have firstBound := bound text
    have restBound := bounds rest
    have firstKeeps : ink [] + ink text.toList ≤
        inkOf (scanFrom (.resume false []) text.toList).tokens := by
      rw [ink_nil, Nat.zero_add]
      exact (by omega : ink text.toList ≤ inkOf (scan text).tokens)
    obtain ⟨isFirst, firstMarks⟩ := scanFrom_of_ink_le firstKeeps nofun
    obtain ⟨areOthers, otherMarks⟩ := inductionHypothesis (by omega)
    rw [List.flatMap_cons, idents_append, parens_append, otherMarks, marksOfAll]
    constructor
    · intro other isIn
      rcases List.mem_append.mp isIn with isIn | isIn
      · exact isFirst other isIn
      · exact areOthers other isIn
    · exact congrArg (· + _) firstMarks

end Token

end LispShell
