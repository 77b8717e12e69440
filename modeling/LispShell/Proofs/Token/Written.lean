import LispShell.Proofs.Token.Scanner

/-! # Written tokens
Every row of tokens can be written so that it scans as those tokens: parentheses and quotes as their
characters, identifiers between double quotes with a backslash before each character that does not
stand for itself there. A written token leaves the scanner as it finds it, so nothing has to stand
between one token and the next, and what comes after them is scanned as it would be alone. -/

namespace LispShell.Token

/-! ## Identifiers -/

/-- A character as it is written between double quotes. -/
def escaped (c : Char) : List Char :=
  if isQuotable c then [c] else ['\\', c]

/-- A text as it can always be written: between double quotes, with a backslash before each
character that does not stand for itself there. -/
def written (text : String) : List Char :=
  '"' :: (text.toList.flatMap escaped ++ ['"'])

/-- A written character is held as it is. -/
theorem scanFrom_escaped (c : Char) (held rest : List Char) :
    scanFrom (.quoted held) (escaped c ++ rest) = scanFrom (.quoted (c :: held)) rest := by
  unfold escaped
  split
  next isQuotable => exact scanFrom_quotable (by simpa using isQuotable) held rest
  next notQuotable =>
    have isSpecial : c = '"' ∨ c = '\\' := by
      simpa [isQuotable, Classical.or_iff_not_imp_left] using notQuotable
    rcases isSpecial with rfl | rfl <;> rfl

/-- Written characters are held as they are. -/
theorem scanFrom_flatMap_escaped (cs held rest : List Char) :
    scanFrom (.quoted held) (cs.flatMap escaped ++ rest) =
      scanFrom (.quoted (cs.reverse ++ held)) rest := by
  -- what is held is in reverse order
  induction cs generalizing held with
  | nil => rfl
  | cons c cs inductionHypothesis =>
    rw [List.flatMap_cons, List.append_assoc, scanFrom_escaped, inductionHypothesis]
    simp

/-- A written text is one identifier. -/
theorem scanFrom_written (text : String) (rest : List Char) :
    scanFrom (.bare []) (written text ++ rest) =
      (scanFrom (.bare []) rest).prepend [.ident text] := by
  have opening (others : List Char) :
      scanFrom (.bare []) ('"' :: others) = scanFrom (.quoted []) others := rfl
  have closing (held : List Char) : scanFrom (.quoted held) ('"' :: rest) =
      (scanFrom (.bare []) rest).prepend [ScanMode.heldToken held] := rfl
  rw [written, List.cons_append, opening, List.append_assoc, scanFrom_flatMap_escaped,
    List.singleton_append, closing]
  simp [ScanMode.heldToken]

/-! ## Rows of tokens -/

/-- A token as it can always be written. -/
def spelling : Token → List Char
  | .lparen => ['(']
  | .rparen => [')']
  | .quote => ['\'']
  | .ident text => written text

/-- A written token is that token, and the scanner goes on after it as at the start of a text. -/
theorem scanFrom_spelling (token : Token) (rest : List Char) :
    scanFrom (.bare []) (token.spelling ++ rest) =
      (scanFrom (.bare []) rest).prepend [token] := by
  cases token with
  | ident text => exact scanFrom_written text rest
  | lparen => rfl
  | rparen => rfl
  | quote => rfl

/-- Written tokens are those tokens, and the scanner goes on after them as at the start of a
text. -/
theorem scanFrom_flatMap_spelling (tokens : List Token) (rest : List Char) :
    scanFrom (.bare []) (tokens.flatMap spelling ++ rest) =
      (scanFrom (.bare []) rest).prepend tokens := by
  induction tokens with
  | nil => rfl
  | cons token tokens inductionHypothesis =>
    rw [List.flatMap_cons, List.append_assoc, scanFrom_spelling, inductionHypothesis,
      Scan.prepend_prepend, List.singleton_append]

/-- A row of tokens as it can always be written, with nothing between the tokens. -/
def writtenRow (tokens : List Token) : String :=
  String.ofList (tokens.flatMap spelling)

/-- A written row of tokens scans as those tokens, alone or with more text after it: no two tokens
are run together, none is split and none is lost. -/
theorem scan_writtenRow (tokens : List Token) :
    scan (writtenRow tokens) = ⟨tokens, none⟩ ∧
    ∀ more, scan (writtenRow tokens ++ more) = (scan more).prepend tokens := by
  have isScan (more : String) :
      scan (writtenRow tokens ++ more) = (scan more).prepend tokens := by
    rw [scan, writtenRow, String.toList_append, String.toList_ofList, scanFrom_flatMap_spelling,
      scan]
  -- alone, the row has the empty text after it
  have isAlone := isScan ""
  have noMore : scan "" = .nil := rfl
  rw [String.append_empty, noMore] at isAlone
  refine ⟨?_, isScan⟩
  rw [isAlone, Scan.prepend, Scan.nil, List.append_nil]

-- an empty identifier, and a quote between two that need backslashes
example : writtenRow [.ident "", .ident "n\\", .quote, .ident "a;\"b"] =
    "\"\"\"n\\\\\"'\"a;\\\"b\"" := by decide

/-- A call of any atoms as it can always be written. -/
def writtenCall (texts : List String) : String :=
  String.ofList ('(' :: (texts.flatMap written ++ [')']))

/-- A written call is its atoms in parentheses. -/
theorem scan_writtenCall (texts : List String) :
    scan (writtenCall texts) = ⟨.lparen :: (texts.map .ident ++ [.rparen]), none⟩ := by
  have isRow : '(' :: (texts.flatMap written ++ [')']) =
      (Token.lparen :: (texts.map .ident ++ [.rparen])).flatMap spelling := by
    simp [List.flatMap_map, spelling]
  -- a written call is a written row of a parenthesis, identifiers and a parenthesis
  have isScan := scanFrom_flatMap_spelling (.lparen :: (texts.map .ident ++ [.rparen])) []
  rw [List.append_nil, ← isRow] at isScan
  rw [scan, writtenCall, String.toList_ofList, isScan]
  simp [scanFrom, ScanMode.finish, ScanMode.endWord, Scan.prepend]

end LispShell.Token
