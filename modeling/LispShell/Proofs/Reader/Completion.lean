import LispShell.Proofs.Reader.Acceptance
import LispShell.Proofs.Token.Alias
import LispShell.Proofs.Token.Line
import LispShell.Reader.Source
import Mathlib.Algebra.Order.BigOperators.Group.List
import Mathlib.Algebra.Order.Group.Nat

/-! # Lines that can be completed
A line that is found incomplete ends inside open forms. A word, which first ends the quoted text or
the comment that the line may end in, then closing parentheses and one more word complete it: the
last word keeps the line from being a group of its own, so the parentheses around it stay, and no
word of it is an alias. One more level of nesting is enough. -/

namespace LispShell

namespace Reading

variable {limit more : Nat} {opened inner outer : List OpenForm} {token : Token}
  {fault : ReadError}

/-! ## Open forms inside others -/

/-- Inside more open forms, the form that was the innermost is given the same. -/
theorem place_append {form : Expr} (placed : place form opened = .unfinished inner)
    (outer : List OpenForm) : place form (opened ++ outer) = .unfinished (inner ++ outer) := by
  induction opened generalizing form with
  | nil => cases placed
  | cons innermost others inductionHypothesis =>
    cases innermost with
    | quote => exact inductionHypothesis placed
    | row items =>
      cases placed
      rfl

/-- Inside more open forms a token is read in the same way if there is room for them. -/
theorem feed_append (isFed : feed limit opened token = .ok (.unfinished inner))
    (fits : limit + outer.length ≤ more) :
    feed more (opened ++ outer) token = .ok (.unfinished (inner ++ outer)) := by
  have entering (entered : OpenForm)
      (isEntered : enter limit opened entered = .ok (.unfinished inner)) :
      enter more (opened ++ outer) entered = .ok (.unfinished (inner ++ outer)) := by
    unfold enter at isEntered ⊢
    split at isEntered <;> cases isEntered
    next enough => rw [if_pos (by rw [List.length_append]; omega), List.cons_append]
  cases token with
  | ident text =>
    simp only [feed, Except.ok.injEq] at isFed ⊢
    exact place_append isFed outer
  | lparen => exact entering (.row []) isFed
  | quote => exact entering .quote isFed
  | rparen =>
    match opened, isFed with
    | .row items :: others, isFed =>
      simp only [feed, List.cons_append, Except.ok.injEq] at isFed ⊢
      exact place_append isFed outer

/-- A token that is refused is out of place or opens one form too many. -/
theorem isIncomplete_of_feed_eq_error (refused : feed limit opened token = .error fault) :
    fault.isIncomplete = false := by
  have entering (entered : OpenForm) (refused : enter limit opened entered = .error fault) :
      fault.isIncomplete = false := by
    unfold enter at refused
    split at refused <;> cases refused
    rfl
  cases token with
  | ident text => cases refused
  | lparen => exact entering (.row []) refused
  | quote => exact entering .quote refused
  | rparen =>
    simp only [feed] at refused
    split at refused <;> cases refused
    rfl

/-! ## Rows -/

/-- Whether the outermost open form is a row. -/
def EndsInRow (opened : List OpenForm) : Prop :=
  ∃ within items, opened = within ++ [.row items]

/-- A row that is the outermost open form takes a form in and stays open. -/
theorem EndsInRow.place (isOpen : EndsInRow opened) (form : Expr) :
    ∃ inner, place form opened = .unfinished inner ∧ EndsInRow inner := by
  obtain ⟨within, items, rfl⟩ := isOpen
  induction within generalizing form with
  | nil => exact ⟨_, rfl, [], form :: items, rfl⟩
  | cons innermost others inductionHypothesis =>
    cases innermost with
    | quote => exact inductionHypothesis form.toData
    | row others' => exact ⟨_, rfl, .row (form :: others') :: others, items, rfl⟩

/-- A row that is the outermost open form stays so until it is closed. -/
theorem EndsInRow.feed (isOpen : EndsInRow opened)
    (isFed : feed limit opened token = .ok (.unfinished inner)) : EndsInRow inner := by
  have entering (entered : OpenForm)
      (isEntered : enter limit opened entered = .ok (.unfinished inner)) : EndsInRow inner := by
    obtain ⟨within, items, rfl⟩ := isOpen
    unfold enter at isEntered
    split at isEntered <;> cases isEntered
    exact ⟨entered :: within, items, rfl⟩
  have placing {form : Expr} {opened : List OpenForm} (isOpen : EndsInRow opened)
      (placed : Reading.place form opened = .unfinished inner) : EndsInRow inner := by
    obtain ⟨others, placedToo, isOpen⟩ := isOpen.place form
    rw [placed] at placedToo
    cases placedToo
    exact isOpen
  cases token with
  | ident text => exact placing isOpen (Except.ok.inj isFed)
  | lparen => exact entering (.row []) isFed
  | quote => exact entering .quote isFed
  | rparen =>
    obtain ⟨within, items, rfl⟩ := isOpen
    match within, isFed with
    | .row others :: within, isFed => exact placing ⟨within, items, rfl⟩ (Except.ok.inj isFed)

/-- Tokens that are read up to their end leave forms open, and a row at the outside if there was
one. From there reading goes on, also inside more open forms. -/
theorem exists_opened_of_isIncomplete {tokens after : List Token}
    (failed : readForm limit opened (tokens ++ after) = .error fault)
    (isIncomplete : fault.isIncomplete = true) :
    ∃ inner, (EndsInRow opened → EndsInRow inner) ∧
      ∀ outer more rest, limit + outer.length ≤ more →
        readForm more (opened ++ outer) (tokens ++ rest) = readForm more (inner ++ outer) rest := by
  induction tokens generalizing opened with
  | nil => exact ⟨opened, id, fun _ _ _ _ => rfl⟩
  | cons token others inductionHypothesis =>
    rw [List.cons_append, readForm] at failed
    split at failed
    next refused =>
      cases failed
      rw [isIncomplete_of_feed_eq_error refused] at isIncomplete
      cases isIncomplete
    · cases failed
    next isFed =>
      obtain ⟨inner, staysOpen, goesOn⟩ := inductionHypothesis failed
      refine ⟨inner, fun isOpen => staysOpen (isOpen.feed isFed), fun outer more rest fits => ?_⟩
      rw [List.cons_append, readForm, feed_append isFed fits]
      exact goesOn outer more rest fits

/-- The tokens that close all rows around a form, with a last word in the outermost one. -/
def closing (count : Nat) (last : String) : List Token :=
  List.replicate count .rparen ++ [.ident last, .rparen]

/-- One more row is closed first. -/
theorem closing_succ (count : Nat) (last : String) :
    closing (count + 1) last = .rparen :: closing count last :=
  rfl

/-- Open forms, the outermost of which is a row, can be closed around any form. -/
theorem EndsInRow.exists_closing (isOpen : EndsInRow opened) :
    ∃ count, ∀ form last, ∃ whole, ∀ limit,
      (Reading.place form opened).goOn limit (closing count last) = .ok (whole, []) := by
  obtain ⟨within, items, rfl⟩ := isOpen
  induction within with
  | nil => exact ⟨0, fun form last => ⟨.call (.atom last :: form :: items).reverse, fun _ => rfl⟩⟩
  | cons innermost others inductionHypothesis =>
    obtain ⟨count, closes⟩ := inductionHypothesis
    cases innermost with
    | quote => exact ⟨count, fun form last => closes form.toData last⟩
    | row within =>
      refine ⟨count + 1, fun form last => ?_⟩
      obtain ⟨whole, isWhole⟩ := closes (.call (form :: within).reverse) last
      refine ⟨whole, fun limit => ?_⟩
      rw [closing_succ, ← isWhole limit]
      simp only [List.cons_append, Reading.place, goOn, readForm, Reading.feed]
      cases Reading.place (.call (form :: within).reverse) (others ++ [.row items]) <;> rfl

end Reading

/-! ## Words that are no aliases -/

/-- A text can be made longer so that it is not a name of a table. -/
theorem Table.exists_find?_eq_none {α : Type} (table : Table α) (held : List Char) :
    ∃ count, table.find? (String.ofList (held ++ List.replicate (count + 1) 'x')) = none := by
  -- longer than all names together
  refine ⟨(table.entries.map (·.1.length)).sum, List.lookup_eq_none_iff.mpr fun entry isIn => ?_⟩
  have isShorter : entry.1.length ≤ (table.entries.map (·.1.length)).sum :=
    List.le_sum_of_mem (List.mem_map_of_mem isIn)
  rw [bne_iff_ne]
  rintro isName
  have sameLength := congrArg String.length isName
  simp only [String.length_ofList, List.length_append, List.length_replicate] at sameLength
  omega

namespace Token

variable {aliases : AliasTable}

/-- A row of closing parentheses and a word behind a blank. -/
theorem scanFrom_closers (count : Nat) :
    scanFrom (.bare []) (List.replicate count ')' ++ [' ', 'x']) =
      ⟨List.replicate count .rparen ++ [.ident "x"], none⟩ := by
  induction count with
  | zero => rfl
  | succ count inductionHypothesis =>
    rw [List.replicate_succ, List.cons_append, scanFrom, ScanMode.step, List.replicate_succ,
      List.cons_append]
    simp [ScanMode.stepBare, ScanMode.endWord, inductionHypothesis, Scan.prepend]

/-- Whether the scan of a line comes to the given tokens and then, with a fit beginning of the next
line, to a word that is no alias. -/
def GoesOnWithWord (aliases : AliasTable) (line : List Char) (before : List Token) : Prop :=
  ∃ text beginning, aliases.find? text = none ∧ ∀ rest, EndWords rest →
    scanFrom (.bare []) (line ++ '\n' :: (beginning ++ rest)) =
      (scanFrom (.bare []) rest).prepend (before ++ [.ident text])

/-- The letters of a word that is long enough stand for themselves. -/
theorem isWordChar_of_mem_replicate {count : Nat} {c : Char} (isIn : c ∈ List.replicate count 'x') :
    isWordChar c = true := by
  rw [List.eq_of_mem_replicate isIn]
  rfl

/-- Where the end of a line ends a word or a comment, the next line goes on with a new word. -/
theorem goesOnWithWord_of_ends {line : List Char} {tokens : List Token}
    (ends : ∀ rest, scanFrom (.bare []) (line ++ '\n' :: rest) =
      (scanFrom (.bare []) rest).prepend tokens) : GoesOnWithWord aliases line tokens := by
  obtain ⟨count, isNone⟩ := aliases.exists_find?_eq_none []
  refine ⟨_, List.replicate (count + 1) 'x', isNone, fun rest isEnded => ?_⟩
  rw [ends, scanFrom_word (fun c => isWordChar_of_mem_replicate), scanFrom_endWord isEnded]
  simp [ScanMode.endWord, ScanMode.heldToken, List.replicate_succ]

/-- Where a line ends in a quoted text, that goes on in the next line and becomes part of the
word. -/
theorem goesOnWithWord_of_quoted {line held : List Char} {tokens : List Token}
    (passing : ∀ rest, scanFrom (.bare []) (line ++ rest) =
      (scanFrom (.quoted held) rest).prepend tokens) : GoesOnWithWord aliases line tokens := by
  obtain ⟨count, isNone⟩ := aliases.exists_find?_eq_none (held.reverse ++ ['\n'])
  refine ⟨_, List.replicate (count + 1) 'x' ++ ['"'], isNone, fun rest _ => ?_⟩
  have areQuotable : ∀ c ∈ '\n' :: List.replicate (count + 1) 'x', isQuotable c = true := by
    refine List.forall_mem_cons.mpr ⟨rfl, fun c isIn => ?_⟩
    rw [List.eq_of_mem_replicate isIn]
    rfl
  have isWhole : '\n' :: (List.replicate (count + 1) 'x' ++ ['"'] ++ rest) =
      ('\n' :: List.replicate (count + 1) 'x') ++ '"' :: rest := by simp
  rw [passing, isWhole, scanFrom_quotable areQuotable]
  simp [scanFrom, ScanMode.step, ScanMode.stepQuoted, ScanMode.heldToken]

/-- A line that scans goes on with a word after all its tokens, or after all but an identifier at
its end. -/
theorem exists_goesOnWithWord {line : List Char} {tokens : List Token}
    (isScan : scanFrom (.bare []) line = ⟨tokens, none⟩) (aliases : AliasTable) :
    ∃ before, (before = tokens ∨ ∃ last, tokens = before ++ [.ident last]) ∧
      GoesOnWithWord aliases line before := by
  obtain ⟨others, cause, failing⟩ | ⟨others, next, passing⟩ := scanFrom_append (.bare []) line
  · rw [← List.append_nil line, failing] at isScan
    cases isScan
  have isLine := passing []
  rw [List.append_nil, isScan, scanFrom] at isLine
  cases next with
  | bare held =>
    obtain rfl : tokens = others ++ ScanMode.endWord held := congrArg Scan.tokens isLine
    refine ⟨_, .inl rfl, goesOnWithWord_of_ends fun rest => ?_⟩
    have isEnded : EndWords ('\n' :: rest) := by
      rintro c ⟨⟩
      exact .inl rfl
    rw [passing, scanFrom_endWord isEnded, Scan.prepend_prepend]
    rfl
  | comment =>
    obtain rfl : tokens = others := by simpa [ScanMode.finish, Scan.nil, Scan.prepend] using isLine
    exact ⟨_, .inl rfl, goesOnWithWord_of_ends fun rest => passing ('\n' :: rest)⟩
  | quoted held =>
    obtain rfl : tokens = others ++ [ScanMode.heldToken held] := congrArg Scan.tokens isLine
    exact ⟨_, .inr ⟨_, rfl⟩, goesOnWithWord_of_quoted passing⟩
  | escape inQuotes held => cases isLine
  | hexEscape inQuotes held => cases isLine
  | hexDigit inQuotes held high => cases isLine

end Token

/-! ## Completion -/

section

variable {limit : Nat} {aliases : AliasTable} {line : String} {tokens : List Token}

/-- Where the texts of all aliases scan, a line is read from its expanded tokens. -/
theorem readLine_of_scans (scans : aliases.Scans) (isScan : Token.scan line = ⟨tokens, none⟩) :
    readLine limit aliases line =
      Expr.ofTokens limit (Token.expand aliases (Token.wrap tokens)).tokens := by
  have noFault : (Token.expand aliases (Token.wrap tokens)).failure = none :=
    Token.failure_expandFrom_eq_none scans false _
  simp [readLine, Token.ofLine, isScan, Scan.toExcept, noFault, bind, Except.bind]

/-- A group is expanded behind a parenthesis as it is by itself. -/
theorem expandFrom_of_isGroup (isGroup : Token.isGroup tokens = true) :
    Token.expandFrom aliases true tokens = Token.expand aliases (Token.wrap tokens) := by
  rw [Token.wrap, isGroup, Bool.or_true, if_pos rfl]
  match tokens, isGroup with
  | .lparen :: rest, _ => rfl

/-- What is no group is expanded behind a parenthesis and before another. -/
theorem expand_wrap_of_not_isGroup (notGroup : Token.isGroup tokens = false)
    (notEmpty : tokens ≠ []) :
    Token.expand aliases (Token.wrap tokens) =
      (Token.expandFrom aliases true (tokens ++ [.rparen])).prepend [.lparen] := by
  rw [Token.wrap, notGroup, List.isEmpty_eq_false_iff.mpr notEmpty, Bool.or_false,
    if_neg Bool.false_ne_true, List.cons_append, Token.expand,
    Token.expandFrom_cons_of_replacement?_eq_none rfl]
  rfl

/-- A line that is found incomplete leaves forms open behind a parenthesis, the outermost of them a
row, and so does the line without an identifier at its end. -/
theorem exists_opened_of_isComplete_eq_false (scans : aliases.Scans)
    (isScan : Token.scan line = ⟨tokens, none⟩) (incomplete : isComplete limit aliases line = false)
    {before : List Token} (isBefore : before = tokens ∨ ∃ last, tokens = before ++ [.ident last]) :
    ∃ inner, Reading.EndsInRow inner ∧ ∀ more rest, limit < more →
      Reading.readForm more [.row []] ((Token.expandFrom aliases true before).tokens ++ rest) =
        Reading.readForm more inner rest := by
  rw [isComplete, readLine_of_scans scans isScan] at incomplete
  cases failed : Expr.ofTokens limit (Token.expand aliases (Token.wrap tokens)).tokens with
  | ok e => simp [failed] at incomplete
  | error fault =>
    have isIncomplete : fault.isIncomplete = true := by simpa [failed] using incomplete
    obtain ⟨notEmpty, reading | ⟨_, _, _, rfl, -⟩⟩ := Expr.ofTokens_error_cases failed
    case inr => cases isIncomplete
    cases isGroup : Token.isGroup tokens with
    | true =>
      obtain rfl : before = tokens := by
        rcases isBefore with rfl | ⟨last, rfl⟩
        · rfl
        · rw [Token.isGroup_append_ident] at isGroup
          cases isGroup
      -- the line was read inside no parentheses but its own
      rw [← expandFrom_of_isGroup isGroup, ← List.append_nil (Scan.tokens _)] at reading
      obtain ⟨inner, -, goesOn⟩ := Reading.exists_opened_of_isIncomplete reading isIncomplete
      exact ⟨inner ++ [OpenForm.row []], ⟨inner, [], rfl⟩, fun more rest enough =>
        goesOn [.row []] more rest enough⟩
    | false =>
      have isPart : ∃ after, tokens ++ [.rparen] = before ++ after := by
        rcases isBefore with rfl | ⟨last, rfl⟩
        · exact ⟨_, rfl⟩
        · exact ⟨_, List.append_assoc _ _ _⟩
      obtain ⟨after, isWhole⟩ := isPart
      have isNonempty : tokens ≠ [] := by
        rintro rfl
        exact notEmpty rfl
      rw [expand_wrap_of_not_isGroup isGroup isNonempty, isWhole, Token.expandFrom_append,
        Scan.append_of_failure_eq_none (Token.failure_expandFrom_eq_none scans true before),
        Scan.prepend, List.singleton_append, Reading.readForm_opening rfl] at reading
      split at reading
      · obtain ⟨inner, staysOpen, goesOn⟩ :=
          Reading.exists_opened_of_isIncomplete reading isIncomplete
        refine ⟨inner, staysOpen ⟨[], [], rfl⟩, fun more rest enough => ?_⟩
        simpa using goesOn [] more rest (Nat.le_of_lt enough)
      · cases reading
        cases isIncomplete

/-- The expansion of a line that ends in a word that is no alias, closing parentheses and one more
word. -/
theorem tokens_expand_wrap (scans : aliases.Scans) (before : List Token) {text : String}
    (notAlias : aliases.find? text = none) (count : Nat) (last : String) :
    (Token.expand aliases (Token.wrap
        (before ++ .ident text :: (List.replicate count .rparen ++ [.ident last])))).tokens =
      .lparen :: ((Token.expandFrom aliases true before).tokens ++
        .ident text :: Reading.closing count last) := by
  have notReplaced (afterParen : Bool) :
      aliases.replacement? afterParen (.ident text) = none := by
    cases afterParen <;> simp [AliasTable.replacement?, notAlias]
  have noParen : .lparen ∉ Reading.closing count last := by simp [Reading.closing]
  have notGroup : Token.isGroup
      (before ++ .ident text :: (List.replicate count .rparen ++ [.ident last])) = false := by
    rw [← List.cons_append, ← List.append_assoc, Token.isGroup_append_ident]
  have isWhole : before ++ .ident text :: (List.replicate count .rparen ++ [.ident last]) ++
      [.rparen] = before ++ .ident text :: Reading.closing count last := by
    simp [Reading.closing]
  rw [expand_wrap_of_not_isGroup notGroup (by simp), isWhole, Token.expandFrom_append,
    Token.expandFrom_cons_of_replacement?_eq_none (notReplaced _), beq_false_of_ne (by simp),
    Token.expandFrom_of_not_mem_lparen noParen,
    Scan.append_of_failure_eq_none (Token.failure_expandFrom_eq_none scans true before)]
  rfl

/-- A line is asked to go on only if it can be completed. If a line scans without a fault, and so do
the texts of all aliases, but the line is found incomplete, then with some text on the next line it
reads as an expression, under every greater limit of nesting. -/
theorem exists_completion_of_isComplete_eq_false (limit : Nat) (aliases : AliasTable)
    (line : String) (lineScans : (Token.scan line).failure = none) (scans : aliases.Scans)
    (incomplete : isComplete limit aliases line = false) :
    ∃ rest e, ∀ more, limit < more →
      readLine more aliases (line ++ "\n" ++ rest) = .ok e := by
  have isScan : Token.scan line = ⟨(Token.scan line).tokens, none⟩ := by rw [← lineScans]
  obtain ⟨before, isBefore, text, beginning, notAlias, scansOn⟩ :=
    Token.exists_goesOnWithWord isScan aliases
  obtain ⟨inner, isOpen, goesOn⟩ :=
    exists_opened_of_isComplete_eq_false scans isScan incomplete isBefore
  obtain ⟨count, closes⟩ := isOpen.exists_closing
  obtain ⟨whole, isWhole⟩ := closes (.atom text) "x"
  let closers := List.replicate count ')' ++ [' ', 'x']
  refine ⟨String.ofList (beginning ++ closers), whole, fun more enough => ?_⟩
  have isEnded : Token.EndWords closers := by
    intro c isFirst
    cases count with
    | zero =>
      cases isFirst
      exact .inl rfl
    | succ count =>
      cases isFirst
      exact .inr rfl
  have isNextScan : Token.scan (line ++ "\n" ++ String.ofList (beginning ++ closers)) =
      ⟨before ++ .ident text :: (List.replicate count .rparen ++ [.ident "x"]), none⟩ := by
    have nextScan := scansOn closers isEnded
    rw [Token.scanFrom_closers] at nextScan
    simpa [Token.scan, Scan.prepend] using nextScan
  have reading : Reading.readForm more [] (.lparen ::
      ((Token.expandFrom aliases true before).tokens ++
        .ident text :: Reading.closing count "x")) = .ok (whole, []) := by
    have isOpened : ([] : List OpenForm).length < more := Nat.zero_lt_of_lt enough
    rw [Reading.readForm_opening rfl, if_pos isOpened, goesOn more _ enough, ← isWhole more,
      Reading.readForm, Reading.feed]
    cases Reading.place (.atom text) inner <;> rfl
  rw [readLine_of_scans scans isNextScan, tokens_expand_wrap scans before notAlias, Expr.ofTokens,
    reading]
  rfl

/-- An alias may open a parenthesis that only the next line closes. -/
theorem exists_completion_of_opening_alias :
    (Token.scan "open \"a").failure = none ∧
    AliasTable.Scans (.ofList [("open", ["(list"])]) ∧
    isComplete 2 (.ofList [("open", ["(list"])]) "open \"a" = false ∧
    ∃ rest e, ∀ more, 2 < more →
      readLine more (.ofList [("open", ["(list"])]) ("open \"a" ++ "\n" ++ rest) = .ok e := by
  have lineScans : (Token.scan "open \"a").failure = none := rfl
  have scans : AliasTable.Scans (.ofList [("open", ["(list"])]) := by
    intro name texts isFound text isIn
    rw [Table.ofList, List.foldl_cons, List.foldl_nil, Table.find?_insert] at isFound
    split at isFound
    · cases isFound
      cases List.mem_singleton.mp isIn
      rfl
    · cases isFound
  have incomplete : isComplete 2 (.ofList [("open", ["(list"])]) "open \"a" = false := rfl
  exact ⟨lineScans, scans, incomplete,
    exists_completion_of_isComplete_eq_false 2 _ "open \"a" lineScans scans incomplete⟩

end

end LispShell
