import LispShell.Proofs.Token.Alias

/-! # Line ends
The end of a line ends a word or a comment just as the end of the text does, so a text of several
lines is scanned line by line, up to the first fault. Only a quoted text goes on over the end of a
line: its token takes the line end in, so there the lines are never scanned apart. -/

namespace LispShell.Token

/-! ## Quoted texts over the end of a line -/

/-- A text that scans and ends between double quotes ends in the token of what is held there, and
the scanner goes on with what is held. -/
theorem exists_of_endsInQuotes {first : String} (scans : (scan first).failure = none)
    (inQuotes : endsInQuotes first = true) :
    ∃ before held, (scan first).tokens = before ++ [ScanMode.heldToken held] ∧
      ∀ more, scan (first ++ more) = (scanFrom (.quoted held) more.toList).prepend before := by
  obtain ⟨isNone, -⟩ | ⟨before, next, isNext, passes⟩ :=
    scanFrom_append_modeAfter (.bare []) first.toList
  · rw [endsInQuotes, isNone] at inQuotes
    cases inQuotes
  have isScan : scan first = next.finish.prepend before := by
    simpa [scan, scanFrom] using passes []
  rw [endsInQuotes, isNext, Option.any_some] at inQuotes
  -- a text that ends in an escape does not scan
  cases next with
  | quoted held =>
    refine ⟨before, held, congrArg Scan.tokens isScan, ?_⟩
    intro more
    rw [scan, String.toList_append, passes]
  | bare held => cases inQuotes
  | comment => cases inQuotes
  | escape quotes held => rw [isScan] at scans; cases scans
  | hexEscape quotes held => rw [isScan] at scans; cases scans
  | hexDigit quotes held high => rw [isScan] at scans; cases scans

/-- A text that scans and ends between double quotes ends in a token that is not found once the line
is ended: a fault comes before it, or it goes on with the end of the line. -/
theorem scan_append_newline_of_endsInQuotes {first : String}
    (scans : (scan first).failure = none) (inQuotes : endsInQuotes first = true)
    (second : String) :
    ∃ before text, (scan first).tokens = before ++ [.ident text] ∧
      ((∃ fault, scan (first ++ "\n" ++ second) = ⟨before, some fault⟩) ∨
      ∃ more others failure, scan (first ++ "\n" ++ second) =
        ⟨before ++ .ident (text ++ "\n" ++ more) :: others, failure⟩) := by
  obtain ⟨before, held, areTokens, goesOn⟩ := exists_of_endsInQuotes scans inQuotes
  refine ⟨before, String.ofList held.reverse, areTokens, ?_⟩
  have isWhole : scan (first ++ "\n" ++ second) =
      (scanFrom (.quoted ('\n' :: held)) second.toList).prepend before := by
    rw [String.append_assoc, goesOn, String.toList_append]
    rfl
  have stillInQuotes : (ScanMode.quoted ('\n' :: held)).isInQuotes = true := rfl
  rw [isWhole]
  rcases exists_of_isInQuotes stillInQuotes second.toList with
    ⟨fault, failing⟩ | ⟨more, others, failure, isIdent⟩
  · refine .inl ⟨fault, ?_⟩
    rw [failing, Scan.prepend, List.append_nil]
  · have isText : String.ofList ((ScanMode.quoted ('\n' :: held)).held.reverse ++ more) =
        String.ofList held.reverse ++ "\n" ++ String.ofList more := by
      simp [ScanMode.held, String.append_assoc]
    refine .inr ⟨String.ofList more, others, failure, ?_⟩
    rw [isIdent, isText]
    rfl

/-- The tokens of a text that scans and ends between double quotes are not found again once the line
is ended. -/
theorem not_prefix_of_endsInQuotes {first : String} (scans : (scan first).failure = none)
    (inQuotes : endsInQuotes first = true) (second : String) :
    ¬ (scan first).tokens <+: (scan (first ++ "\n" ++ second)).tokens := by
  obtain ⟨before, text, areTokens, ⟨fault, failing⟩ | ⟨more, others, failure, goesOn⟩⟩ :=
    scan_append_newline_of_endsInQuotes scans inQuotes second
  · -- the last token is missing
    rw [areTokens, failing]
    intro isPrefix
    have isShorter : (before ++ [ident text]).length ≤ before.length := isPrefix.length_le
    rw [List.length_append, List.length_singleton] at isShorter
    omega
  · -- the last token is longer
    rw [areTokens, goesOn, List.prefix_append_right_inj]
    intro isPrefix
    have sameText : text = text ++ "\n" ++ more :=
      ident.inj (List.cons_prefix_cons.mp isPrefix).1
    have sameLength := congrArg String.length sameText
    have isOne : "\n".length = 1 := rfl
    rw [String.length_append, String.length_append] at sameLength
    omega

/-! ## Lines one after the other -/

/-- A text that scans and does not end between double quotes is scanned apart from the lines after
it. -/
theorem scan_append_newline_eq_append {first : String} (scans : (scan first).failure = none)
    (notInQuotes : endsInQuotes first = false) (second : String) :
    scan (first ++ "\n" ++ second) = (scan first).append (scan second) := by
  obtain ⟨others, isScan, areSecond⟩ := scan_append_newline notInQuotes second
  rw [isScan, areSecond scans, Scan.append_of_failure_eq_none scans]

/-- A text that scans is scanned apart from the line after it exactly if it does not end between
double quotes: then the tokens are its own and those of the line after it, up to the fault of that
line if it has one. -/
theorem line_ends_separate_scans {first : String} (scans : (scan first).failure = none)
    (second : String) :
    scan (first ++ "\n" ++ second) =
        ⟨(scan first).tokens ++ (scan second).tokens, (scan second).failure⟩ ↔
      endsInQuotes first = false := by
  constructor
  · intro isApart
    refine Bool.eq_false_iff.mpr fun inQuotes => ?_
    have isPrefix : (scan first).tokens <+: (scan (first ++ "\n" ++ second)).tokens :=
      ⟨(scan second).tokens, (congrArg Scan.tokens isApart).symm⟩
    exact not_prefix_of_endsInQuotes scans inQuotes second isPrefix
  · intro notInQuotes
    rw [scan_append_newline_eq_append scans notInQuotes, Scan.append_of_failure_eq_none scans]
    rfl

/-- A comment ends with its line, also where it holds a double quote, and the fault of the next line
comes after the tokens of both. -/
theorem line_end_separates_comment :
    (scan "(ls ; the \"rest").failure = none ∧
    scan ("(ls ; the \"rest" ++ "\n" ++ "-l \\xZZ") =
      ⟨[.lparen, .ident "ls", .ident "-l"], some (.invalidEscape "ZZ")⟩ := by
  have scans : (scan "(ls ; the \"rest").failure = none := rfl
  have notInQuotes : endsInQuotes "(ls ; the \"rest" = false := by decide
  exact ⟨scans, (line_ends_separate_scans scans "-l \\xZZ").mpr notInQuotes⟩

-- a quoted text goes on over the end of the line
example : scan ("ls \"a" ++ "\n" ++ "b") = ⟨[.ident "ls", .ident "a\nb"], none⟩ := by decide

end LispShell.Token
