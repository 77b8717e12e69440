import LispShell.Proofs.Evaluation.Halts
import LispShell.Proofs.Reader.Program
import LispShell.Proofs.Session.Commands
import LispShell.Script.Run

/-! # Programs in parts
A program is read and evaluated form by form: nothing of the next form is looked at before a form is
evaluated. Hence a program whose text is continued on the next line does first what it does alone,
and then what the rest of the text does, read with the aliases that are in force by then. -/

namespace LispShell

namespace Session

section

variable [OperatingSystem] {limits : Limits} {course after : Course}

/-! ## Parts without an open form -/

/-- An opening parenthesis opens a form. -/
theorem opened_ne_nil_of_lparen {aliases : AliasTable} {afterParen : Bool}
    {opened inner : List OpenForm}
    (ended : ((programReader limits).feedScan opened
      (Token.expansion aliases afterParen .lparen)).exec course = (.ok inner, after)) :
    inner ≠ [] := by
  have isOne : Token.expansion aliases afterParen .lparen = ⟨[.lparen], none⟩ := rfl
  rw [isOne, ProgramReader.feedScan_cons, ProgramReader.feed, Reading.feed, Reading.enter] at ended
  by_cases fits : opened.length < (programReader limits).limit
  · rw [if_pos fits] at ended
    cases ended
    exact List.cons_ne_nil _ _
  · rw [if_neg fits] at ended
    cases ended

/-- After an opening parenthesis a form is open. -/
theorem opened_ne_nil_of_headFollows {afterParen : Bool} {opened inner : List OpenForm}
    {tokens : List Token} (isOpen : afterParen = true → opened ≠ [])
    (ended : ((programReader limits).feedSource afterParen opened tokens).exec course =
      (.ok inner, after))
    (follows : Token.headFollows afterParen tokens = true) : inner ≠ [] := by
  induction tokens generalizing afterParen opened course with
  | nil =>
    cases ended
    exact isOpen follows
  | cons token rest inductionHypothesis =>
    obtain ⟨aliases, _, -, ended⟩ := Run.exists_of_exec_bind_ok ended
    obtain ⟨between, middle, isFirst, ended⟩ := Run.exists_of_exec_bind_ok ended
    refine inductionHypothesis (fun isParen => ?_) ended follows
    obtain rfl : token = .lparen := by simpa using isParen
    exact opened_ne_nil_of_lparen isFirst

/-- A program that ends without a fault ends outside all forms, and not after a parenthesis. -/
theorem exec_feedSource_of_completes {source : String}
    (completes : (evalProgram limits source).exec course = (.ok (), after)) :
    ((programReader limits).feedSource false [] (Token.scan source).tokens).exec course =
        (.ok [], after) ∧
      (Token.scan source).failure = none ∧
      Token.headFollows false (Token.scan source).tokens = false := by
  obtain ⟨opened, middle, isRead, completes⟩ := Run.exists_of_exec_bind_ok completes
  cases noFault : (Token.scan source).failure with
  | some fault =>
    rw [noFault] at completes
    cases completes
  | none =>
    rw [noFault] at completes
    cases opened with
    | cons innermost outer => cases completes
    | nil =>
      cases completes
      refine ⟨isRead, rfl, Bool.eq_false_iff.mpr fun follows => ?_⟩
      exact opened_ne_nil_of_headFollows (by simp) isRead follows rfl

/-- A program that halts, but not for a fault of reading, does so while its tokens are read. -/
theorem exec_feedSource_of_halts {source : String} {halt : Halt}
    (halts : (evalProgram limits source).exec course = (.error halt, after))
    (notUnreadable : ∀ fault, halt ≠ .fault (.unreadable fault)) :
    ((programReader limits).feedSource false [] (Token.scan source).tokens).exec course =
      (.error halt, after) := by
  obtain isRead | ⟨opened, middle, -, halts⟩ := Run.exec_bind_error_cases halts
  · exact isRead
  · cases isFailure : (Token.scan source).failure with
    | some fault =>
      rw [isFailure] at halts
      cases halts
      exact absurd rfl (notUnreadable fault)
    | none =>
      rw [isFailure] at halts
      cases opened with
      | cons innermost outer =>
        cases halts
        exact absurd rfl (notUnreadable _)
      | nil => cases halts

/-! ## Forms that name no alias -/

/-- Tokens that read as one form are handed on as it, if none of them names an alias. -/
theorem exec_feedSource_form {afterParen : Bool} {opened : List OpenForm} {tokens : List Token}
    {form : Expr} (isRead : Reading.readForm limits.depth opened tokens = .ok (form, []))
    (noAlias : ∀ token ∈ tokens, course.shell.session.aliases.replacement? true token = none)
    {value : Expr}
    (evaluates : (Evaluation.run limits false form).exec course = (.ok value, after)) :
    ((programReader limits).feedSource afterParen opened tokens).exec course =
      (.ok [], after) := by
  induction tokens generalizing afterParen opened with
  | nil => cases isRead
  | cons token rest inductionHypothesis =>
    have isItself : Token.expansion course.shell.session.aliases afterParen token =
        ⟨[token], none⟩ := by
      have noReplacement :
          course.shell.session.aliases.replacement? afterParen token = none := by
        cases afterParen with
        | true => exact noAlias token List.mem_cons_self
        | false => cases token <;> rfl
      rw [Token.expansion, noReplacement]
    have isAliases : (programReader limits).aliases.exec course =
        (.ok course.shell.session.aliases, course) := rfl
    have isFeed : (programReader limits).feedScan opened ⟨[token], none⟩ =
        (programReader limits).feed opened token := by
      simp [ProgramReader.feedScan, ProgramReader.feedAll]
    rw [ProgramReader.feedSource, Run.exec_bind_ok course isAliases, isItself, isFeed,
      ProgramReader.feed]
    rw [Reading.readForm] at isRead
    cases isFed : Reading.feed limits.depth opened token with
    | error fault => simp [isFed] at isRead
    | ok reading =>
      simp only [isFed] at isRead
      cases reading with
      | unfinished inner =>
        have isUnfinished : Reading.feed (programReader limits).limit opened token =
            .ok (.unfinished inner) := isFed
        simp only [isUnfinished, pure_bind]
        exact inductionHypothesis isRead fun other isIn =>
          noAlias other (List.mem_cons_of_mem _ isIn)
      | finished form =>
        obtain ⟨rfl, rfl⟩ : form = _ ∧ rest = [] := by simpa using isRead
        have isFinished : Reading.feed (programReader limits).limit opened token =
            .ok (.finished form) := isFed
        have isAccepted : ((programReader limits).accept form).exec course = (.ok (), after) := by
          rw [programReader_accept, Run.exec_map, evaluates]
          rfl
        simp only [isFinished, bind_assoc, pure_bind]
        rw [Run.exec_bind_ok course isAccepted]
        rfl

/-! ## Programs in two parts -/

/-- A program in two parts, the first of which does not end between double quotes, is evaluated one
part after the other. If the first part is evaluated to its end, then the whole ends as the second
part does from there, so also with the aliases that are in force by then. If the first part halts in
the evaluation of one of its forms, then the whole halts in the same way, whatever the second part
is; and a halt is due to an evaluation unless it is for a fault of reading, for which no evaluation
halts. -/
theorem evalProgram_append (limits : Limits) (course : Course) (first second : String)
    (notInQuotes : Token.endsInQuotes first = false) :
    (∀ after, (evalProgram limits first).exec course = (.ok (), after) →
      (evalProgram limits (first ++ "\n" ++ second)).exec course =
        (evalProgram limits second).exec after) ∧
    (∀ halt after, (evalProgram limits first).exec course = (.error halt, after) →
      (∀ fault, halt ≠ .fault (.unreadable fault)) →
      (evalProgram limits (first ++ "\n" ++ second)).exec course = (.error halt, after)) ∧
    ∀ form start fault,
      ((Evaluation.run limits false form).exec start).1 ≠ .error (.fault (.unreadable fault)) := by
  obtain ⟨others, isScan, areSecond⟩ := Token.scan_append_newline notInQuotes second
  refine ⟨fun after completes => ?completes, fun halt after halts notUnreadable => ?halts,
    fun form start fault unreadable => ?evaluation⟩
  case completes =>
    obtain ⟨isRead, noFault, noHead⟩ := exec_feedSource_of_completes completes
    obtain rfl := areSecond noFault
    -- the second part begins outside all forms and not at the head of one
    rw [evalProgram, ProgramReader.run, isScan, Scan.prepend, ProgramReader.feedSource_append,
      bind_assoc, Run.exec_bind_ok course isRead, noHead]
    rfl
  case halts =>
    have isRead := exec_feedSource_of_halts halts notUnreadable
    rw [evalProgram, ProgramReader.run, isScan, Scan.prepend, ProgramReader.feedSource_append,
      bind_assoc, Run.exec_bind_error course isRead]
  case evaluation =>
    exact Evaluation.evaluates_run limits false form start _ _ (Prod.ext unreadable rfl)

end

/-- An alias of the first part is in force in the second. -/
theorem evalProgram_append_alias :
    Token.endsInQuotes "(alias l list) ; short" = false ∧
    ((evalProgram .standard ("(alias l list) ; short" ++ "\n" ++ "(def p (l a))")).exec
        .fresh).2.shell.session.definitions.find? "p" =
      some (.call [.atom "list", .atom "a"]) := by
  have notInQuotes : Token.endsInQuotes "(alias l list) ; short" = false := by decide
  have completes :
      (evalProgram .standard "(alias l list) ; short").exec .fresh =
        (.ok (), ⟨⟨⟨Table.empty.insert "l" ["list"], .empty, .empty, 0, 0⟩,
          Course.fresh.shell.world⟩, []⟩) := by
    have isScan : Token.scan "(alias l list) ; short" =
        ⟨[.lparen, .ident "alias", .ident "l", .ident "list", .rparen], none⟩ := rfl
    rw [evalProgram, ProgramReader.run, isScan]
    rfl
  have sequential :=
    (evalProgram_append .standard _ _ "(def p (l a))" notInQuotes).1 _ completes
  have isScan : Token.scan "(def p (l a))" =
      ⟨[.lparen, .ident "def", .ident "p", .lparen, .ident "l", .ident "a", .rparen, .rparen],
        none⟩ := rfl
  refine ⟨notInQuotes, ?_⟩
  rw [sequential, evalProgram, ProgramReader.run, isScan]
  rfl

end Session

end LispShell
