import LispShell.Proofs.Reader.Acceptance
import LispShell.Proofs.Token.Alias
import LispShell.Reader.Source

/-! # The forms of a program
A program is read token by token, and each form is handed on when it is complete. Under a fixed
alias table that is no other than to expand all tokens first and read the forms in turn; a program
without a fault is a row of forms. -/

namespace LispShell

namespace ProgramReader

variable {m : Type → Type} [Monad m] [LawfulMonad m] {reader : ProgramReader m}

/-- Tokens are read after those before them. -/
theorem feedAll_append (opened : List OpenForm) (tokens others : List Token) :
    reader.feedAll opened (tokens ++ others) =
      reader.feedAll opened tokens >>= fun inner => reader.feedAll inner others := by
  induction tokens generalizing opened with
  | nil => simp [feedAll]
  | cons token rest inductionHypothesis => simp [feedAll, inductionHypothesis]

/-- The first token of a scan is read before the others. -/
theorem feedScan_cons (opened : List OpenForm) (token : Token) (rest : List Token)
    (failure : Option ReadError) :
    reader.feedScan opened ⟨token :: rest, failure⟩ =
      reader.feed opened token >>= fun inner => reader.feedScan inner ⟨rest, failure⟩ := by
  simp [feedScan, feedAll]

/-- The tokens of a source are read after those before them. -/
theorem feedSource_append (afterParen : Bool) (opened : List OpenForm)
    (tokens others : List Token) :
    reader.feedSource afterParen opened (tokens ++ others) =
      reader.feedSource afterParen opened tokens >>= fun inner =>
        reader.feedSource (Token.headFollows afterParen tokens) inner others := by
  induction tokens generalizing afterParen opened with
  | nil => simp [feedSource, Token.headFollows]
  | cons token rest inductionHypothesis =>
    simp [feedSource, Token.headFollows, inductionHypothesis]

section

variable (givesUp : ∀ fault (next : List OpenForm → m (List OpenForm)),
  reader.refuse fault >>= next = reader.refuse fault)
include givesUp

/-- Scans are read after those before them, unless reading gives up. -/
theorem feedScan_append (opened : List OpenForm) (first second : Scan) :
    reader.feedScan opened (first.append second) =
      reader.feedScan opened first >>= fun inner => reader.feedScan inner second := by
  obtain ⟨tokens, _ | fault⟩ := first
  · simp [feedScan, Scan.append, Scan.prepend, feedAll_append]
  · simp [feedScan, Scan.append, givesUp]

/-- Under a fixed alias table the tokens of a source are read as they are expanded. -/
theorem feedSource_eq_feedScan {aliases : AliasTable} (areFixed : reader.aliases = pure aliases)
    (afterParen : Bool) (opened : List OpenForm) (tokens : List Token) :
    reader.feedSource afterParen opened tokens =
      reader.feedScan opened (Token.expandFrom aliases afterParen tokens) := by
  induction tokens generalizing afterParen opened with
  | nil => simp [feedSource, feedScan, feedAll, Token.expandFrom, Scan.nil]
  | cons token rest inductionHypothesis =>
    simp [feedSource, Token.expandFrom, feedScan_append givesUp, areFixed, inductionHypothesis]

end

end ProgramReader

/-! ## Reading forms in turn -/

/-- The forms of tokens inside the open ones, up to the first fault. `failure` is the fault of the
scan after the tokens. -/
def readForms (limit : Nat) (failure : Option ReadError) :
    List OpenForm → List Token → List Expr × Option ReadError
  | opened, [] =>
    ([], failure <|> if opened.isEmpty then none else some (Reading.missing opened))
  | opened, token :: rest =>
    match Reading.feed limit opened token with
    | .error fault => ([], some fault)
    | .ok (.unfinished inner) => readForms limit failure inner rest
    | .ok (.finished form) =>
      let others := readForms limit failure [] rest
      (form :: others.1, others.2)

namespace ProgramReader

/-- The reader that collects the forms of a program, the last one first. -/
def collector (limit : Nat) (aliases : AliasTable) :
    ProgramReader (ExceptT ReadError (StateM (List Expr))) where
  limit := limit
  aliases := pure aliases
  accept form := modify (form :: ·)
  refuse := throw

/-- The forms that the collector ends with, in order, and the fault that it ended for. -/
def collected : Except ReadError Unit × List Expr → List Expr × Option ReadError
  | (.ok _, forms) => (forms.reverse, none)
  | (.error fault, forms) => (forms.reverse, some fault)

variable {limit : Nat} {aliases : AliasTable}

/-- What the collector does at the end of a program. -/
def finishing (limit : Nat) (aliases : AliasTable) (opened : List OpenForm) :
    ExceptT ReadError (StateM (List Expr)) Unit :=
  if opened.isEmpty then pure ()
  else discard ((collector limit aliases).refuse (Reading.missing opened))

/-- The collector reads a scan as its forms in turn. -/
theorem run_feedScan_collector (opened : List OpenForm) (failure : Option ReadError)
    (tokens : List Token) (forms : List Expr) :
    ((collector limit aliases).feedScan opened ⟨tokens, failure⟩ >>=
        finishing limit aliases).run.run forms =
      let ended := readForms limit failure opened tokens
      (match ended.2 with
        | some fault => .error fault
        | none => .ok (),
      ended.1.reverse ++ forms) := by
  -- the forms handed on so far are what the state holds
  induction tokens generalizing opened forms with
  | nil =>
    cases failure with
    | some fault => rfl
    | none => cases opened <;> rfl
  | cons token rest inductionHypothesis =>
    rw [feedScan_cons, feed, readForms]
    cases isFed : Reading.feed limit opened token with
    | error fault =>
      simp only [collector, isFed]
      rfl
    | ok reading =>
      simp only [collector, isFed]
      cases reading with
      | unfinished inner =>
        rw [pure_bind]
        exact inductionHypothesis inner forms
      | finished form =>
        simp only [List.reverse_cons, List.append_assoc]
        exact inductionHypothesis [] (form :: forms)

end ProgramReader

/-- Under a fixed alias table a program reads as the forms of its expanded tokens. -/
theorem readProgram_eq_readForms (limit : Nat) (aliases : AliasTable) (source : String) :
    readProgram limit aliases source =
      readForms limit (Token.ofProgram aliases source).failure []
        (Token.ofProgram aliases source).tokens := by
  have givesUp (fault) (next : List OpenForm → ExceptT ReadError (StateM (List Expr)) _) :
      (ProgramReader.collector limit aliases).refuse fault >>= next =
        (ProgramReader.collector limit aliases).refuse fault := rfl
  have reads : (ProgramReader.collector limit aliases).run source =
      (ProgramReader.collector limit aliases).feedScan [] (Token.ofProgram aliases source) >>=
        ProgramReader.finishing limit aliases := by
    rw [Token.ofProgram, ProgramReader.feedScan_append givesUp, ProgramReader.run,
      ProgramReader.feedSource_eq_feedScan givesUp rfl, bind_assoc]
    refine bind_congr fun inner => ?_
    cases (Token.scan source).failure <;> rfl
  have collects : readProgram limit aliases source =
      ProgramReader.collected (((ProgramReader.collector limit aliases).run source).run.run []) :=
    rfl
  rw [collects, reads, ProgramReader.run_feedScan_collector]
  obtain ⟨forms, _ | fault⟩ := readForms limit (Token.ofProgram aliases source).failure []
    (Token.ofProgram aliases source).tokens
  all_goals simp [ProgramReader.collected]

/-! ## Programs without a fault -/

variable {limit : Nat} {failure : Option ReadError}

/-- A form that is read comes before the others. -/
theorem readForms_of_ok {opened : List OpenForm} {tokens rest : List Token} {form : Expr}
    (isRead : Reading.readForm limit opened tokens = .ok (form, rest)) :
    readForms limit failure opened tokens =
      (form :: (readForms limit failure [] rest).1, (readForms limit failure [] rest).2) := by
  induction tokens generalizing opened with
  | nil => cases isRead
  | cons token others inductionHypothesis =>
    rw [Reading.readForm] at isRead
    rw [readForms]
    split at isRead
    · cases isRead
    · next isFed =>
      cases isRead
      rw [isFed]
    · next isFed =>
      rw [isFed]
      exact inductionHypothesis isRead

/-- A fault that more input could not mend ends the forms. -/
theorem readForms_of_error {opened : List OpenForm} {tokens : List Token} {fault : ReadError}
    (failed : Reading.readForm limit opened tokens = .error fault)
    (isFinal : fault.isIncomplete = false) :
    readForms limit failure opened tokens = ([], some fault) := by
  induction tokens generalizing opened with
  | nil =>
    cases failed
    simp at isFinal
  | cons token others inductionHypothesis =>
    rw [Reading.readForm] at failed
    rw [readForms]
    split at failed
    · next isFed =>
      cases failed
      rw [isFed]
    · cases failed
    · next isFed =>
      rw [isFed]
      exact inductionHypothesis failed

/-- The tokens of one form read as it, if the reader has room for it. -/
theorem readForms_tokens (limit : Nat) (tree : Derivation) :
    readForms limit none [] tree.tokens =
      if tree.nesting ≤ limit then ([tree.value], none) else ([], some .nestingTooDeep) := by
  have isRead := Reading.readForm_tokens_eq limit tree
  split at isRead
  · next fits =>
    rw [if_pos fits, readForms_of_ok isRead]
    rfl
  · next tooDeep => rw [if_neg tooDeep, readForms_of_error isRead rfl]

/-- Tokens that read as forms without a fault are those of the forms. -/
theorem exists_of_readForms_ok (frames : List Derivation.Frame) {tokens : List Token}
    {forms : List Expr}
    (isRead : readForms limit failure (frames.map Derivation.Frame.opened) tokens = (forms, none)) :
    failure = none ∧
      ∃ trees, Derivation.tokensOfAll trees = Derivation.Frame.tokensOfAll frames ++ tokens ∧
        trees.map Derivation.value = forms := by
  induction tokens generalizing frames forms with
  | nil =>
    cases failure with
    | some fault => cases isRead
    | none =>
      cases frames with
      | cons frame outer => cases isRead
      | nil =>
        cases isRead
        exact ⟨rfl, [], rfl, rfl⟩
  | cons token rest inductionHypothesis =>
    rw [readForms] at isRead
    cases isFed : Reading.feed limit (frames.map Derivation.Frame.opened) token with
    | error fault => simp [isFed] at isRead
    | ok reading =>
      obtain ⟨progress, rfl, taken⟩ := Derivation.exists_of_feed isFed
      rw [List.append_cons, ← taken]
      cases progress with
      | unfinished inner =>
        exact inductionHypothesis inner (by simpa [isFed, Derivation.Progress.reading] using isRead)
      | finished tree =>
        simp only [isFed, Derivation.Progress.reading, Prod.mk.injEq] at isRead
        obtain ⟨rfl, noFault⟩ := isRead
        have isRest : readForms limit failure [] rest = (_, none) := Prod.ext rfl noFault
        obtain ⟨noFailure, trees, isTokens, areValues⟩ := inductionHypothesis [] isRest
        refine ⟨noFailure, tree :: trees, ?_, by simp [areValues]⟩
        simp [Derivation.tokensOfAll, Derivation.Frame.tokensOfAll, Derivation.Progress.tokens,
          isTokens]

end LispShell
