import LispShell.Proofs.Expr.Shape
import LispShell.Reader.Source

/-! # Shapes of forms
Whatever the reader completes is proper: a quote turns the form after it into data at once, and
nothing else makes a list. So what is done with the forms of a program may take them as proper. -/

namespace LispShell

/-- Whether everything read of an open form is proper. -/
def OpenForm.IsProper : OpenForm → Prop
  | .quote => True
  | .row items => ∀ item ∈ items, item.isProper

/-- Whether the complete form, or everything read of the open ones, is proper. -/
def Reading.IsProper : Reading → Prop
  | .unfinished opened => ∀ waiting ∈ opened, waiting.IsProper
  | .finished form => form.isProper

namespace Reading

variable {opened : List OpenForm} (areProper : ∀ waiting ∈ opened, waiting.IsProper)
include areProper

/-- A proper form keeps the reading proper. -/
theorem isProper_place {form : Expr} (isProper : form.isProper) : (place form opened).IsProper := by
  induction opened generalizing form with
  | nil => exact isProper
  | cons waiting outer inductionHypothesis =>
    obtain ⟨isInner, areOuter⟩ := List.forall_mem_cons.mp areProper
    cases waiting with
    | quote =>
      exact inductionHypothesis areOuter (Expr.isProper_of_isData (Expr.isData_toData isProper))
    | row items =>
      exact List.forall_mem_cons.mpr ⟨List.forall_mem_cons.mpr ⟨isProper, isInner⟩, areOuter⟩

/-- Every token keeps the reading proper. -/
theorem isProper_feed {limit : Nat} {token : Token} {reading : Reading}
    (isFed : feed limit opened token = .ok reading) : reading.IsProper := by
  have entering {inner : OpenForm} (isInner : inner.IsProper)
      (entered : enter limit opened inner = .ok reading) : reading.IsProper := by
    unfold enter at entered
    split at entered <;> cases entered
    exact List.forall_mem_cons.mpr ⟨isInner, areProper⟩
  cases token with
  | ident text =>
    cases isFed
    exact isProper_place areProper (by simp)
  | lparen => exact entering (by simp [OpenForm.IsProper]) isFed
  | quote =>
    have isQuote : OpenForm.quote.IsProper := trivial
    exact entering isQuote isFed
  | rparen =>
    match opened, areProper, isFed with
    | .row items :: outer, areProper, rfl =>
      obtain ⟨isInner, areOuter⟩ := List.forall_mem_cons.mp areProper
      refine isProper_place areOuter ?_
      rw [Expr.isProper_call]
      exact fun item isIn => isInner item (List.mem_reverse.mp isIn)

/-- A form that is read is proper. -/
theorem isProper_readForm {limit : Nat} {tokens rest : List Token} {form : Expr}
    (isRead : readForm limit opened tokens = .ok (form, rest)) : form.isProper := by
  induction tokens generalizing opened with
  | nil => cases isRead
  | cons token others inductionHypothesis =>
    unfold readForm at isRead
    cases isFed : feed limit opened token with
    | error fault => simp [isFed] at isRead
    | ok reading =>
      have isProper := isProper_feed areProper isFed
      cases reading with
      | unfinished inner => exact inductionHypothesis isProper (by simpa [isFed] using isRead)
      | finished form =>
        simp only [isFed, Except.ok.injEq, Prod.mk.injEq] at isRead
        obtain ⟨rfl, -⟩ := isRead
        exact isProper

end Reading

/-- A row of tokens reads as a proper expression. -/
theorem Expr.isProper_ofTokens {limit : Nat} {tokens : List Token} {e : Expr}
    (isRead : ofTokens limit tokens = .ok e) : e.isProper := by
  unfold ofTokens at isRead
  split at isRead
  · cases isRead
    simp
  · split at isRead <;> cases isRead
    next form => exact Reading.isProper_readForm (by simp) form

/-- A command line reads as a proper expression. -/
theorem isProper_readLine {limit : Nat} {aliases : AliasTable} {source : String} {e : Expr}
    (isRead : readLine limit aliases source = .ok e) : e.isProper := by
  unfold readLine at isRead
  cases tokens : Token.ofLine aliases source with
  | error fault => simp [tokens, bind, Except.bind] at isRead
  | ok tokens => exact Expr.isProper_ofTokens (by simpa [tokens, bind, Except.bind] using isRead)

namespace ProgramReader

variable {m n : Type → Type} [Monad m] [Monad n]

/-- A relation between the actions of two surroundings that their sequencing keeps; it says with a
condition what is good about the results. -/
structure Relation (m n : Type → Type) [Monad m] [Monad n] where
  /-- The relation. -/
  relates : {α : Type} → (good : α → Prop) → m α → n α → Prop
  relates_pure {α : Type} {good : α → Prop} {result : α} :
    good result → relates good (pure result) (pure result)
  relates_bind {α β : Type} {good : α → Prop} {better : β → Prop} {first : m α} {other : n α}
    {next : α → m β} {otherNext : α → n β} :
    relates good first other →
      (∀ result, good result → relates better (next result) (otherNext result)) →
      relates better (first >>= next) (other >>= otherNext)

/-- Whether two readers do related things with proper forms and with faults. -/
structure Related (relation : Relation m n) (reader : ProgramReader m) (other : ProgramReader n) :
    Prop where
  /-- As many forms may be open. -/
  same_limit : other.limit = reader.limit
  /-- The same aliases are consulted. -/
  aliases : relation.relates (fun _ => True) reader.aliases other.aliases
  /-- Every proper form is taken over. -/
  accept {form : Expr} (isProper : form.isProper) :
    relation.relates (fun _ => True) (reader.accept form) (other.accept form)
  /-- Every fault leaves proper forms open, if any. -/
  refuse (fault : ReadError) :
    relation.relates (fun opened => ∀ waiting ∈ opened, waiting.IsProper) (reader.refuse fault)
      (other.refuse fault)

variable {relation : Relation m n} {reader : ProgramReader m} {other : ProgramReader n}
  (related : Related relation reader other)
include related

section

variable {opened : List OpenForm} (areProper : ∀ waiting ∈ opened, waiting.IsProper)
include areProper

/-- One token. -/
theorem relates_feed (token : Token) :
    relation.relates (fun opened => ∀ waiting ∈ opened, waiting.IsProper)
      (reader.feed opened token) (other.feed opened token) := by
  unfold feed
  rw [related.same_limit]
  cases isFed : Reading.feed reader.limit opened token with
  | error fault => exact related.refuse fault
  | ok reading =>
    have isProper := Reading.isProper_feed areProper isFed
    cases reading with
    | unfinished inner => exact relation.relates_pure isProper
    | finished form =>
      refine relation.relates_bind (related.accept isProper) fun _ _ => ?_
      exact relation.relates_pure (by simp)

/-- Tokens in turn. -/
theorem relates_feedAll (tokens : List Token) :
    relation.relates (fun opened => ∀ waiting ∈ opened, waiting.IsProper)
      (reader.feedAll opened tokens) (other.feedAll opened tokens) := by
  induction tokens generalizing opened with
  | nil => exact relation.relates_pure areProper
  | cons token rest inductionHypothesis =>
    exact relation.relates_bind (relates_feed related areProper token) fun inner areInner =>
      inductionHypothesis areInner

/-- A scan. -/
theorem relates_feedScan (scan : Scan) :
    relation.relates (fun opened => ∀ waiting ∈ opened, waiting.IsProper)
      (reader.feedScan opened scan) (other.feedScan opened scan) := by
  refine relation.relates_bind (relates_feedAll related areProper scan.tokens)
    fun inner areInner => ?_
  cases scan.failure with
  | some fault => exact related.refuse fault
  | none => exact relation.relates_pure areInner

/-- The tokens of a source. -/
theorem relates_feedSource (afterParen : Bool) (tokens : List Token) :
    relation.relates (fun opened => ∀ waiting ∈ opened, waiting.IsProper)
      (reader.feedSource afterParen opened tokens) (other.feedSource afterParen opened tokens) := by
  induction tokens generalizing afterParen opened with
  | nil => exact relation.relates_pure areProper
  | cons token rest inductionHypothesis =>
    refine relation.relates_bind related.aliases fun aliases _ => ?_
    exact relation.relates_bind (relates_feedScan related areProper _) fun inner areInner =>
      inductionHypothesis areInner _

end

/-- The forms of a program. -/
theorem relates_run [LawfulMonad m] [LawfulMonad n] (source : String) :
    relation.relates (fun _ => True) (reader.run source) (other.run source) := by
  have refusing (fault : ReadError) :
      relation.relates (fun _ => True) (discard (reader.refuse fault))
        (discard (other.refuse fault)) := by
    simp only [discard, Functor.discard, map_const, Function.comp_apply, map_eq_pure_bind]
    exact relation.relates_bind (related.refuse fault) fun _ _ => relation.relates_pure trivial
  refine relation.relates_bind (relates_feedSource related (by simp) false _)
    fun opened areProper => ?_
  cases (Token.scan source).failure with
  | some fault => exact refusing fault
  | none =>
    dsimp only
    split
    · exact relation.relates_pure trivial
    · exact refusing _

/-- To keep a row of proper forms, as a relation between the actions of a program reader that
collects them. -/
def collecting : Relation (ExceptT ReadError (StateM (List Expr)))
    (ExceptT ReadError (StateM (List Expr))) where
  relates good run _ := ∀ forms : List Expr, (∀ form ∈ forms, form.isProper) →
    (∀ form ∈ (run.run.run forms).2, form.isProper) ∧
      ∀ result, (run.run.run forms).1 = .ok result → good result
  relates_pure isGood forms areProper := by
    refine ⟨areProper, ?_⟩
    rintro _ ⟨⟩
    exact isGood
  relates_bind {α β good better first other next otherNext} keeps keepsNext forms areProper := by
    obtain ⟨kept, results⟩ := keeps forms areProper
    rw [ExceptT.run_bind, StateT.run_bind]
    match ended : first.run.run forms with
    | (.error fault, after) =>
      rw [ended] at kept
      refine ⟨kept, ?_⟩
      rintro _ ⟨⟩
    | (.ok result, after) =>
      rw [ended] at kept results
      exact keepsNext result (results result rfl) after kept

end ProgramReader

/-- The forms of a program are proper. -/
theorem isProper_of_mem_readProgram {limit : Nat} {aliases : AliasTable} {source : String}
    {form : Expr} (isIn : form ∈ (readProgram limit aliases source).1) : form.isProper := by
  let reader : ProgramReader (ExceptT ReadError (StateM (List Expr))) :=
    { limit := limit
      aliases := pure aliases
      accept := fun form => modify (form :: ·)
      refuse := throw }
  have related : ProgramReader.Related ProgramReader.collecting reader reader := by
    refine ⟨rfl, ?aliases, ?accept, ?refuse⟩
    case aliases => exact ProgramReader.collecting.relates_pure trivial
    case accept =>
      exact fun isProper forms areProper =>
        ⟨List.forall_mem_cons.mpr ⟨isProper, areProper⟩, fun _ _ => trivial⟩
    case refuse =>
      refine fun fault forms areProper => ⟨areProper, ?_⟩
      rintro _ ⟨⟩
  have areProper := (ProgramReader.relates_run related source [] (by simp)).1
  refine areProper form ?_
  change form ∈ ((reader.run source).run []).2
  unfold readProgram at isIn
  dsimp only at isIn
  split at isIn
  · next ended =>
    rw [ended]
    exact List.mem_reverse.mp isIn
  · next ended =>
    rw [ended]
    exact List.mem_reverse.mp isIn

end LispShell
