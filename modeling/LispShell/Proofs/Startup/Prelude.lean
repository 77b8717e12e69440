import LispShell.Proofs.Evaluation.Hygiene
import LispShell.Proofs.Session.Sources
import LispShell.Startup.Load

/-! # The prelude
The packaged prelude defines two aliases and the helpers `second`, `empty?`, `length` and `nth`. It
is read and evaluated to its end by every new session, and what it does there is to file them. -/

namespace LispShell

open Evaluation

/-! ## The definitions of the prelude -/

namespace Prelude

/-- The body of `second`. -/
def secondBody : Expr :=
  .call [.atom "first", .call [.atom "rest", .atom "xs"]]

/-- The body of `empty?`. -/
def emptyBody : Expr :=
  .call [.atom "=", .atom "xs", .list []]

/-- The body of `length`. -/
def lengthBody : Expr :=
  .call [.atom "if", .call [.atom "empty?", .atom "xs"], .atom "0",
    .call [.atom "+", .atom "1", .call [.atom "length", .call [.atom "rest", .atom "xs"]]]]

/-- The body of `nth`. -/
def nthBody : Expr :=
  .call [.atom "if", .call [.atom "=", .atom "n", .atom "0"], .call [.atom "first", .atom "xs"],
    .call [.atom "nth", .call [.atom "-", .atom "n", .atom "1"], .call [.atom "rest", .atom "xs"]]]

/-- The helpers: their names, parameters and bodies. -/
def helpers : List (String × List String × Expr) :=
  [("second", ["xs"], secondBody), ("empty?", ["xs"], emptyBody), ("length", ["xs"], lengthBody),
    ("nth", ["n", "xs"], nthBody)]

end Prelude

/-- Whether a session holds the helpers of the prelude, whatever numbers their fresh names have. -/
def Session.HoldsPrelude (s : Session) : Prop :=
  ∀ name params body, (name, params, body) ∈ Prelude.helpers →
    ∃ number, s.functions.find? name = some (hygienicFunction name params body number)

namespace Prelude

/-- The tokens of the definition of an alias for a listing of files with an option. -/
def aliasTokens (name option : String) : List Token :=
  [.lparen, .ident "alias", .ident name, .ident "ls", .ident option, .rparen]

/-- The tokens of the definition of `second`. -/
def secondTokens : List Token :=
  [.lparen, .ident "defun", .ident "second", .lparen, .ident "xs", .rparen,
    .lparen, .ident "first", .lparen, .ident "rest", .ident "xs", .rparen, .rparen, .rparen]

/-- The tokens of the definition of `empty?`. -/
def emptyTokens : List Token :=
  [.lparen, .ident "defun", .ident "empty?", .lparen, .ident "xs", .rparen,
    .lparen, .ident "=", .ident "xs", .quote, .lparen, .rparen, .rparen, .rparen]

/-- The tokens of the definition of `length`. -/
def lengthTokens : List Token :=
  [.lparen, .ident "defun", .ident "length", .lparen, .ident "xs", .rparen,
    .lparen, .ident "if", .lparen, .ident "empty?", .ident "xs", .rparen, .ident "0",
    .lparen, .ident "+", .ident "1", .lparen, .ident "length",
    .lparen, .ident "rest", .ident "xs", .rparen, .rparen, .rparen, .rparen, .rparen]

/-- The tokens of the definition of `nth`. -/
def nthTokens : List Token :=
  [.lparen, .ident "defun", .ident "nth", .lparen, .ident "n", .ident "xs", .rparen,
    .lparen, .ident "if", .lparen, .ident "=", .ident "n", .ident "0", .rparen,
    .lparen, .ident "first", .ident "xs", .rparen,
    .lparen, .ident "nth", .lparen, .ident "-", .ident "n", .ident "1", .rparen,
    .lparen, .ident "rest", .ident "xs", .rparen, .rparen, .rparen, .rparen]

set_option maxRecDepth 8000 in
/-- The text of the prelude has these tokens. -/
theorem scan_prelude :
    Token.scan Startup.prelude =
      ⟨aliasTokens "ll" "-l" ++ (aliasTokens "la" "-a" ++ (secondTokens ++ (emptyTokens ++
        (lengthTokens ++ (nthTokens ++ []))))), none⟩ := by
  -- the literal is taken apart once, not character by character
  have isText : Startup.prelude = String.ofList _ := rfl
  rw [isText, Token.scan, String.toList_ofList]
  rfl

section

variable [OperatingSystem]

/-- What direct evaluation finishes, evaluation finishes in the same way with limits to match. -/
theorem exec_run_of_exec_direct {limits : Limits} {depth : Nat} {isLine : Bool} {e : Expr}
    {course after : Course} {value : Expr} (depthFits : depth ≤ limits.depth)
    (stepsFit : depth ≤ limits.steps)
    (ended : (direct depth isLine e).exec course = (.ok value, after)) :
    (run limits isLine e).exec course = (.ok value, after) := by
  have isBelow : Run.Below (direct depth isLine e) (run limits isLine e) :=
    direct_below_evaluate stepsFit depthFits stepsFit depthFits stepsFit isLine true e
  rw [← ended]
  exact isBelow course (by rw [ended]; trivial)

section

variable {aliases : AliasTable} {definitions : Table Expr} {functions : Table Function}
  {status number : Nat} {world : World} {effects : List Effect}

/-- The definition of an alias for a listing of files is read and filed. -/
theorem exec_feedSource_alias {name option : String} (isName : name ≠ "")
    (noAlias : ∀ token ∈ aliasTokens name option, aliases.replacement? true token = none)
    (others : List Token) :
    ((Session.programReader .standard).feedSource false [] (aliasTokens name option ++ others)).exec
        ⟨⟨⟨aliases, definitions, functions, status, number⟩, world⟩, effects⟩ =
      ((Session.programReader .standard).feedSource false [] others).exec
        ⟨⟨⟨aliases.insert name ["ls", option], definitions, functions, status, number⟩, world⟩,
          effects⟩ := by
  let form : Expr := .call [.atom "alias", .atom name, .atom "ls", .atom option]
  have isRead : Reading.readForm 450 [] (aliasTokens name option) = .ok (form, []) := rfl
  have isAlias : Builtin.ofName? "alias" = some .defineAlias := by decide
  have evaluates : (run .standard false form).exec
      ⟨⟨⟨aliases, definitions, functions, status, number⟩, world⟩, effects⟩ =
        (.ok (.atom "created alias"),
          ⟨⟨⟨aliases.insert name ["ls", option], definitions, functions, status, number⟩, world⟩,
            effects⟩) := by
    have threeFit : 3 ≤ Limits.standard.depth ∧ 3 ≤ Limits.standard.steps := by decide
    refine exec_run_of_exec_direct threeFit.1 threeFit.2 ?_
    simp [form, direct, activate, headName, isAlias, Builtin.apply, Builtin.value,
      Definition.defineAlias, Definition.symbol, isName]
    rfl
  rw [ProgramReader.feedSource_append,
    Run.exec_bind_ok _ (Session.exec_feedSource_form isRead noAlias evaluates)]
  rfl

/-- The definition of a function is read and filed. -/
theorem exec_feedSource_defun {tokens : List Token} {name : String} {params body : Expr}
    (isRead : Reading.readForm 450 [] tokens = .ok (functionDefinition name params body, []))
    (noHead : Token.headFollows false tokens = false) (fitsParams : params.height ≤ 5)
    (fitsBody : body.callHeight ≤ 5) (isName : name ≠ "")
    (noAlias : ∀ token ∈ tokens, aliases.replacement? true token = none) (others : List Token) :
    ((Session.programReader .standard).feedSource false [] (tokens ++ others)).exec
        ⟨⟨⟨aliases, definitions, functions, status, number⟩, world⟩, effects⟩ =
      ((Session.programReader .standard).feedSource false [] others).exec
        ⟨⟨⟨aliases, definitions,
          functions.insert name (hygienicFunction name params.atoms body number), status,
          number + params.atoms.length⟩, world⟩, effects⟩ := by
  have sixFit : 6 ≤ Limits.standard.depth ∧ 6 ≤ Limits.standard.steps := by decide
  have evaluates := exec_run_of_exec_direct sixFit.1 sixFit.2
    (exec_direct_functionDefinition
      ⟨⟨⟨aliases, definitions, functions, status, number⟩, world⟩, effects⟩ fitsParams fitsBody
      isName false)
  rw [ProgramReader.feedSource_append,
    Run.exec_bind_ok _ (Session.exec_feedSource_form isRead noAlias evaluates), noHead]

end

/-- What a new session remembers once it has evaluated the prelude. -/
def loaded : Session where
  aliases := (Table.empty.insert "ll" ["ls", "-l"]).insert "la" ["ls", "-a"]
  definitions := .empty
  functions :=
    (((Table.empty.insert "second" (hygienicFunction "second" ["xs"] secondBody 0)).insert
      "empty?" (hygienicFunction "empty?" ["xs"] emptyBody 1)).insert
      "length" (hygienicFunction "length" ["xs"] lengthBody 2)).insert
      "nth" (hygienicFunction "nth" ["n", "xs"] nthBody 3)
  lastStatus := 0
  freshNames := 5

omit [OperatingSystem] in
/-- A new session that has evaluated the prelude holds it. -/
theorem holdsPrelude_loaded : loaded.HoldsPrelude := by
  intro name params body isHelper
  simp only [helpers, List.mem_cons, List.not_mem_nil, or_false, Prod.mk.injEq] at isHelper
  rcases isHelper with ⟨rfl, rfl, rfl⟩ | ⟨rfl, rfl, rfl⟩ | ⟨rfl, rfl, rfl⟩ | ⟨rfl, rfl, rfl⟩
  · exact ⟨0, rfl⟩
  · exact ⟨1, rfl⟩
  · exact ⟨2, rfl⟩
  · exact ⟨3, rfl⟩

/-- The packaged prelude is evaluated to its end in a new session, and does nothing to the world. -/
theorem exec_evalPrelude (world : World) (effects : List Effect) :
    (Startup.evalPrelude .standard .packaged).exec ⟨⟨.fresh, world⟩, effects⟩ =
      (.ok (), ⟨⟨loaded, world⟩, effects⟩) := by
  rw [Startup.evalPrelude, Session.evalProgram, ProgramReader.run, scan_prelude]
  have isRead : ((Session.programReader .standard).feedSource false []
      (aliasTokens "ll" "-l" ++ (aliasTokens "la" "-a" ++ (secondTokens ++ (emptyTokens ++
        (lengthTokens ++ (nthTokens ++ []))))))).exec ⟨⟨.fresh, world⟩, effects⟩ =
      (.ok [], ⟨⟨loaded, world⟩, effects⟩) := by
    rw [Session.fresh, exec_feedSource_alias (by decide) (by decide),
      exec_feedSource_alias (by decide) (by decide),
      exec_feedSource_defun rfl rfl (by decide) (by decide) (by decide) (by decide),
      exec_feedSource_defun rfl rfl (by decide) (by decide) (by decide) (by decide),
      exec_feedSource_defun rfl rfl (by decide) (by decide) (by decide) (by decide),
      exec_feedSource_defun rfl rfl (by decide) (by decide) (by decide) (by decide)]
    rfl
  rw [Run.exec_bind_ok _ isRead]
  rfl

end

end Prelude

end LispShell
