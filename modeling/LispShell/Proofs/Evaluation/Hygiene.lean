import LispShell.Proofs.Evaluation.Definitions
import LispShell.Proofs.Evaluation.Trampoline
import LispShell.Proofs.Expr.Substitution
import LispShell.Proofs.Session.FreshNames
import LispShell.Script.Run

/-! # Hygiene
The parameters of a function are renamed one by one when it is defined, and its arguments are put in
one by one when it is called. As long as nobody spells the fresh names by hand, the two rows of
replacements come to a single substitution at once of the arguments for the parameters. -/

namespace LispShell

/-- Whether none of the names is spelled where it could be taken for a parameter: in the pending
syntax of a body, among the parameters, or by an argument. -/
structure Unspelled (names params : List String) (body : Expr) (arguments : List Expr) :
    Prop where
  /-- No name is spelled in the body. -/
  inBody : ∀ name ∈ names, name ∉ body.spelled
  /-- No name is a parameter. -/
  asParam : ∀ name ∈ names, name ∉ params
  /-- No name is an argument. -/
  asArgument : ∀ name ∈ names, .atom name ∉ arguments

/-- A name that is not bound is not found among the bindings. -/
theorem lookup_zip_eq_none {α : Type} {names : List String} {name : String} (values : List α)
    (unbound : name ∉ names) : (names.zip values).lookup name = none := by
  refine List.lookup_eq_none_iff.mpr fun binding isIn => bne_iff_ne.mpr ?_
  rintro rfl
  exact unbound (List.of_mem_zip isIn).1

/-- A fresh name begins with a mark. -/
theorem Session.head?_freshName (name : String) (number : Nat) :
    (Session.freshName name number).toList.head? = some '#' := by
  simp [Session.freshName]

/-- Fresh names are not spelled by texts that do not begin with the mark. -/
theorem Unspelled.of_unmarked {number : Nat} {params : List String} {body : Expr}
    {arguments : List Expr} (inBody : ∀ text ∈ body.spelled, text.toList.head? ≠ some '#')
    (asParam : ∀ text ∈ params, text.toList.head? ≠ some '#')
    (asArgument : ∀ text, .atom text ∈ arguments → text.toList.head? ≠ some '#') :
    Unspelled (Session.freshNamesFrom number params) params body arguments := by
  have isMarked : ∀ name ∈ Session.freshNamesFrom number params,
      name.toList.head? = some '#' := by
    intro name isFresh
    obtain ⟨param, later, -, -, rfl⟩ := Session.exists_of_mem_freshNamesFrom isFresh
    exact Session.head?_freshName param later
  exact ⟨fun name isFresh isSpelled => inBody name isSpelled (isMarked name isFresh),
    fun name isFresh isParam => asParam name isParam (isMarked name isFresh),
    fun name isFresh isArgument => asArgument name isArgument (isMarked name isFresh)⟩

namespace Expr

/-- Names that are all different give way to exactly the values they are bound to. -/
theorem map_substituteAtOnce_names {names : List String} {values : List Expr}
    (distinct : names.Nodup) (sameLength : values.length = names.length) :
    names.map (fun name => (atom name).substituteAtOnce (names.zip values)) = values := by
  induction names generalizing values with
  | nil => exact (List.length_eq_zero_iff.mp sameLength).symm
  | cons name rest inductionHypothesis =>
    obtain ⟨value, others, rfl⟩ := List.exists_cons_of_length_eq_add_one sameLength
    obtain ⟨isNew, distinctRest⟩ := List.nodup_cons.mp distinct
    have others_eq := inductionHypothesis distinctRest (by simpa using sameLength)
    rw [List.zip_cons_cons, List.map_cons, List.cons.injEq]
    refine ⟨by simp, ?_⟩
    rw [← others_eq]
    refine List.map_congr_left fun other isIn => ?_
    have differs : (other == name) = false :=
      beq_false_of_ne fun same => isNew (same ▸ isIn)
    rw [substituteAtOnce_atom, substituteAtOnce_atom, List.lookup_cons, differs, others_eq]

end Expr

namespace Definition

/-- Renaming is to replace one parameter after the other by its fresh name. -/
theorem withFreshNames_eq_foldl (number : Nat) (body : Expr) (params : List String) :
    withFreshNames number body params =
      (params.zip ((Session.freshNamesFrom number params).map Expr.atom)).foldl
        (fun body binding => body.substitute binding.1 binding.2) body := by
  induction params generalizing number body with
  | nil => rfl
  | cons param rest inductionHypothesis => exact inductionHypothesis _ _

variable {number : Nat} {params : List String} {body : Expr} {arguments : List Expr}

/-- Renaming keeps the levels of pending syntax. -/
theorem callHeight_withFreshNames (number : Nat) (body : Expr) (params : List String) :
    (withFreshNames number body params).callHeight = body.callHeight := by
  induction params generalizing number body with
  | nil => rfl
  | cons param rest inductionHypothesis =>
    rw [withFreshNames, inductionHypothesis, Expr.callHeight_substitute rfl]

/-- Renaming is substitution at once of the fresh names, if none of them is a parameter. -/
theorem withFreshNames_eq_substituteAtOnce
    (asParam : ∀ name ∈ Session.freshNamesFrom number params, name ∉ params) :
    withFreshNames number body params =
      body.substituteAtOnce
        (params.zip ((Session.freshNamesFrom number params).map Expr.atom)) := by
  rw [withFreshNames_eq_foldl]
  refine Expr.foldl_substitute_eq_substituteAtOnce (fun binding isIn text isSpelled => ?_) body
  obtain ⟨name, isFresh, isAtom⟩ := List.mem_map.mp (List.of_mem_zip isIn).2
  rw [← isAtom, Expr.spelled, List.mem_singleton] at isSpelled
  subst isSpelled
  exact lookup_zip_eq_none _ (asParam _ isFresh)

/-- To rename the parameters one by one and then to put in the arguments one by one is to substitute
the arguments for the parameters at once. -/
theorem foldl_substitute_withFreshNames (sameLength : arguments.length = params.length)
    (noSyntax : ∀ items, .call items ∉ arguments)
    (unspelled : Unspelled (Session.freshNamesFrom number params) params body arguments) :
    ((Session.freshNamesFrom number params).zip arguments).foldl
        (fun body binding => body.substitute binding.1 binding.2)
        (withFreshNames number body params) =
      body.substituteAtOnce (params.zip arguments) := by
  have inert : ∀ binding ∈ (Session.freshNamesFrom number params).zip arguments,
      ∀ text ∈ binding.2.spelled,
        ((Session.freshNamesFrom number params).zip arguments).lookup text = none := by
    rintro ⟨name, argument⟩ isIn text isSpelled
    have isArgument := (List.of_mem_zip isIn).2
    refine lookup_zip_eq_none _ fun isFresh => ?_
    cases argument with
    | atom other =>
      rw [Expr.spelled, List.mem_singleton] at isSpelled
      exact unspelled.asArgument text isFresh (isSpelled ▸ isArgument)
    | call items => exact noSyntax items isArgument
    | list items => simp [Expr.spelled] at isSpelled
  have apart : ∀ text ∈ body.spelled,
      (params.zip ((Session.freshNamesFrom number params).map Expr.atom)).lookup text = none →
        ((Session.freshNamesFrom number params).zip arguments).lookup text = none :=
    fun text isSpelled _ =>
      lookup_zip_eq_none _ fun isFresh => unspelled.inBody text isFresh isSpelled
  have putIn := Expr.map_substituteAtOnce_names (Session.nodup_freshNamesFrom number params)
    (sameLength.trans (Session.length_freshNamesFrom number params).symm)
  rw [Expr.foldl_substitute_eq_substituteAtOnce inert,
    withFreshNames_eq_substituteAtOnce unspelled.asParam,
    Expr.substituteAtOnce_substituteAtOnce apart]
  congr 1
  calc _ = params.zip (((Session.freshNamesFrom number params).map Expr.atom).map
            (Expr.substituteAtOnce ((Session.freshNamesFrom number params).zip arguments))) :=
          (List.zip_map_right).symm
    _ = params.zip arguments := by rw [List.map_map]; exact congrArg _ putIn

/-- With room for the body, renaming comes to its end. -/
theorem exec_renameParams_of_fits (operands : Operands) (fits : body.callHeight ≤ operands.room)
    (params : List String) (course : Course) :
    (renameParams operands body params).exec course =
      (.ok (Session.freshNamesFrom course.shell.session.freshNames params,
          withFreshNames course.shell.session.freshNames body params),
        ⟨⟨countNames course.shell.session params.length, course.shell.world⟩,
          course.effects⟩) := by
  induction params generalizing body course with
  | nil => rfl
  | cons param rest inductionHypothesis =>
    let number := course.shell.session.freshNames
    let named : Course :=
      ⟨⟨countNames course.shell.session 1, course.shell.world⟩, course.effects⟩
    let renamed := body.substitute param (.atom (Session.freshName param number))
    have fresh : (freshName param).exec course = (.ok (Session.freshName param number), named) :=
      rfl
    have fitsRenamed : renamed.callHeight ≤ operands.room := by
      rwa [Expr.callHeight_substitute rfl]
    rw [renameParams, Run.exec_bind_ok course fresh, Operands.substitute, Operands.within,
      if_pos fits, pure_bind, Run.exec_bind_ok named (inductionHypothesis fitsRenamed named)]
    have counted : countNames named.shell.session rest.length =
        countNames course.shell.session (rest.length + 1) := by
      simp only [named, countNames, Nat.add_assoc, Nat.add_comm 1]
    rw [counted]
    rfl

end Definition

namespace Evaluation

/-- With room for the body, arguments are put in one after the other. -/
theorem substituteParams_of_fits {room : Nat} {body : Expr} (fits : body.callHeight ≤ room)
    {bindings : List (String × Expr)} (areFlat : ∀ binding ∈ bindings, binding.2.callHeight = 1) :
    substituteParams room body bindings =
      pure (bindings.foldl (fun body binding => body.substitute binding.1 binding.2) body) := by
  induction bindings generalizing body with
  | nil => rfl
  | cons binding rest inductionHypothesis =>
    obtain ⟨isFlat, areFlatRest⟩ := List.forall_mem_cons.mp areFlat
    have fitsStill : (body.substitute binding.1 binding.2).callHeight ≤ room := by
      rwa [Expr.callHeight_substitute isFlat]
    rw [substituteParams, Operands.substitute, Operands.within, if_pos fits, pure_bind,
      inductionHypothesis fitsStill areFlatRest, List.foldl_cons]

/-- The function that is filed for a name, parameters and a body when the given number of fresh
names have been made. -/
def hygienicFunction (name : String) (params : List String) (body : Expr) (number : Nat) :
    Function :=
  ⟨name, Session.freshNamesFrom number params, Definition.withFreshNames number body params⟩

/-- With room for the body, a function is instantiated by substitution at once. -/
theorem instantiate_hygienicFunction {room number : Nat} {name : String} {params : List String}
    {body : Expr} {arguments : List Expr} (fits : body.callHeight ≤ room)
    (sameLength : arguments.length = params.length) (noSyntax : ∀ items, .call items ∉ arguments)
    (unspelled : Unspelled (Session.freshNamesFrom number params) params body arguments) :
    instantiate room (hygienicFunction name params body number) arguments =
      pure (body.substituteAtOnce (params.zip arguments)) := by
  have fitsRenamed : (Definition.withFreshNames number body params).callHeight ≤ room := by
    rwa [Definition.callHeight_withFreshNames]
  have areFlat : ∀ binding ∈ (Session.freshNamesFrom number params).zip arguments,
      binding.2.callHeight = 1 := by
    rintro ⟨fresh, argument⟩ isIn
    cases argument with
    | atom text => rfl
    | call items => exact absurd (List.of_mem_zip isIn).2 (noSyntax items)
    | list items => rfl
  have asMany : arguments.length = (Session.freshNamesFrom number params).length :=
    sameLength.trans (Session.length_freshNamesFrom number params).symm
  rw [instantiate, hygienicFunction, if_pos asMany, substituteParams_of_fits fitsRenamed areFlat,
    Definition.foldl_substitute_withFreshNames sameLength noSyntax unspelled]

/-- The expression that defines a function: `(defun name params body)`. -/
def functionDefinition (name : String) (params body : Expr) : Expr :=
  .call [.atom "defun", .atom name, params, body]

section

variable [OperatingSystem] {name : String} {params body : Expr} {course : Course}

/-- With room for the parameters and the body, the definition of a function files it with its
parameters renamed. -/
theorem exec_direct_functionDefinition (course : Course) {depth : Nat}
    (fitsParams : params.height ≤ depth) (fitsBody : body.callHeight ≤ depth) (isSymbol : name ≠ "")
    (isLine : Bool) :
    (direct (depth + 1) isLine (functionDefinition name params body)).exec course =
      (.ok (Definition.defined name),
        { course with
          shell.session :=
            { course.shell.session with
              functions := course.shell.session.functions.insert name
                (hygienicFunction name params.atoms body course.shell.session.freshNames)
              freshNames := course.shell.session.freshNames + params.atoms.length } }) := by
  let operands : Operands := ⟨depth, direct depth false⟩
  have isDefinition : Builtin.ofName? "defun" = some .defineFunction := by decide
  have takenAsName : Definition.symbol operands .defineFunction (.atom name) = pure name := by
    simp [Definition.symbol, isSymbol]
  have takenAsParams : Operands.within depth params.height params.atoms = pure params.atoms := by
    rw [Operands.within, if_pos fitsParams]
  have renamed :=
    Definition.exec_renameParams_of_fits operands fitsBody params.atoms course
  rw [direct, functionDefinition, activate, headName, pure_bind]
  simp only [isDefinition]
  rw [Builtin.apply, Builtin.value, Definition.defineFunction, takenAsName, pure_bind,
    takenAsParams, pure_bind]
  simp only [bind_assoc]
  rw [Run.exec_bind_ok course renamed]
  rfl

/-- A call of a function evaluates the operands and then the body with their values in place. -/
theorem exec_direct_call (depth : Nat) (isLine : Bool) {function : Function}
    (notBuiltin : Builtin.ofName? name = none)
    (isFiled : course.shell.session.functions.find? name = some function) (es : List Expr) :
    (direct (depth + 1) isLine (.call (.atom name :: es))).exec course =
      (es.mapM (direct depth false) >>= fun arguments =>
        instantiate depth function arguments >>= direct depth false).exec course := by
  rw [direct, activate, headName, pure_bind]
  simp only [notBuiltin]
  rw [Run.exec_bind_ok course (Run.exec_session course), isFiled]

variable {after : Course} {arguments es : List Expr} {ending : Except Halt Expr × Course}

/-- Evaluating operands in a row comes to the same ends in both evaluators. -/
theorem ends_mapM_run_iff_ends_mapM_direct {ending : Except Halt (List Expr) × Course} :
    Run.Ends (fun limits => es.mapM (run limits false)) course ending ↔
      Run.Ends (fun depth => es.mapM (direct depth false)) course ending := by
  constructor
  · refine Run.Ends.below fun limits => ?_
    obtain ⟨depth, isBelow⟩ := runIn_below_direct limits
    exact ⟨depth, .mapM (isBelow false true) es⟩
  · refine Run.Ends.below fun depth => ?_
    exact ⟨⟨depth, depth⟩, .mapM (direct_below_runIn depth false true) es⟩

/-- Where the operands of a call come to values and the function, given room, puts them into its
body, the call comes to the ends of the body with the values in place. -/
theorem ends_run_call_iff {function : Function} {inPlace : Expr} {enough : Nat}
    (notBuiltin : Builtin.ofName? name = none)
    (isFiled : course.shell.session.functions.find? name = some function)
    (instantiated : ∀ room, enough ≤ room →
      instantiate room function arguments = pure inPlace)
    (ends : Run.Ends (fun limits => es.mapM (run limits false)) course (.ok arguments, after))
    (isLine : Bool) :
    Run.Ends (fun limits => run limits isLine (.call (.atom name :: es))) course ending ↔
      Run.Ends (fun limits => run limits false inPlace) after ending := by
  let next (bound : Nat) (values : List Expr) : Run Expr :=
    instantiate (bound + enough) function values >>= direct (bound + enough) false
  have next_arguments (bound : Nat) :
      next bound arguments = direct (bound + enough) false inPlace := by
    simp only [next, instantiated _ (Nat.le_add_left enough bound), pure_bind]
  have operandsGrow {less more : Nat} (fits : less ≤ more) :
      Run.Below (es.mapM (direct less false)) (es.mapM (direct more false)) :=
    .mapM (direct_below fits false) es
  have endsDirect : Run.Ends (fun bound => es.mapM (direct (bound + enough) false)) course
      (.ok arguments, after) :=
    (Run.Ends.from_iff operandsGrow enough).mpr (ends_mapM_run_iff_ends_mapM_direct.mp ends)
  calc Run.Ends (fun limits => run limits isLine (.call (.atom name :: es))) course ending
      ↔ Run.Ends (fun depth => direct depth isLine (.call (.atom name :: es))) course ending :=
        ends_run_iff_ends_direct
    _ ↔ Run.Ends (fun bound => direct (bound + (enough + 1)) isLine (.call (.atom name :: es)))
          course ending :=
        (Run.Ends.from_iff (fun fits => direct_below fits isLine _) (enough + 1)).symm
    _ ↔ Run.Ends (fun bound => es.mapM (direct (bound + enough) false) >>= next bound) course
          ending :=
        Run.Ends.congr fun bound => exec_direct_call (bound + enough) isLine notBuiltin isFiled es
    _ ↔ Run.Ends (fun bound => next bound arguments) after ending := by
        refine Run.Ends.bind_iff (fun fits => operandsGrow (by omega)) (fun fits => ?_) endsDirect
        rw [next_arguments, next_arguments]
        exact direct_below (by omega) false inPlace
    _ ↔ Run.Ends (fun bound => direct (bound + enough) false inPlace) after ending := by
        simp only [next_arguments]
    _ ↔ Run.Ends (fun depth => direct depth false inPlace) after ending :=
        Run.Ends.from_iff (fun fits => direct_below fits false inPlace) enough
    _ ↔ Run.Ends (fun limits => run limits false inPlace) after ending :=
        ends_run_iff_ends_direct.symm

/-- A function is applied by substitution at once. What a definition files for a name is a function
that, given values as arguments, evaluates the body with every atom in its pending syntax that is
spelled like a parameter replaced by the value of the first parameter spelled so. The values are put
in as they are, even if they are spelled like another parameter, and the lists of the body stay as
they are. This only takes that nobody spells the fresh names of the parameters by hand. -/
theorem application_substitutes_at_once (isSymbol : name ≠ "") (params body : Expr)
    (course : Course) :
    ∃ function : Function,
      (∀ isLine, Run.Ends (fun limits => run limits isLine (functionDefinition name params body))
        course
        (.ok (Definition.defined name),
          { course with
            shell.session :=
              { course.shell.session with
                functions := course.shell.session.functions.insert name function
                freshNames := course.shell.session.freshNames + params.atoms.length } })) ∧
      ∀ arguments : List Expr, arguments.length = params.atoms.length →
        (∀ items, .call items ∉ arguments) →
        Unspelled (Session.freshNamesFrom course.shell.session.freshNames params.atoms)
          params.atoms body arguments →
        (∀ room, body.callHeight ≤ room →
          instantiate room function arguments =
            pure (body.substituteAtOnce (params.atoms.zip arguments))) ∧
        ∀ (later after : Course) (es : List Expr), Builtin.ofName? name = none →
          later.shell.session.functions.find? name = some function →
          Run.Ends (fun limits => es.mapM (run limits false)) later (.ok arguments, after) →
          ∀ isLine ending,
            Run.Ends (fun limits => run limits isLine (.call (.atom name :: es))) later ending ↔
              Run.Ends
                (fun limits =>
                  run limits false (body.substituteAtOnce (params.atoms.zip arguments)))
                after ending := by
  let number := course.shell.session.freshNames
  refine ⟨hygienicFunction name params.atoms body number, fun isLine => ?_,
    fun arguments sameLength noSyntax unspelled => ?_⟩
  · have filed := exec_direct_functionDefinition course
      (Nat.le_max_left params.height body.callHeight) (Nat.le_max_right _ _) isSymbol isLine
    exact ends_run_iff_ends_direct.mpr ⟨_, filed, trivial⟩
  · have instantiated (room : Nat) (fits : body.callHeight ≤ room) :
        instantiate room (hygienicFunction name params.atoms body number) arguments =
          pure (body.substituteAtOnce (params.atoms.zip arguments)) :=
      instantiate_hygienicFunction fits sameLength noSyntax unspelled
    refine ⟨instantiated, fun later after es notBuiltin isFiled ends isLine ending => ?_⟩
    exact ends_run_call_iff notBuiltin isFiled instantiated ends isLine

end

/-- In a fresh session, after `(defun pair (x y x) (list x '(x) y))`, the call `(pair y x z)` gives
`(y (x) x)`: the first `x` counts, the arguments do not replace each other, and the list stays. -/
theorem application_of_pair :
    Unspelled (Session.freshNamesFrom 0 ["x", "y", "x"]) ["x", "y", "x"]
      (.call [.atom "list", .atom "x", .list [.atom "x"], .atom "y"])
      [.atom "y", .atom "x", .atom "z"] ∧
    ∃ defined : Course,
      Run.Ends
        (fun limits => run limits true
          (functionDefinition "pair" (.call [.atom "x", .atom "y", .atom "x"])
            (.call [.atom "list", .atom "x", .list [.atom "x"], .atom "y"])))
        ⟨⟨.fresh, .ofFiles .empty⟩, []⟩ (.ok (.atom "defined pair"), defined) ∧
      Run.Ends
        (fun limits => run limits true (.call [.atom "pair", .atom "y", .atom "x", .atom "z"]))
        defined (.ok (.list [.atom "y", .list [.atom "x"], .atom "x"]), defined) := by
  let course : Course := ⟨⟨.fresh, .ofFiles .empty⟩, []⟩
  let body : Expr := .call [.atom "list", .atom "x", .list [.atom "x"], .atom "y"]
  let arguments : List Expr := [.atom "y", .atom "x", .atom "z"]
  have unspelled : Unspelled (Session.freshNamesFrom 0 ["x", "y", "x"]) ["x", "y", "x"] body
      arguments :=
    ⟨by decide, by decide, by decide⟩
  have isSymbol : "pair" ≠ "" := by decide
  obtain ⟨function, filed, applied⟩ := application_substitutes_at_once isSymbol
    (.call [.atom "x", .atom "y", .atom "x"]) body course
  let defined : Course :=
    ⟨⟨⟨.empty, .empty, Table.empty.insert "pair" function, 0, 3⟩, course.shell.world⟩, []⟩
  have isFiled : defined.shell.session.functions.find? "pair" = some function :=
    Table.find?_insert .empty "pair" "pair" function
  have inPlace := (applied arguments rfl (by simp [arguments]) unspelled).2 defined defined
    arguments (by decide) isFiled ⟨⟨9, 9⟩, rfl, trivial⟩ true
      (.ok (.list [.atom "y", .list [.atom "x"], .atom "x"]), defined)
  exact ⟨unspelled, defined, filed true, inPlace.mpr ⟨⟨9, 9⟩, rfl, trivial⟩⟩

end Evaluation

end LispShell
