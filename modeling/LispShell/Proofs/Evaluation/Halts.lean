import LispShell.Evaluation.Evaluator
import LispShell.Proofs.Run.Halts

/-! # Halts of evaluation
What evaluation may come to a halt for. A text is refused for its looks only where the form of a
number alone does not make one, and the faults of the world come only in a world that has them: one
whose working directory was removed, in which the user has no home directory, or whose character set
does not cover a name. Nothing that evaluation does is a fault of reading, of printing or of
startup. -/

namespace LispShell

/-- Whether evaluation may come to the halt in a world. -/
def Halt.OfEvaluation (world : World) : Halt → Prop
  | .fault (.unreadable _) => False
  | .fault .printingTooDeep => False
  | .fault .promptTooDeep => False
  | .fault (.startupUnreadable _) => False
  | .fault .noStartupPath => False
  | .fault (.unprintable _) => False
  | .fault (.lookalikeNumber text) => Numeral.read text = .error .lookalike
  | .fault (.uncodedVariableName report) => ∃ name, world.names.check name = .error report
  | .fault (.noWorkingDirectory refusal) => world.workingDirectoryPath = .error refusal
  | .fault .noHomeDirectory => world.home? = none
  | _ => True

namespace Run

/-- Whether the run comes only to halts of evaluation. -/
abbrev Evaluates {α : Type} (run : Run α) : Prop :=
  run.HaltsOnly Halt.OfEvaluation

end Run

namespace Operands

/-! ## Operands -/

/-- Going on within the room that is left. -/
theorem evaluates_within {α : Type} (room levels : Nat) (result : α) :
    (within room levels result).Evaluates := by
  unfold within
  split
  · exact .pure result
  · exact .fail fun _ => trivial

/-- Reading a number. -/
theorem evaluates_number (room : Nat) (e : Expr) : (number room e).Evaluates := by
  refine (evaluates_within _ _ _).bind fun text => ?_
  split
  · exact .pure _
  · exact .fail fun _ => trivial
  next isLookalike => exact .fail fun _ => isLookalike

end Operands

/-! ## Definitions -/

namespace Definition

variable {operands : Operands}

/-- Making a fresh name. -/
theorem evaluates_freshName (param : String) : (freshName param).Evaluates :=
  Run.HaltsOnly.session.bind fun _ => (Run.HaltsOnly.changeSession _).bind fun _ => .pure _

/-- The symbol that an operand is. -/
theorem evaluates_symbol (builtin : Builtin) (e : Expr) :
    (symbol operands builtin e).Evaluates := by
  cases e with
  | atom text =>
    rw [symbol]
    split
    · exact .fail fun _ => trivial
    · exact .pure text
  | call items => exact (Operands.evaluates_within _ _ _).bind fun _ => .fail fun _ => trivial
  | list items => exact (Operands.evaluates_within _ _ _).bind fun _ => .fail fun _ => trivial

/-- Definition of a name. -/
theorem evaluates_define (es : List Expr) : (define operands es).Evaluates := by
  unfold define
  split
  · exact (evaluates_symbol _ _).bind fun _ => (Run.HaltsOnly.changeSession _).bind fun _ => .pure _
  · exact .fail fun _ => trivial

/-- Renaming the parameters of a body. -/
theorem evaluates_renameParams (body : Expr) (params : List String) :
    (renameParams operands body params).Evaluates := by
  induction params generalizing body with
  | nil => exact .pure _
  | cons param rest inductionHypothesis =>
    refine (evaluates_freshName param).bind fun name => ?_
    refine (Operands.evaluates_within _ _ _).bind fun renamed => ?_
    exact (inductionHypothesis renamed).bind fun _ => .pure _

/-- Definition of a function. -/
theorem evaluates_defineFunction (es : List Expr) :
    (defineFunction operands es).Evaluates := by
  unfold defineFunction
  split
  · refine (evaluates_symbol _ _).bind fun name => ?_
    refine (Operands.evaluates_within _ _ _).bind fun atoms => ?_
    refine (evaluates_renameParams _ atoms).bind fun renamed => ?_
    exact (Run.HaltsOnly.changeSession _).bind fun _ => .pure _
  · exact .fail fun _ => trivial

/-- The texts that an operand contributes to an alias. -/
theorem evaluates_replacementTexts (e : Expr) :
    (replacementTexts operands e).Evaluates := by
  cases e with
  | atom text => exact .pure [text]
  | call items => exact .mapM (fun _ => Operands.evaluates_within _ _ _) items
  | list items => exact .mapM (fun _ => Operands.evaluates_within _ _ _) items

/-- Definition of an alias. -/
theorem evaluates_defineAlias (es : List Expr) : (defineAlias operands es).Evaluates := by
  unfold defineAlias
  split
  · refine (evaluates_symbol _ _).bind fun name => ?_
    refine (Run.HaltsOnly.mapM evaluates_replacementTexts _).bind fun _ => ?_
    exact (Run.HaltsOnly.changeSession _).bind fun _ => .pure _
  · exact .fail fun _ => trivial

/-- The bindings that an operand lists. -/
theorem evaluates_bindings (e : Expr) : (bindings operands e).Evaluates := by
  unfold bindings
  split
  · exact (Operands.evaluates_within _ _ _).bind fun _ => .fail fun _ => trivial
  · split
    · exact .pure _
    · exact (Operands.evaluates_within _ _ _).bind fun _ => .fail fun _ => trivial

end Definition

namespace Sequence

/-- No first item is no fault but one of evaluation. -/
theorem ofEvaluation_of_first? {value : Expr} {cause : Fault}
    (refused : first? value = .error cause) (world : World) :
    Halt.OfEvaluation world (.fault cause) := by
  unfold first? at refused
  repeat' split at refused
  all_goals cases refused
  all_goals trivial

/-- Nothing to leave the first item out of is no fault but one of evaluation. -/
theorem ofEvaluation_of_rest? {value : Expr} {cause : Fault}
    (refused : rest? value = .error cause) (world : World) :
    Halt.OfEvaluation world (.fault cause) := by
  unfold rest? at refused
  split at refused <;> cases refused
  trivial

end Sequence

/-! ## Functions and programs -/

namespace Evaluation

/-- Substitution of arguments for parameters. -/
theorem evaluates_substituteParams (room : Nat) (body : Expr)
    (pairs : List (String × Expr)) :
    (substituteParams room body pairs).Evaluates := by
  induction pairs generalizing body with
  | nil => exact .pure body
  | cons pair rest inductionHypothesis =>
    exact (Operands.evaluates_within _ _ _).bind fun substituted => inductionHypothesis substituted

/-- The body of a function with its arguments in place. -/
theorem evaluates_instantiate (room : Nat) (function : Function) (arguments : List Expr) :
    (instantiate room function arguments).Evaluates := by
  unfold instantiate
  split
  · exact evaluates_substituteParams _ _ _
  · exact .fail fun _ => trivial

end Evaluation

/-- Running a program. -/
theorem Command.evaluates_runProcess [OperatingSystem] (path : String) (arguments : List String)
    (capture : Bool) : (runProcess path arguments capture).Evaluates := by
  refine Run.HaltsOnly.effects.bind fun past => ?_
  refine (Run.HaltsOnly.consult fun _ _ _ => trivial).bind fun ⟨result, world⟩ => ?_
  exact (Run.HaltsOnly.perform _ _).bind fun _ => .pure _

/-- Looking up the home directory. -/
theorem evaluates_home : Run.home.Evaluates := by
  refine .consult fun world _ isUnknown => ?_
  cases isHome : world.home? with
  | none => exact isHome
  | some home =>
    rw [isHome] at isUnknown
    cases isUnknown

/-- Entering the directory at a path. -/
theorem Environment.evaluates_enterAt (path : String) : (enterAt path).Evaluates := by
  refine (Run.HaltsOnly.tryPerform _ _ fun _ _ => trivial).bind fun _ => ?_
  refine (Run.HaltsOnly.consult fun _ _ isRefused => isRefused).bind fun here => ?_
  exact (Run.HaltsOnly.perform _ _).bind fun _ => .pure _

/-- A program cannot be looked up only if the path of the working directory is needed and there is
none. -/
theorem World.workingDirectoryPath_of_findProgram {world : World}
    {name : String} {refusal : Refusal} (isRefused : world.findProgram name = .error refusal) :
    world.workingDirectoryPath = .error refusal := by
  unfold findProgram at isRefused
  split at isRefused
  · cases isRefused
  · split at isRefused
    · unfold absolutePath at isRefused
      split at isRefused
      · cases isRefused
      · cases isPath : world.workingDirectoryPath with
        | error other =>
          rw [isPath] at isRefused
          cases isRefused
          rfl
        | ok path =>
          rw [isPath] at isRefused
          cases isRefused
    · cases isRefused

/-- Whether the evaluation of operands comes only to halts of evaluation. -/
def Operands.Evaluate (operands : Operands) : Prop :=
  ∀ e, (operands.value e).Evaluates

namespace Operands.Evaluate

variable {operands : Operands} (ops : operands.Evaluate)
include ops

/-- The text of an operand. -/
theorem text (e : Expr) : (operands.text e).Evaluates :=
  (ops e).bind fun _ => evaluates_within _ _ _

/-- The number of an operand. -/
theorem numeric (e : Expr) : (operands.numeric e).Evaluates :=
  (ops e).bind fun _ => evaluates_number _ _

/-- The truth of an operand. -/
theorem isTrue (e : Expr) : (operands.isTrue e).Evaluates :=
  (ops.text e).bind fun _ => .pure _

/-! ## Arithmetic and logic -/

/-- A fold over numbers. -/
theorem fold (combine : Float → Float → Float) (neutral : Float) (es : List Expr) :
    (Arithmetic.fold operands combine neutral es).Evaluates := by
  induction es generalizing neutral with
  | nil => exact .pure _
  | cons e rest inductionHypothesis =>
    exact (ops.numeric e).bind fun x => inductionHypothesis (combine neutral x)

/-- An operation on two numbers. -/
theorem binary (builtin : Builtin) (combine : Float → Float → Expr) (es : List Expr) :
    (Arithmetic.binary operands builtin combine es).Evaluates := by
  unfold Arithmetic.binary
  split
  · exact (ops.numeric _).bind fun _ => (ops.numeric _).bind fun _ => .pure _
  · exact .fail fun _ => trivial

/-- Conjunction. -/
theorem all (soFar : Bool) (es : List Expr) : (Logic.all operands soFar es).Evaluates := by
  induction es generalizing soFar with
  | nil => exact .pure _
  | cons e rest inductionHypothesis =>
    exact (ops.isTrue e).bind fun truth => inductionHypothesis (truth && soFar)

/-- Disjunction. -/
theorem any (soFar : Bool) (es : List Expr) : (Logic.any operands soFar es).Evaluates := by
  induction es generalizing soFar with
  | nil => exact .pure _
  | cons e rest inductionHypothesis =>
    exact (ops.isTrue e).bind fun truth => inductionHypothesis (truth || soFar)

/-- Negation. -/
theorem negate (es : List Expr) : (Logic.negate operands es).Evaluates := by
  unfold Logic.negate
  split
  · refine (ops _).bind fun value => ?_
    split
    · exact .pure _
    · exact .fail fun _ => trivial
  · exact .fail fun _ => trivial

/-- Equality. -/
theorem equal (es : List Expr) : (Logic.equal operands es).Evaluates := by
  unfold Logic.equal
  split
  · exact (ops _).bind fun _ => (ops _).bind fun _ => evaluates_within _ _ _
  · exact .fail fun _ => trivial

/-! ## Sequences -/

/-- An operation on the only operand. -/
theorem unary (builtin : Builtin) {operation : Expr → Except Fault Expr}
    (refuses : ∀ {value cause}, operation value = .error cause →
      ∀ world, Halt.OfEvaluation world (.fault cause))
    (es : List Expr) : (Sequence.unary operands builtin operation es).Evaluates := by
  unfold Sequence.unary
  split
  · refine (ops _).bind fun value => ?_
    unfold within
    split
    · exact .ofExcept fun cause isError => refuses isError
    · exact .fail fun _ => trivial
  · exact .fail fun _ => trivial

/-- The list of the values of the operands. -/
theorem list (es : List Expr) : (Sequence.list operands es).Evaluates :=
  (Run.HaltsOnly.mapM ops es).bind fun _ => .pure _

/-- One value put before another. -/
theorem cons (es : List Expr) : (Sequence.cons operands es).Evaluates := by
  unfold Sequence.cons
  split
  · refine (ops _).bind fun item => (ops _).bind fun sequence => ?_
    refine .ofExcept fun cause isError world => ?_
    unfold Sequence.cons? at isError
    repeat' split at isError
    all_goals cases isError
    all_goals trivial
  · exact .fail fun _ => trivial

/-- Substitution of the values of bindings. -/
theorem substituteBindings (body : Expr) (pairs : List (String × Expr)) :
    (Definition.substituteBindings operands body pairs).Evaluates := by
  induction pairs generalizing body with
  | nil => exact .pure body
  | cons pair rest inductionHypothesis =>
    exact (ops pair.2).bind fun value =>
      (evaluates_within _ _ _).bind fun substituted => inductionHypothesis substituted

/-! ## The world -/

/-- Entering a directory. -/
theorem enter (es : List Expr) : (Environment.enter operands es).Evaluates := by
  unfold Environment.enter
  split
  · exact evaluates_home.bind Environment.evaluates_enterAt
  · exact (ops.text _).bind Environment.evaluates_enterAt
  · exact .fail fun _ => trivial

/-- Ending the session. -/
theorem exit (es : List Expr) : (Environment.exit operands es).Evaluates := by
  unfold Environment.exit
  split
  · exact .throw fun _ => trivial
  · refine (ops _).bind fun value => (evaluates_number _ _).bind fun status => ?_
    split
    · exact .throw fun _ => trivial
    · exact .fail fun _ => trivial
  · exact .fail fun _ => trivial

/-- Reading a variable. -/
theorem getVariable (es : List Expr) : (Environment.getVariable operands es).Evaluates := by
  unfold Environment.getVariable
  split
  · refine (ops.text _).bind fun name => ?_
    refine (Run.HaltsOnly.consult fun world report isRefused => ⟨name, isRefused⟩).bind fun _ => ?_
    refine Run.HaltsOnly.world.bind fun world => ?_
    split
    · exact .pure _
    · exact .fail fun _ => trivial
  · exact .fail fun _ => trivial

/-- Setting a variable. -/
theorem setVariable (es : List Expr) : (Environment.setVariable operands es).Evaluates := by
  unfold Environment.setVariable
  split
  · refine (ops.text _).bind fun name => (ops.text _).bind fun value => ?_
    refine Run.HaltsOnly.world.bind fun world => ?_
    split
    next cause isRefused =>
      unfold Environment.variableFault? at isRefused
      repeat' split at isRefused
      all_goals cases isRefused
      all_goals exact .fail fun _ => trivial
    · exact (Run.HaltsOnly.perform _ _).bind fun _ => .pure _
  · exact .fail fun _ => trivial

/-- Storing a text. -/
theorem store (builtin : Builtin) (mode : FileTree.WriteMode) (es : List Expr) :
    (Environment.store operands builtin mode es).Evaluates := by
  unfold Environment.store
  split
  · refine (ops.text _).bind fun content => (ops.text _).bind fun path => ?_
    exact (Run.HaltsOnly.tryPerform _ _ fun _ _ => trivial).bind fun _ => .pure _
  · exact .fail fun _ => trivial

/-- Reading a file. -/
theorem read (es : List Expr) : (Environment.read operands es).Evaluates := by
  unfold Environment.read
  split
  · refine (ops.text _).bind fun path => ?_
    exact (Run.HaltsOnly.consult fun _ _ _ => trivial).bind fun _ => .pure _
  · exact .fail fun _ => trivial

/-! ## All builtins -/

/-- The choice between two branches. -/
theorem choose (es : List Expr) : (Builtin.choose operands es).Evaluates := by
  unfold Builtin.choose
  split
  · exact (ops.isTrue _).bind fun _ => .pure _
  · exact .fail fun _ => trivial

/-- Local bindings. -/
theorem bindLocally (es : List Expr) : (Builtin.bindLocally operands es).Evaluates := by
  unfold Builtin.bindLocally
  split
  · exact (Definition.evaluates_bindings _).bind fun pairs => ops.substituteBindings _ pairs
  · exact .fail fun _ => trivial

/-- Every builtin. -/
theorem builtinValue (builtin : Builtin) (es : List Expr) :
    (builtin.value operands es).Evaluates := by
  cases builtin with
  | add => exact ops.fold _ _ es
  | multiply => exact ops.fold _ _ es
  | subtract => exact ops.binary _ _ es
  | divide => exact ops.binary _ _ es
  | remainder => exact ops.binary _ _ es
  | power => exact ops.binary _ _ es
  | less => exact ops.binary _ _ es
  | greater => exact ops.binary _ _ es
  | lessOrEqual => exact ops.binary _ _ es
  | greaterOrEqual => exact ops.binary _ _ es
  | equal => exact ops.equal es
  | ifThenElse => exact ops.choose es
  | all => exact ops.all true es
  | any => exact ops.any false es
  | negate => exact ops.negate es
  | first => exact ops.unary _ Sequence.ofEvaluation_of_first? es
  | rest => exact ops.unary _ Sequence.ofEvaluation_of_rest? es
  | list => exact ops.list es
  | cons => exact ops.cons es
  | define => exact Definition.evaluates_define es
  | defineFunction => exact Definition.evaluates_defineFunction es
  | defineAlias => exact Definition.evaluates_defineAlias es
  | bind => exact ops.bindLocally es
  | enter => exact ops.enter es
  | exit => exact ops.exit es
  | getVariable => exact ops.getVariable es
  | setVariable => exact ops.setVariable es
  | write => exact ops.store _ _ es
  | append => exact ops.store _ _ es
  | read => exact ops.read es

/-! ## Commands and activations -/

/-- The name that a head stands for. -/
theorem headName (head : Expr) : (Evaluation.headName operands head).Evaluates := by
  cases head with
  | atom text => exact .pure text
  | list items => exact evaluates_within _ _ _
  | call items => exact ops.text _

/-- The value of an atom. -/
theorem valueOfAtom (text : String) : (Evaluation.valueOfAtom operands text).Evaluates := by
  refine Run.HaltsOnly.session.bind fun session => ?_
  split
  · exact .pure _
  · split
    · exact .pure _
    · exact ops _
    · exact .pure _

variable [OperatingSystem]

/-- Running the program that a name stands for. -/
theorem command (isLine : Bool) (name : String) (es : List Expr) :
    (Command.run operands isLine name es).Evaluates := by
  refine (Run.HaltsOnly.consult fun world refusal isRefused =>
    World.workingDirectoryPath_of_findProgram isRefused).bind fun found => ?_
  split
  · exact .fail fun _ => trivial
  · refine (Run.HaltsOnly.mapM ops.text es).bind fun texts => ?_
    refine (Command.evaluates_runProcess _ _ _).bind fun _ => ?_
    split
    · exact (Run.HaltsOnly.changeSession _).bind fun _ => .pure _
    · exact .pure _

/-- One activation, if what it ends with comes only to halts of evaluation. -/
theorem activate {α : Type} {ending : Ending α} (branch : ∀ e, (ending.branch e).Evaluates)
    (body : ∀ e, (ending.body e).Evaluates) (isLine : Bool) (e : Expr) :
    (Evaluation.activate operands ending isLine e).Evaluates := by
  match e with
  | .list items => exact .pure _
  | .atom text => exact (ops.valueOfAtom text).map _
  | .call [] => exact .fail fun _ => trivial
  | .call (head :: es) =>
    refine (ops.headName head).bind fun name => ?_
    split
    · refine ((ops.builtinValue _ es).bind fun _ => .pure _).bind fun applied => ?_
      split
      · exact .pure _
      · exact branch _
    · refine Run.HaltsOnly.session.bind fun session => ?_
      split
      next function _ =>
        exact (Run.HaltsOnly.mapM ops es).bind fun arguments =>
          (Evaluation.evaluates_instantiate _ function arguments).bind body
      · exact (ops.command isLine name es).map _

end Operands.Evaluate

namespace Evaluation

/-! ## Evaluators -/

/-- Going on to the value. -/
theorem evaluates_finish {isTail : Bool} {settled : Expr → Run Expr}
    (settles : ∀ e, (settled e).Evaluates) (taken : Step isTail) :
    (taken.finish settled).Evaluates := by
  cases taken with
  | value result => exact .pure result
  | tail body => exact settles body

/-- Settling. -/
theorem evaluates_settle {step : Expr → Run (Step true)} (evaluates : ∀ e, (step e).Evaluates)
    (steps : Nat) (e : Expr) : (settle step steps e).Evaluates := by
  induction steps generalizing e with
  | zero => exact .throw fun _ => trivial
  | succ steps inductionHypothesis =>
    exact (evaluates e).bind fun taken => evaluates_finish inductionHypothesis taken

variable [OperatingSystem]

/-- Evaluation in either position. -/
theorem evaluates_evaluate (steps room : Nat) (isLine isTail : Bool) (e : Expr) :
    (evaluate steps room isLine isTail e).Evaluates := by
  induction room generalizing isLine isTail e with
  | zero => exact .fail fun _ => trivial
  | succ room inductionHypothesis =>
    have ops : Operands.Evaluate
        ⟨room, fun operand => Step.result <$> evaluate steps room false false operand⟩ :=
      fun operand => (inductionHypothesis false false operand).map _
    refine ops.activate (inductionHypothesis false isTail) (fun body => ?_) isLine e
    cases isTail with
    | true => exact .pure _
    | false => exact (evaluates_settle (inductionHypothesis false true) steps body).map _

/-- The evaluation of an expression comes only to halts of evaluation. -/
theorem evaluates_run (limits : Limits) (isLine : Bool) (e : Expr) :
    (run limits isLine e).Evaluates :=
  (evaluates_evaluate _ _ _ _ e).bind fun taken =>
    evaluates_finish (evaluates_settle (evaluates_evaluate _ _ _ _) _) taken

end Evaluation

end LispShell
