import LispShell.Evaluation.Operands

/-! # Definitions
The builtins that give names a meaning. Names are taken as written; values, bodies and replacements
are stored as written, and only the values of local bindings are evaluated. -/

namespace LispShell.Definition

/-- The symbol that an operand is. -/
def symbol (operands : Operands) (builtin : Builtin) : Expr → Run String
  | .atom text =>
    if text == "" then Run.fail (.notASymbol builtin (Expr.renderAtom "")) else pure text
  | other => do
    let shown ← Operands.render operands.room other
    Run.fail (.notASymbol builtin shown)

/-- What a definition says of itself. -/
def defined (name : String) : Expr :=
  .atom ("defined " ++ name)

/-- Defines a name by syntax that is evaluated wherever the name is read. -/
def define (operands : Operands) : List Expr → Run Expr
  | [target, value] => do
    let name ← symbol operands .define target
    Run.changeSession fun session =>
      { session with definitions := session.definitions.insert name value }
    return defined name
  | _ => Run.fail (.builtinArity .define)

/-- A fresh name for a parameter. -/
def freshName (param : String) : Run String := do
  let session ← Run.session
  Run.changeSession fun session => { session with freshNames := session.freshNames + 1 }
  return Session.freshName param session.freshNames

/-- Renames parameters to fresh names in a body: the fresh names and the body. -/
def renameParams (operands : Operands) (body : Expr) : List String → Run (List String × Expr)
  | [] => pure ([], body)
  | param :: rest => do
    let name ← freshName param
    let renamed ← Operands.substitute operands.room body param (.atom name)
    let (names, final) ← renameParams operands renamed rest
    return (name :: names, final)

/-- Defines a function. -/
def defineFunction (operands : Operands) : List Expr → Run Expr
  | [target, params, body] => do
    let name ← symbol operands .defineFunction target
    let atoms ← Operands.within operands.room params.height params.atoms
    let (names, renamed) ← renameParams operands body atoms
    Run.changeSession fun session =>
      { session with functions := session.functions.insert name ⟨name, names, renamed⟩ }
    return defined name
  | _ => Run.fail (.builtinArity .defineFunction)

/-- The texts that an operand contributes to an alias. -/
def replacementTexts (operands : Operands) : Expr → Run (List String)
  | .atom text => pure [text]
  | .call items => items.mapM (Operands.render operands.room)
  | .list items => items.mapM (Operands.render operands.room)

/-- Defines an alias. -/
def defineAlias (operands : Operands) : List Expr → Run Expr
  | target :: replacement :: more => do
    let name ← symbol operands .defineAlias target
    let texts ← (replacement :: more).mapM (replacementTexts operands)
    Run.changeSession fun session =>
      { session with aliases := session.aliases.insert name texts.flatten }
    return .atom "created alias"
  | _ => Run.fail (.builtinArity .defineAlias)

/-- A binding written as a pair. -/
def pair? : Expr → Option (String × Expr)
  | .call [.atom name, value] => some (name, value)
  | .list [.atom name, value] => some (name, value)
  | _ => none

/-- Reads the items of a binding list: each binding is a pair, or a name and the item after it.
The error is the item that is neither. -/
def readBindings : List Expr → Except Expr (List (String × Expr))
  | [] => .ok []
  -- a name takes the next item as its value, whatever that is
  | .atom name :: value :: rest => (readBindings rest).map ((name, value) :: ·)
  | item :: rest =>
    match pair? item with
    | some binding => (readBindings rest).map (binding :: ·)
    | none => .error item

/-- The bindings that an operand lists. -/
def bindings (operands : Operands) (e : Expr) : Run (List (String × Expr)) := do
  match e.items? with
  | none => Run.fail (.bindingsNotAList (← Operands.render operands.room e))
  | some items =>
    match readBindings items with
    | .ok pairs => pure pairs
    | .error item => Run.fail (.malformedBinding (← Operands.render operands.room item))

/-- Substitutes the values of bindings, evaluated in order, in a body. -/
def substituteBindings (operands : Operands) (body : Expr) :
    List (String × Expr) → Run Expr
  | [] => pure body
  | (name, e) :: rest => do
    let value ← operands.value e
    let substituted ← Operands.substitute operands.room body name value
    substituteBindings operands substituted rest

end LispShell.Definition
