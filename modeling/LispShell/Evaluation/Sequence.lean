import LispShell.Evaluation.Operands

/-! # Sequences
An atom is a sequence of characters and a list a sequence of expressions; both are taken apart and
put together by the same builtins. -/

namespace LispShell.Sequence

/-- The first item of a sequence. -/
def first? : Expr → Except Fault Expr
  | .list [] => .error .firstOfEmptyList
  | .list (item :: _) => .ok item
  | .atom text =>
    match text.toList with
    | [] => .error .firstOfEmptyText
    | c :: _ => .ok (.atom (String.singleton c))
  | .call items => .error (.notASequence .first (Expr.call items).render)

/-- A sequence without its first item; an empty one stays empty. -/
def rest? : Expr → Except Fault Expr
  | .list items => .ok (.list items.tail)
  | .atom text => .ok (.atom (String.ofList text.toList.tail))
  | .call items => .error (.notASequence .rest (Expr.call items).render)

/-- Whether the text is one character. -/
def isCharacter (text : String) : Bool :=
  text.length == 1

/-- Puts an item before a sequence: a character before an atom makes a longer atom, and stays an
atom before the empty list; all else before a list, or before the empty atom, makes a list. -/
def cons? : Expr → Expr → Except Fault Expr
  -- a character before no items is a text of one character
  | .atom c, .list [] => .ok (if isCharacter c then .atom c else .list [.atom c])
  | .atom c, .atom text =>
    if isCharacter c then .ok (.atom (c ++ text))
    else if text == "" then .ok (.list [.atom c])
    else .error .notListLike
  | item, .list items => .ok (.list (item :: items))
  | item, .atom text => if text == "" then .ok (.list [item]) else .error .notListLike
  | _, .call _ => .error .notListLike

/-- The levels of an expression that a report on it prints. -/
def reportedLevels : Expr → Nat
  | .call items => (Expr.call items).height
  | _ => 0

/-- Applies an operation on sequences to the value of the only operand. -/
def unary (operands : Operands) (builtin : Builtin) (operation : Expr → Except Fault Expr) :
    List Expr → Run Expr
  | [e] => do
    let value ← operands.value e
    Run.ofExcept id (← Operands.within operands.room (reportedLevels value) (operation value))
  | _ => Run.fail (.builtinArity builtin)

/-- The list of the values of the operands. -/
def list (operands : Operands) (es : List Expr) : Run Expr := do
  return .list (← es.mapM operands.value)

/-- Puts the value of one operand before that of another. -/
def cons (operands : Operands) : List Expr → Run Expr
  | [first, second] => do
    let item ← operands.value first
    let sequence ← operands.value second
    Run.ofExcept id (cons? item sequence)
  | _ => Run.fail (.builtinArity .cons)

end LispShell.Sequence
