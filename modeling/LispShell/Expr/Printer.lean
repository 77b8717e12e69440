import LispShell.Expr.Basic
import LispShell.Text.Blank
import LispShell.Text.Quoted

/-! # Printed expressions
Two texts of an expression: `render` is the form that the shell prints and the reader reads, with
long lists broken over several lines; `inspect` names every variant and quotes every atom. -/

namespace LispShell

namespace Expr

/-- A list whose flattened text is longer than this is printed with one item a line. -/
def wrapWidth : Nat := 100

/-- The printed form of an atom: quoted if it is empty or holds a blank. -/
def renderAtom (text : String) : String :=
  if text == "" then "\"\""
  else if text.toList.any Text.isBlank then "\"" ++ text ++ "\""
  else text

/-- The printed form of a list from the printed forms of its items. -/
def renderItems (wrap : Bool) (items : List String) : String :=
  if wrap then "(\n\t" ++ String.intercalate "\n\t" items ++ "\n)"
  else "(" ++ String.intercalate " " items ++ ")"

mutual
/-- The printed form of an expression. -/
def render : Expr → String
  | .atom text => renderAtom text
  | .call items => renderItems false (renderAll items)
  | .list items => renderItems (wrapWidth < (flattenAll items).length) (renderAll items)

/-- The printed forms of a row of expressions. -/
def renderAll : List Expr → List String
  | [] => []
  | item :: rest => item.render :: renderAll rest
end

mutual
/-- The text that names the variant at every level. -/
def inspect : Expr → String
  | .atom text => "Atom(" ++ Text.quoted text ++ ")"
  | .call items => "Call([" ++ String.intercalate ", " (inspectAll items) ++ "])"
  | .list items => "List([" ++ String.intercalate ", " (inspectAll items) ++ "])"

/-- The inspected forms of a row of expressions. -/
def inspectAll : List Expr → List String
  | [] => []
  | item :: rest => item.inspect :: inspectAll rest
end

theorem renderAll_eq_map (items : List Expr) : renderAll items = items.map render := by
  induction items with
  | nil => rfl
  | cons item rest inductionHypothesis => simp [renderAll, inductionHypothesis]

end Expr

end LispShell
