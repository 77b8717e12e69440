import LispShell.Expr.Printer
import LispShell.Text.Quoted
import LispShell.Token.Alias

/-! # Sessions
What a shell remembers between commands: aliases, definitions, functions and the status of the last
command. The parameters of a function are renamed to fresh names when it is defined, so that no
argument is ever taken for one. -/

namespace LispShell

/-- A function of the user, its parameters already renamed. -/
structure Function where
  /-- The name it is called by. -/
  name : String
  /-- The fresh names of its parameters. -/
  params : List String
  /-- The syntax to evaluate in its place. -/
  body : Expr
  deriving Repr

/-- The definition as it would be written. -/
def Function.render (function : Function) : String :=
  "(defun " ++ function.name ++ " (" ++ String.intercalate " " function.params ++ ") " ++
    function.body.render ++ ")"

/-- What a shell remembers. -/
structure Session where
  /-- The aliases. -/
  aliases : AliasTable
  /-- The definitions. -/
  definitions : Table Expr
  /-- The functions. -/
  functions : Table Function
  /-- The status of the last command that was a whole line. -/
  lastStatus : Nat
  /-- The number of fresh names made so far. -/
  freshNames : Nat

namespace Session

/-- A session in which nothing has been done. -/
def fresh : Session := ⟨.empty, .empty, .empty, 0, 0⟩

/-- The fresh name for a parameter that is the given one in the order of their making. -/
def freshName (name : String) (number : Nat) : String :=
  "#" ++ name ++ "#" ++ toString number ++ "#"

/-- A summary of the session: the names in every table and the last status. -/
def inspect (session : Session) : String :=
  "<State defs=" ++ Text.quotedList session.definitions.names ++
    " funcs=" ++ Text.quotedList session.functions.names ++
    " aliases=" ++ Text.quotedList session.aliases.names ++
    " $?=" ++ toString session.lastStatus ++ ">"

end Session

end LispShell
