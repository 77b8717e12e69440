/-! # Lines
Splitting output into its lines, and the universal line ends of startup files. -/

namespace LispShell.Text

/-- The pieces between line feeds; the piece after the last one is always there, even if empty. -/
def splitAtNewlines : List Char → List (List Char)
  | [] => [[]]
  | c :: rest =>
    if c = '\n' then [] :: splitAtNewlines rest
    else
      match splitAtNewlines rest with
      | [] => [[c]]
      | first :: others => (c :: first) :: others

/-- The line without a carriage return at its end. -/
def dropReturn (line : List Char) : List Char :=
  if line.getLast? = some '\r' then line.dropLast else line

/-- The pieces without an empty one at the end. -/
def dropEmptyLast (pieces : List (List Char)) : List (List Char) :=
  if pieces.getLast? = some [] then pieces.dropLast else pieces

/-- The lines of an output. A line feed at the end adds no empty line, and one carriage return
before a line feed or at the end belongs to the line end. -/
def splitLines (output : String) : List String :=
  ((dropEmptyLast (splitAtNewlines output.toList)).map dropReturn).map String.ofList

/-- Every line end, `\r\n` or a lone `\r` alike, as a line feed. -/
def unifyNewlines : List Char → List Char
  | [] => []
  | '\r' :: '\n' :: rest => '\n' :: unifyNewlines rest
  | c :: rest => (if c = '\r' then '\n' else c) :: unifyNewlines rest

end LispShell.Text
