/-! # Path texts
What can be said of a path without looking at the file system: its components, its tidy form and
the way two paths are joined. -/

namespace LispShell.Path

/-- The pieces between the separators; there is always at least one. -/
def splitOn (separator : Char) : List Char → List (List Char)
  | [] => [[]]
  | c :: rest =>
    if c = separator then [] :: splitOn separator rest
    else
      match splitOn separator rest with
      | [] => [[c]]
      | first :: others => (c :: first) :: others

/-- The pieces of a text between the separators. -/
def pieces (separator : Char) (text : String) : List String :=
  (splitOn separator text.toList).map String.ofList

/-- Whether the path starts at the root. -/
def isAbsolute (path : String) : Bool :=
  path.toList.head? == some '/'

/-- The slashes that a tidy path starts with: two are kept where there are exactly two. -/
def root (path : String) : String :=
  match path.toList with
  | '/' :: '/' :: '/' :: _ => "/"
  | '/' :: '/' :: _ => "//"
  | '/' :: _ => "/"
  | _ => ""

/-- The components that name something: all but the empty ones and the single dots. -/
def names (path : String) : List String :=
  (pieces '/' path).filter fun name => name != "" && name != "."

/-- A path from its first slashes and its components; nothing at all is the current directory. -/
def ofNames (root : String) (names : List String) : String :=
  if root == "" && names.isEmpty then "." else root ++ String.intercalate "/" names

/-- The path without repeated and final slashes and without single dots. -/
def tidy (path : String) : String :=
  ofNames (root path) (names path)

/-- The tidy path of a name inside a directory given by its tidy path. -/
def child (directory name : String) : String :=
  ofNames (root directory) (names directory ++ [name])

/-- Drops each component that a double dot after it goes back over. The components kept are in
reverse order; above the root there is nothing to go back to. -/
def foldParents (absolute : Bool) (kept : List String) : List String → List String
  | [] => kept.reverse
  | name :: rest =>
    if name != ".." then foldParents absolute (name :: kept) rest
    else
      match kept with
      -- a relative path keeps the double dots that lead above its start
      | [] => foldParents absolute (if absolute then [] else [".."]) rest
      | last :: others =>
        if last == ".." then foldParents absolute (".." :: kept) rest
        else foldParents absolute others rest

/-- The tidy path with its double dots resolved in the text. -/
def normalize (path : String) : String :=
  ofNames (root path) (foldParents (isAbsolute path) [] (names path))

/-- The path that the second text names as seen from the first. -/
def join (directory path : String) : String :=
  if isAbsolute path then path
  else if directory == "" || directory.toList.getLast? == some '/' then directory ++ path
  else directory ++ "/" ++ path

/-- The path of a directory from its components below the root. -/
def absolute (components : List String) : String :=
  "/" ++ String.intercalate "/" components

end LispShell.Path
