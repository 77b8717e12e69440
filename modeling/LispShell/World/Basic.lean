import LispShell.Table
import LispShell.World.CharacterSet
import LispShell.World.FileTree

/-! # The world outside
What a shell acts on: files, a working directory, environment variables, two outputs and the line
editor of the user. -/

namespace LispShell

/-- Everything outside the shell that it can see or change. -/
structure World where
  /-- The files. -/
  files : FileTree
  /-- The working directory. -/
  workingDirectory : WorkingDirectory
  /-- The environment variables. -/
  environment : Table String
  /-- The home directory that the account of the user has on record, if any. -/
  accountHome : Option String
  /-- The characters that the operating system takes in names, paths and arguments. -/
  names : CharacterSet
  /-- The characters that the two outputs take. -/
  streams : CharacterSet
  /-- What was written to the standard output. -/
  output : Bytes
  /-- What was written to the standard error. -/
  errors : Bytes
  /-- The prompts that the line editor was asked to show. -/
  prompts : List String

namespace World

/-- The world of some files, with the root for its working directory and home and no variables. -/
def ofFiles (files : FileTree) : World where
  files := files
  workingDirectory := ⟨[], 0⟩
  environment := .empty
  accountHome := some "/"
  names := .full
  streams := .full
  output := []
  errors := []
  prompts := []

/-- Writes text to the standard output, or gives the report of `CharacterSet.check` on it. -/
def print (world : World) (text : String) : Except String World := do
  world.streams.check text
  return { world with output := world.output ++ Text.encode text }

/-- Writes text to the standard error, as `CharacterSet.escape` has it. -/
def printError (world : World) (text : String) : World :=
  { world with errors := world.errors ++ Text.encode (world.streams.escape text) }

/-- Has the line editor show a prompt. -/
def ask (world : World) (prompt : String) : World :=
  { world with prompts := world.prompts ++ [prompt] }

/-- The path of the working directory; one that was removed has none. -/
def workingDirectoryPath (world : World) : Except Refusal String :=
  if world.workingDirectory.removed = 0 then .ok (Path.absolute world.workingDirectory.place)
  else .error .notFound

/-- Sets an environment variable. -/
def setVariable (world : World) (name value : String) : World :=
  { world with environment := world.environment.insert name value }

/-- Whether the text holds a NUL character, which no path and no argument may. -/
def hasNul (text : String) : Bool :=
  text.toList.contains (Char.ofNat 0)

/-- Why a text cannot be handed to the operating system, if so. -/
def textFault? (world : World) (text : String) : Option TextFault :=
  match world.names.check text with
  | .error report => some (.uncoded report)
  | .ok () => if hasNul text then some .nul else none

/-- Attempts an operation on a path, and gives its fault the path. -/
def attempt {α : Type} (world : World) (path : String) (operation : Except Refusal α) :
    Except FileFault α :=
  match world.textFault? path with
  | some fault => .error (.unfit fault)
  | none => operation.mapError (.refused · path)

/-- The text of a file. -/
def readText (world : World) (path : String) : Except FileFault String := do
  let bytes ← world.attempt path (world.files.read world.workingDirectory path)
  (Text.decode bytes).mapError .undecodable

/-- Stores text in a file. -/
def writeText (world : World) (mode : FileTree.WriteMode) (content path : String) :
    Except FileFault World := do
  let files ←
    world.attempt path
      (world.files.write world.workingDirectory mode (Text.encode content) path)
  return { world with files := files }

/-- The directory that a path names. -/
def directory? (world : World) (path : String) : Except FileFault WorkingDirectory :=
  world.attempt path (world.files.directory? world.workingDirectory path)

/-- Enters a directory. -/
def enter (world : World) (path : String) : Except FileFault World := do
  let directory ← world.directory? path
  return { world with workingDirectory := directory }

end World

end LispShell
