import LispShell.World.Locations
import LispShell.World.OperatingSystem

/-! # Processes
Finding a program by its name, `findProgram`, and running it as a child of the shell,
`runProcess`. -/

namespace LispShell

/-- What a child process leaves for the shell. -/
structure ProcessResult where
  /-- Its output, if it was captured. -/
  output : Option String
  /-- Its exit status. -/
  status : Nat
  deriving Repr, DecidableEq

namespace World

variable [OperatingSystem]

/-- The `ProcessResult.status` for a program that cannot be started. -/
def startFailureStatus : Nat := 126

/-- The `ProcessResult.status` for a `Finished.returnCode`: a program that was killed by a signal
has 128 and the number of the signal. -/
def exitStatus (returnCode : Int) : Nat :=
  if returnCode < 0 then (128 - returnCode).toNat else returnCode.toNat

/-- The path of an entry of a search directory. -/
def entryPath (directory name : String) : String :=
  Path.join directory name

/-- Whether a directory can be listed and has an entry of the given name. -/
def lists (world : World) (name directory : String) : Bool :=
  match world.directory? directory with
  | .ok found => (world.files.namesIn found).contains name
  | .error _ => false

/-- The `entryPath` of the name in the first of the directories that `lists` it. -/
def findIn (world : World) (name : String) (directories : List String) : Option String :=
  (directories.find? (world.lists name)).map (entryPath · name)

/-- The path from the root; that of a relative path needs the path of the working directory. -/
def absolutePath (world : World) (path : String) : Except Refusal String :=
  if Path.isAbsolute path then .ok (Path.normalize path)
  else do return Path.normalize (Path.join (← world.workingDirectoryPath) path)

/-- Whether a name is itself the path of a regular file. -/
def namesFile (world : World) (name : String) : Bool :=
  (world.textFault? name).isNone && world.files.isFile world.workingDirectory name

/-- The path of the program that a name stands for, if any. The name of a regular file stands for
that file; any other is looked up in the `searchDirectories`. -/
def findProgram (world : World) (name : String) : Except Refusal (Option String) :=
  if name == "" then .ok none
  -- a name with no slash in it may be a file of the working directory
  else if world.namesFile name then some <$> world.absolutePath name
  else .ok (world.findIn name world.searchDirectories)

/-- The paths tried for a program: a bare name is tried in every directory of `PATH`. -/
def startCandidates (world : World) (path : String) : List String :=
  if path.toList.contains '/' then [path]
  else
    (Path.pieces ':' ((world.environment.find? "PATH").getD "/bin:/usr/bin")).map
      (Path.join · path)

/-- Whether a `Refusal` says no more than that nothing is there. -/
def isAbsence : Refusal → Bool
  | .notFound => true
  | .notADirectory => true
  | _ => false

/-- Starts the first candidate that can be started. Of the refusals the first that is not one of
`isAbsence` counts, or else the last. -/
def startFirst (past : List Effect) (world : World) (arguments : List String) :
    (soFar : Refusal) → List String → Except Refusal Finished
  | soFar, [] => .error soFar
  | soFar, path :: rest =>
    match OperatingSystem.execute past world path arguments with
    | .ok finished => .ok finished
    | .error refusal =>
      startFirst past world arguments (if isAbsence soFar then refusal else soFar) rest

/-- What a `Finished` child changes in the world. -/
def afterChild (world : World) (finished : Finished) (capture : Bool) : World :=
  { world with
    files := finished.files
    workingDirectory := finished.workingDirectory
    output := if capture then world.output else world.output ++ finished.output
    errors := world.errors ++ finished.errors }

/-- Runs a program, whose first argument is its name, and waits for its end. One that cannot be
started is reported, and has the `startFailureStatus`; a path or an argument with a `textFault?`
is a fault. -/
def runProcess (past : List Effect) (world : World) (path : String) (arguments : List String)
    (capture : Bool) : Except TextFault (ProcessResult × World) :=
  match (path :: arguments).findSome? world.textFault? with
  | some fault => .error fault
  | none =>
    match startFirst past world arguments .notFound (world.startCandidates path) with
    | .ok finished =>
      let output := if capture then some (Text.decodeLossy finished.output) else none
      .ok (⟨output, exitStatus finished.returnCode⟩, world.afterChild finished capture)
    | .error refusal =>
      let report := "error: " ++ (FileFault.refused refusal path).message ++ "\n"
      .ok (⟨if capture then some "" else none, startFailureStatus⟩, world.printError report)

end World

end LispShell
