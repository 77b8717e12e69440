import LispShell.CommandLine.Entry

/-! # The program
The shell as a program. Its files are held in memory: the disk is only read, for the startup files.
-/

namespace LispShell.Program

/-- The environment variables that the shell is given. -/
def variableNames : List String :=
  ["HOME", "PATH", "PWD", "LISHP_PRELUDE_PATH", "LISHP_RC", "LISHP_LOG_LEVEL"]

/-- The environment variables that are set. -/
def environment : IO (Table String) := do
  let found ← variableNames.filterMapM fun name => return (← IO.getEnv name).map (name, ·)
  return .ofList found

/-- A tree with a file of the disk, if that can be read. -/
def withFile (tree : FileTree) (path : String) : IO FileTree := do
  try
    let content ← IO.FS.readBinFile path
    return tree.plant (Path.names path) (.file content.toList false)
  catch _ => return tree

/-- The paths of the startup files on the disk. -/
def startupPaths (world : World) : List String :=
  let prelude :=
    match world.prelude? with
    | some (.file path) => [path]
    | _ => []
  prelude ++ (world.home?.bind world.startupFile?).toList

/-- The world that the program starts in. -/
def world : IO World := do
  let bindings ← environment
  let here := Path.names ((bindings.find? "PWD").getD "/")
  let start : World :=
    { World.ofFiles (FileTree.plant .empty here .directory) with
      workingDirectory := ⟨here, 0⟩
      environment := bindings
      accountHome := none }
  let files ← (startupPaths start).foldlM withFile start.files
  return { start with files := files }

/-- Everything that is left to read from a stream. -/
partial def readAll (stream : IO.FS.Stream) (soFar : String) : IO String := do
  let line ← stream.getLine
  if line.isEmpty then return soFar else readAll stream (soFar ++ line)

/-- Writes bytes to a stream. -/
def writeAll (stream : IO.FS.Stream) (bytes : Bytes) : IO Unit := do
  stream.write (ByteArray.mk bytes.toArray)
  stream.flush

/-- The status of the program for the end of its run, and what there is to report. -/
def ending : Except Halt Unit → UInt32 × String
  | .ok () => (0, "")
  | .error (.exit status) => (UInt32.ofNat (status % 256).toNat, "")
  | .error (.fault cause) => (1, "Error: " ++ cause.message ++ "\n")
  | .error .outOfSteps => (1, "Error: evaluation does not end\n")

end LispShell.Program

open LispShell in
/-- Runs the shell on a command line. -/
def main (words : List String) : IO UInt32 := do
  let input ←
    if Entry.readsInput words then Program.readAll (← IO.getStdin) "" else pure ""
  let (outcome, shell) :=
    (Entry.run .standard words input).on ⟨.fresh, ← Program.world⟩
  let (status, report) := Program.ending outcome
  Program.writeAll (← IO.getStdout) shell.world.output
  Program.writeAll (← IO.getStderr) (shell.world.errors ++ Text.encode report)
  return status
