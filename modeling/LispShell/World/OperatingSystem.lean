import LispShell.World.Basic

/-! # The operating system
What becomes of a program that the shell starts is for the operating system to say. The shell knows
what the program leaves behind, a `Finished`, and keeps a record of what it asked for, in
`Effect`s. -/

namespace LispShell

/-- Something that evaluation does to the world outside. -/
inductive Effect where
  /-- A program was run with its arguments, the first of which is its name. Its output was captured
  or went to the output of the shell. -/
  | launch (path : String) (arguments : List String) (capture : Bool) (status : Nat)
  /-- Text was stored in a file. -/
  | store (mode : FileTree.WriteMode) (content path : String)
  /-- A directory was entered. -/
  | enter (path : String)
  /-- An environment variable was set. -/
  | setVariable (name value : String)
  deriving Repr, DecidableEq

/-- What a program leaves behind. -/
structure Finished where
  /-- The files. -/
  files : FileTree
  /-- Where the working directory of the shell is now, which may have been moved or removed. -/
  workingDirectory : WorkingDirectory
  /-- What it wrote to its output. -/
  output : Bytes
  /-- What it wrote to its error output. -/
  errors : Bytes
  /-- Its exit code, or the number of the signal that killed it, negated. -/
  returnCode : Int

/-- An operating system, by what it does with programs. -/
class OperatingSystem where
  /-- Starts the program that a path names and runs it to its end. What comes of it may depend on
  all that was done before. -/
  execute : (past : List Effect) → World → (path : String) → (arguments : List String) →
    Except Refusal Finished

end LispShell
