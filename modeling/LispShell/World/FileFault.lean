import LispShell.Text.Quoted
import LispShell.Text.Utf8

/-! # File faults
Why an operation on files fails, and how that is worded. -/

namespace LispShell

/-- A refusal of the operating system. -/
inductive Refusal where
  /-- Nothing is there. -/
  | notFound
  /-- The file is not a program that can be started. -/
  | execFormat
  /-- The file is not marked as a program. -/
  | permissionDenied
  /-- A component on the way is not a directory. -/
  | notADirectory
  /-- The path names a directory. -/
  | isADirectory
  /-- The argument makes no sense. -/
  | invalidArgument
  /-- The path or a component of it is too long. -/
  | nameTooLong
  /-- Too many links on the way. -/
  | tooManyLinks
  deriving Repr, DecidableEq

/-- The number of a refusal. -/
def Refusal.number : Refusal → Nat
  | .notFound => 2
  | .execFormat => 8
  | .permissionDenied => 13
  | .notADirectory => 20
  | .isADirectory => 21
  | .invalidArgument => 22
  | .nameTooLong => 36
  | .tooManyLinks => 40

/-- The wording of a refusal. -/
def Refusal.text : Refusal → String
  | .notFound => "No such file or directory"
  | .execFormat => "Exec format error"
  | .permissionDenied => "Permission denied"
  | .notADirectory => "Not a directory"
  | .isADirectory => "Is a directory"
  | .invalidArgument => "Invalid argument"
  | .nameTooLong => "File name too long"
  | .tooManyLinks => "Too many levels of symbolic links"

/-- The report of a refusal without a path. -/
def Refusal.report (refusal : Refusal) : String :=
  "[Errno " ++ toString refusal.number ++ "] " ++ refusal.text

/-- Why a text cannot be handed to the operating system. -/
inductive TextFault where
  /-- It holds a NUL character. -/
  | nul
  /-- It holds a character that is not in the character set of the operating system. -/
  | uncoded (report : String)
  deriving Repr, DecidableEq

/-- The wording of a fault in a text. -/
def TextFault.message : TextFault → String
  | .nul => "embedded null byte"
  | .uncoded report => report

/-- Why a file cannot be read, written or entered. -/
inductive FileFault where
  /-- The operating system refuses the path. -/
  | refused (refusal : Refusal) (path : String)
  /-- The path cannot be handed to the operating system. -/
  | unfit (fault : TextFault)
  /-- The content is not text. -/
  | undecodable (piece : Text.Malformed)
  deriving Repr, DecidableEq

/-- The wording of a file fault. -/
def FileFault.message : FileFault → String
  | .refused refusal path => refusal.report ++ ": " ++ Text.quoted path
  | .unfit fault => fault.message
  | .undecodable piece => piece.message

end LispShell
