import LispShell.Evaluation.Builtin
import LispShell.Text.Quoted
import LispShell.Token.Basic
import LispShell.World.FileFault

/-! # Faults
Why a command fails. Most faults are reported by the shell and leave the session alive; a few have
no report of their own and end it. -/

namespace LispShell

/-- Why an environment variable cannot be set. -/
inductive VariableFault where
  /-- The name or the value cannot be handed to the operating system. -/
  | unfit (fault : TextFault)
  /-- The name holds an equals sign. -/
  | illegalName
  deriving Repr, DecidableEq

/-- The wording of a refused variable. -/
def VariableFault.message : VariableFault → String
  | .unfit fault => fault.message
  | .illegalName => "illegal environment variable name"

/-- Why a command fails. -/
inductive Fault where
  /-- The input cannot be read. -/
  | unreadable (fault : ReadError)
  /-- A call has no head. -/
  | emptyCall
  /-- Evaluation is nested too deep. -/
  | evaluationTooDeep
  /-- A value is nested too deep to be printed. -/
  | printingTooDeep
  /-- The value of the prompt is nested too deep. -/
  | promptTooDeep
  /-- A builtin has too few or too many operands. -/
  | builtinArity (builtin : Builtin)
  /-- A function has too few or too many arguments. -/
  | functionArity (name : String) (expected given : Nat)
  /-- A text does not have the form of a number. -/
  | notANumber (text : String)
  /-- A word looks like a number by its case folding alone. -/
  | lookalikeNumber (text : String)
  /-- A number is no exit status. -/
  | invalidStatus (text : String)
  /-- Something else than a symbol stands where a name is defined. -/
  | notASymbol (builtin : Builtin) (shown : String)
  /-- The bindings are no list. -/
  | bindingsNotAList (shown : String)
  /-- A binding is no pair of a name and a value. -/
  | malformedBinding (shown : String)
  /-- An empty list has no first item. -/
  | firstOfEmptyList
  /-- An empty text has no first character. -/
  | firstOfEmptyText
  /-- Pending syntax is no sequence. -/
  | notASequence (builtin : Builtin) (shown : String)
  /-- Nothing can be put before an atom that is not a sequence of characters. -/
  | notListLike
  /-- The operand is neither true nor false. -/
  | notABoolean
  /-- No builtin, function or program has the name. -/
  | commandNotFound (name : String)
  /-- An argument for a program cannot be handed to the operating system. -/
  | argumentUnfit (name : String) (fault : TextFault)
  /-- The environment variable is not set. -/
  | unsetVariable (name : String)
  /-- The name of an environment variable cannot be handed to the operating system. -/
  | uncodedVariableName (report : String)
  /-- The environment variable cannot be set. -/
  | variableRefused (fault : VariableFault)
  /-- An environment variable cannot have the empty name. -/
  | emptyVariableName
  /-- A file cannot be read or written. -/
  | fileFailed (builtin : Builtin) (fault : FileFault)
  /-- A directory cannot be entered. -/
  | cannotEnter (fault : FileFault)
  /-- The working directory has no path. -/
  | noWorkingDirectory (refusal : Refusal)
  /-- The user has no home directory. -/
  | noHomeDirectory
  /-- A text cannot be written to the standard output. -/
  | unprintable (report : String)
  /-- A startup file cannot be read. -/
  | startupUnreadable (fault : FileFault)
  /-- The variable that names a startup file holds no path. -/
  | noStartupPath
  deriving Repr, DecidableEq

namespace Fault

/-- The wording of a fault. -/
def message : Fault → String
  | .unreadable fault => fault.message
  | .emptyCall => "Empty call expression"
  | .evaluationTooDeep => "maximum evaluation depth exceeded"
  | .printingTooDeep => "value too deeply nested to print"
  | .promptTooDeep => "lishp_prompt value too deeply nested"
  | .builtinArity builtin => builtin.name ++ " " ++ builtin.arityText
  | .functionArity name expected given =>
    name ++ " expects " ++ toString expected ++ " argument(s), got " ++ toString given
  | .notANumber text => text ++ " is not a number"
  | .lookalikeNumber text => "could not convert string to float: " ++ Text.quoted text
  | .invalidStatus text => text ++ " is not a valid exit status"
  | .notASymbol builtin shown => builtin.name ++ " name must be a symbol, got " ++ shown
  | .bindingsNotAList shown => "let bindings must be a list, got " ++ shown
  | .malformedBinding shown => "let binding must be a (name value) pair, got " ++ shown
  | .firstOfEmptyList => "tried to call first on empty list"
  | .firstOfEmptyText => "tried to call first on empty string"
  | .notASequence builtin shown => builtin.name ++ " expects a list or an atom, got " ++ shown
  | .notListLike => "cons second argument must be list-like"
  | .notABoolean => "not expects a boolean argument"
  | .commandNotFound name => "command not found: " ++ name
  | .argumentUnfit name fault => name ++ ": " ++ fault.message
  | .unsetVariable name => "env var not found: " ++ name
  | .uncodedVariableName report => report
  | .variableRefused fault => "export: " ++ fault.message
  | .emptyVariableName => Refusal.invalidArgument.report
  | .fileFailed builtin fault => builtin.name ++ ": " ++ fault.message
  | .cannotEnter fault => "Failed to change directory: " ++ fault.message
  | .noWorkingDirectory refusal => refusal.report
  | .noHomeDirectory => "Could not determine home directory."
  | .unprintable report => report
  | .startupUnreadable fault => fault.message
  | .noStartupPath => "list index out of range"

/-- Whether the shell reports the fault and goes on; the others end the session. -/
def isReported : Fault → Bool
  | .lookalikeNumber _ => false
  | .uncodedVariableName _ => false
  | .emptyVariableName => false
  | .noWorkingDirectory _ => false
  | .noHomeDirectory => false
  | .unprintable _ => false
  | .startupUnreadable _ => false
  | .noStartupPath => false
  | _ => true

/-- Whether loading the startup file of the user reports the fault: besides the faults of the shell
itself these are all refusals of the operating system and malformed texts. -/
def isReportedAtStartup : Fault → Bool
  | .lookalikeNumber _ => false
  | .uncodedVariableName _ => false
  | .noHomeDirectory => false
  | .unprintable _ => false
  | .noStartupPath => false
  | .startupUnreadable (.unfit _) => false
  | _ => true

end Fault

end LispShell
