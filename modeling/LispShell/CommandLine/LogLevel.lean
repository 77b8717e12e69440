import LispShell.World.Basic

/-! # Log levels
The levels of the log, each with a number, and their names in any case. -/

namespace LispShell

/-- A level of the log. -/
inductive LogLevel where
  /-- Everything. -/
  | notSet
  /-- Debugging. -/
  | debug
  /-- Information. -/
  | info
  /-- Warnings. -/
  | warning
  /-- Errors. -/
  | error
  /-- The gravest errors alone. -/
  | critical
  deriving Repr, DecidableEq

namespace LogLevel

/-- The number of a level. -/
def number : LogLevel → Nat
  | .notSet => 0
  | .debug => 10
  | .info => 20
  | .warning => 30
  | .error => 40
  | .critical => 50

/-- The upper-case form of a character, as far as it can be one of the letters of a level's name. -/
def upper (c : Char) : Char :=
  if c = 'ı' then 'I' else if c = 'ſ' then 'S' else c.toUpper

/-- The level of a name in upper case. -/
def ofUpper? : String → Option LogLevel
  | "NOTSET" => some .notSet
  | "DEBUG" => some .debug
  | "INFO" => some .info
  | "WARN" => some .warning
  | "WARNING" => some .warning
  | "ERROR" => some .error
  | "CRITICAL" => some .critical
  | "FATAL" => some .critical
  | _ => none

/-- The level of a name; an unknown one stands for warnings. -/
def ofName (name : String) : LogLevel :=
  (ofUpper? (String.ofList (name.toList.map upper))).getD .warning

/-- The level asked for by name, or else by the environment. -/
def choose (world : World) (name : String) : LogLevel :=
  if name == "" then ofName ((world.environment.find? "LISHP_LOG_LEVEL").getD "WARNING")
  else ofName name

end LogLevel

end LispShell
