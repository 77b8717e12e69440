import LispShell.World.Basic

/-! # Launching programs
How the operating system starts a program: a script names its interpreter in its first line, and
the chain of interpreters ends at the interpreter of scripts. -/

namespace LispShell.Script

/-- The options of a script. -/
structure Switches where
  /-- Whether the script ends at the first command that fails. -/
  stopOnFailure : Bool
  /-- Whether the use of a variable without a value ends the script. -/
  stopOnUnset : Bool
  /-- Whether patterns stand for themselves in words. -/
  plainPatterns : Bool

namespace Switches

/-- No option is on. -/
def off : Switches := ⟨false, false, false⟩

/-- The letters of the options that change nothing a script can see. -/
def idleLetters : List Char := "abCmnvx".toList

/-- Turns on or off the option of a letter, if it has one. -/
def turn? (switches : Switches) (isOn : Bool) : Char → Option Switches
  | 'e' => some { switches with stopOnFailure := isOn }
  | 'u' => some { switches with stopOnUnset := isOn }
  | 'f' => some { switches with plainPatterns := isOn }
  | other => if idleLetters.contains other then some switches else none

/-- The letters of the options that are on. -/
def letters (switches : Switches) : String :=
  (if switches.stopOnFailure then "e" else "") ++ (if switches.plainPatterns then "f" else "") ++
    if switches.stopOnUnset then "u" else ""

end Switches

/-- A script about to be interpreted. -/
structure Launch where
  /-- The text of the script. -/
  source : Bytes
  /-- The name of the script. -/
  name : String
  /-- Its arguments. -/
  arguments : List String
  /-- Its options. -/
  switches : Switches
  /-- Why it cannot be interpreted, if so. -/
  refusal : Option String

/-- The greatest number of scripts in a chain of interpreters. -/
def maxScripts : Nat := 5

/-- The number of bytes at the start of a file in which its interpreter line is looked for. -/
def headBytes : Nat := 255

/-- Whether a byte is a blank of an interpreter line. -/
def isLineBlank (byte : UInt8) : Bool :=
  byte == 32 || byte == 9

/-- The interpreter and its argument that the first line of a file names. -/
def interpreterLine? (content : Bytes) : Option (String × Option String) :=
  match content.take headBytes with
  | 35 :: 33 :: rest =>
    let line := (rest.takeWhile (· != 10)).dropWhile isLineBlank
    let trimmed := (line.reverse.dropWhile isLineBlank).reverse
    let path := trimmed.takeWhile fun byte => !isLineBlank byte
    let argument := (trimmed.dropWhile fun byte => !isLineBlank byte).dropWhile isLineBlank
    if path.isEmpty then none
    else
      some (Text.decodeLossy path,
        if argument.isEmpty then none else some (Text.decodeLossy argument))
  | _ => none

/-- What the interpreter of scripts is told before the name of the script. -/
structure Settings where
  /-- The options of the script. -/
  switches : Switches
  /-- Whether the text of the script is an argument. -/
  isGiven : Bool

/-- Turns options on or off by their letters. The first letter that stands for no option counts. -/
def Settings.turn (isOn : Bool) : Settings → List Char → Except Char Settings
  | settings, [] => .ok settings
  | settings, 'c' :: rest => turn isOn { settings with isGiven := true } rest
  | settings, letter :: rest =>
    match settings.switches.turn? isOn letter with
    | none => .error letter
    | some switches => turn isOn { settings with switches := switches } rest

/-- Splits the words of the interpreter of scripts into its settings and its arguments. -/
def Settings.read : Settings → List String → Except Char (Settings × List String)
  | settings, [] => .ok (settings, [])
  | settings, word :: rest =>
    match word.toList with
    | ['-'] => .ok (settings, rest)
    | ['-', '-'] => .ok (settings, rest)
    | '-' :: letters => (settings.turn true letters).bind fun settings => read settings rest
    | '+' :: letters => (settings.turn false letters).bind fun settings => read settings rest
    | _ => .ok (settings, word :: rest)

/-- Starts the interpreter of scripts under a name with its arguments. -/
def interpret (tree : FileTree) (workingDirectory : WorkingDirectory) (name : String)
    (words : List String) : Launch :=
  let refused := fun (reason : String) => Launch.mk [] name [] .off (some reason)
  match Settings.read ⟨.off, false⟩ words with
  | .error letter => refused ("Illegal option -" ++ String.singleton letter)
  | .ok (⟨switches, true⟩, []) => ⟨[], name, [], switches, some "-c requires an argument"⟩
  | .ok (⟨switches, true⟩, [text]) => ⟨Text.encode text, name, [], switches, none⟩
  | .ok (⟨switches, true⟩, text :: given :: rest) => ⟨Text.encode text, given, rest, switches, none⟩
  | .ok (⟨switches, false⟩, []) => ⟨[], name, [], switches, none⟩
  | .ok (⟨switches, false⟩, path :: rest) =>
    match tree.read workingDirectory path with
    | .ok content => ⟨content, path, rest, switches, none⟩
    | .error _ => refused ("cannot open " ++ path ++ ": No such file")

/-- Starts the program that a path names, under a name and with arguments. -/
def launch (tree : FileTree) (workingDirectory : WorkingDirectory) :
    (scripts : Nat) → (path name : String) → (arguments : List String) → Except Refusal Launch
  | 0, _, _, _ => .error .tooManyLinks
  | scripts + 1, path, name, arguments =>
    match tree.find? workingDirectory path with
    | .error refusal => .error refusal
    | .ok (_, .interpreter) => .ok (interpret tree workingDirectory name arguments)
    | .ok (_, .file [35, 33] true) => .error .permissionDenied
    | .ok (_, .file content true) =>
      match interpreterLine? content with
      | none => .error .execFormat
      | some (interpreter, argument) =>
        -- the interpreter gets the path of the script in place of its name
        launch tree workingDirectory scripts interpreter interpreter
          (argument.toList ++ path :: arguments)
    | .ok _ => .error .permissionDenied

end LispShell.Script
