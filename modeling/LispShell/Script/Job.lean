import LispShell.Script.Launch
import LispShell.Script.Lexeme
import LispShell.Script.Pattern
import LispShell.Script.Print
import LispShell.Script.Test
import LispShell.Table

/-! # Jobs
The state of a running script and the steps it is made of. -/

namespace LispShell.Script

/-- Where a descriptor writes to. -/
inductive Sink where
  /-- The output of the script. -/
  | output
  /-- The error output of the script. -/
  | errors
  /-- A file. -/
  | file (place : Place)
  /-- Nowhere. -/
  | nowhere
  deriving Repr, DecidableEq

/-- The state of a running script. -/
structure Job where
  /-- The name of the script. -/
  name : String
  /-- Its arguments. -/
  arguments : List String
  /-- The files. -/
  files : FileTree
  /-- The working directory. -/
  workingDirectory : WorkingDirectory
  /-- The path by which the working directory was entered. -/
  directoryPath : String
  /-- The variables. -/
  bindings : Table String
  /-- The names of the variables that children see. -/
  exported : List String
  /-- The functions. -/
  functions : Table Command
  /-- The actions for the end of the script and for signals. -/
  traps : Table String
  /-- What the local variables of the functions that are running hid, innermost first. -/
  hidden : List (List (String × Option String))
  /-- The number of loops that are running. -/
  loops : Nat
  /-- The status of the last command. -/
  status : Nat
  /-- The options. -/
  switches : Switches
  /-- The names of the variables that keep their values. -/
  fixed : List String
  /-- The line of the command that is running. -/
  line : Nat
  /-- The input left. -/
  input : Bytes
  /-- What was written to the output. -/
  output : Bytes
  /-- What was written to the error output. -/
  errors : Bytes
  /-- Where the descriptors write to. -/
  sinks : List (Nat × Sink)

/-- Why the commands of a script are not run in order. -/
inductive Flow where
  /-- The script ends. -/
  | exit (status : Nat)
  /-- A signal ends the script. -/
  | killed (signal : Nat)
  /-- A function returns. -/
  | returned (status : Nat)
  /-- Loops end. -/
  | broken (loops : Nat)
  /-- A loop goes on with its next round. -/
  | continued (loops : Nat)
  /-- The script takes more steps than it may. -/
  | exhausted
  deriving Repr, DecidableEq

/-- A step of a running script. -/
abbrev Act := ExceptT Flow (StateM Job)

namespace Job

/-- The status of a command that is misused. -/
def misuse : Nat := 2

/-- The number that stands for the process of a script. -/
def processNumber : String := "4242"

/-- The characters that end fields where none are chosen. -/
def defaultSeparators : String := " \t\n"

/-- Writes bytes to where a descriptor writes to. -/
def emit (descriptor : Nat) (bytes : Bytes) : Act Unit :=
  modify fun job =>
    match job.sinks.lookup descriptor with
    | some .output => { job with output := job.output ++ bytes }
    | some .errors => { job with errors := job.errors ++ bytes }
    | some (.file place) =>
      match job.files.entry? place with
      | some (.file content isProgram) =>
        { job with files := job.files.put place (.file (content ++ bytes) isProgram) }
      | _ => job
    | _ => job

/-- Writes a line to the output. -/
def say (text : String) : Act Unit :=
  emit 1 (Text.encode (text ++ "\n"))

/-- Reports what went wrong. -/
def complain (text : String) : Act Unit := do
  let job ← get
  emit 2 (Text.encode (job.name ++ ": " ++ toString job.line ++ ": " ++ text ++ "\n"))

/-- Reports what went wrong and ends the script. -/
def abort {α : Type} (text : String) : Act α := do
  complain text
  throw (.exit misuse)

/-- Sets a variable. -/
def assign (name value : String) : Act Unit := do
  if (← get).fixed.contains name then abort (name ++ ": is read only")
  else modify fun job => { job with bindings := job.bindings.insert name value }

/-- Removes a variable. -/
def remove (name : String) : Act Unit :=
  modify fun job =>
    { job with
      bindings := job.bindings.erase name
      exported := job.exported.filter (· != name) }

/-- Gives a variable the value it had. -/
def restore (old : String × Option String) : Act Unit :=
  match old.2 with
  | some value =>
    modify fun job => { job with bindings := job.bindings.insert old.1 value }
  | none => modify fun job => { job with bindings := job.bindings.erase old.1 }

/-- Lets children see a variable. -/
def exportName (name : String) : Act Unit :=
  modify fun job =>
    if job.exported.contains name then job else { job with exported := name :: job.exported }

/-- The value of a parameter. -/
def value? (name : String) (job : Job) : Option String :=
  match name with
  | "?" => some (toString job.status)
  | "#" => some (toString job.arguments.length)
  | "$" => some processNumber
  | "!" => none
  | "-" => some job.switches.letters
  | "0" => some job.name
  | "@" => if job.arguments.isEmpty then none else some (String.intercalate " " job.arguments)
  | "*" => if job.arguments.isEmpty then none else some (String.intercalate " " job.arguments)
  | _ =>
    match name.toNat? with
    | some number => job.arguments[number - 1]?
    | none => job.bindings.find? name

/-- The characters that end fields. -/
def separators (job : Job) : List Char :=
  ((job.bindings.find? "IFS").getD defaultSeparators).toList

/-- The variables that children see. -/
def environment (job : Job) : Table String :=
  .ofList (job.exported.filterMap fun name => (job.bindings.find? name).map (name, ·))

/-- The files that tests look at. -/
def testFiles (job : Job) : Test.Files :=
  ⟨job.files, job.workingDirectory⟩

end Job

/-! ## Fields -/

/-- A character of an expanded word, or a mark in it. -/
inductive Glyph where
  /-- A character that stands for itself. -/
  | quoted (c : Char)
  /-- A character of the script. -/
  | written (c : Char)
  /-- A character that an expansion gave. -/
  | expanded (c : Char)
  /-- The end of a field. -/
  | boundary
  /-- A mark that there is a field here even if it is empty. -/
  | anchor
  deriving Repr, DecidableEq

namespace Glyph

/-- The character of a glyph for matching. -/
def patternChar? : Glyph → Option PatternChar
  | .quoted c => some ⟨c, true⟩
  | .written c => some ⟨c, false⟩
  | .expanded c => some ⟨c, false⟩
  | .boundary => some ⟨' ', true⟩
  | .anchor => none

/-- The text of glyphs that are not split into fields. -/
def text (glyphs : List Glyph) : String :=
  String.ofList ((glyphs.filterMap patternChar?).map (·.char))

/-- The pattern that glyphs form. -/
def pattern (glyphs : List Glyph) : Pattern :=
  let chars := glyphs.filterMap patternChar?
  Pattern.read (chars.length + 1) chars

/-- A field: its characters, some of which mean themselves. -/
abbrev Field := List PatternChar

/-- The fields of glyphs. `current` is the field that is being read, in reverse order, if there is
one; `closed` tells that blanks have just ended one, so that the next separator ends no other. -/
def fields (separators : List Char) (current : Option Field) (closed : Bool) :
    List Glyph → List Field
  | [] => (current.map List.reverse).toList
  | .anchor :: rest => fields separators (some (current.getD [])) false rest
  | .boundary :: rest => (current.map List.reverse).toList ++ fields separators none false rest
  | .quoted c :: rest => fields separators (some (⟨c, true⟩ :: current.getD [])) false rest
  | .written c :: rest => fields separators (some (⟨c, false⟩ :: current.getD [])) false rest
  | .expanded c :: rest =>
    if separators.contains c then
      match current with
      | some field =>
        field.reverse ::
          fields separators none (c == ' ' || c == '\t' || c == '\n') rest
      | none =>
        if c == ' ' || c == '\t' || c == '\n' then fields separators none closed rest
        else if closed then fields separators none false rest
        else [] :: fields separators none false rest
    else fields separators (some (⟨c, false⟩ :: current.getD [])) false rest

/-- The text of a field. -/
def fieldText (field : Field) : String :=
  String.ofList (field.map (·.char))

/-- The components of a field between slashes. -/
def components : Field → List Field
  | [] => [[]]
  | c :: rest =>
    if c.char == '/' then [] :: components rest
    else
      match components rest with
      | [] => [[c]]
      | first :: others => (c :: first) :: others

/-- The paths that match the components after a start of the path. -/
def matching (files : Test.Files) (start : String) : List Field → List String
  | [] => [start]
  | component :: rest =>
    let separator := if rest.isEmpty then "" else "/"
    let pattern := Pattern.read (component.length + 1) component
    if pattern.isProper then
      match files.tree.directory? files.workingDirectory (if start == "" then "." else start) with
      | .error _ => []
      | .ok directory =>
        let shown := fun (name : String) =>
          name.toList.head? != some '.' || component.head?.map (·.char) == some '.'
        let names := (files.tree.namesIn directory).filter fun name =>
          shown name && Pattern.isMatch pattern name.toList
        (names.mergeSort fun a b => decide (a ≤ b)).flatMap fun name =>
          matching files (start ++ name ++ separator) rest
    else
      let next := start ++ fieldText component ++ separator
      if rest.isEmpty && (files.entry? next).isNone then []
      else matching files next rest

/-- The words that a field stands for: the paths that it matches, or itself. -/
def words (job : Job) (field : Field) : List String :=
  if (Pattern.read (field.length + 1) field).isProper && !job.switches.plainPatterns then
    match matching job.testFiles "" (components field) with
    | [] => [fieldText field]
    | found => found
  else [fieldText field]

/-- Characters of the script taken as characters that an expansion gave. -/
def asExpanded : Glyph → Glyph
  | .written c => .expanded c
  | other => other

/-- The glyphs of the value of an expansion. -/
def ofValue (isQuoted : Bool) (value : String) : List Glyph :=
  if isQuoted then .anchor :: value.toList.map .quoted else value.toList.map .expanded

/-- The glyphs of all arguments, each a field of its own. -/
def ofArguments (isQuoted : Bool) (arguments : List String) : List Glyph :=
  List.flatten ((arguments.map (ofValue isQuoted)).intersperse [.boundary])

end Glyph

end LispShell.Script
