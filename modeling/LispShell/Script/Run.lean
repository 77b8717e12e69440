import LispShell.Script.Arithmetic
import LispShell.Script.Launch
import LispShell.Script.Parser
import LispShell.Script.Utility
import LispShell.World.OperatingSystem

/-! # Running scripts
Expansion of words and execution of commands, which depend on each other. Every function takes a
bound on the number of calls that may still be nested in it. -/

namespace LispShell.Script

/-- The bound on nested calls of a script. -/
def callBound : Nat := 20000

/-- The status of a program that is not found. -/
def notFoundStatus : Nat := 127

/-- The status of a program that cannot be started. -/
def notStartedStatus : Nat := 126

/-- The status that a script sees of a child by its return code. -/
def seenStatus (returnCode : Int) : Nat :=
  if returnCode < 0 then 128 + returnCode.natAbs else returnCode.toNat

/-- The signal that kills a script which takes more steps than it may. -/
def exhaustedSignal : Nat := 9

namespace Job

/-- Sets the status and gives it. -/
def finish (status : Nat) : Act Nat := do
  modify fun job => { job with status := status }
  return status

/-- Runs something in a copy of the job. What it did to files and to the outputs stays. -/
def isolated (act : Act Nat) : Act Nat := do
  let before ← get
  let status ←
    tryCatch act fun flow =>
      match flow with
      | .exit status => pure status
      | .returned status => pure status
      | .broken _ => pure 0
      | .continued _ => pure 0
      | other => throw other
  modify fun after =>
    { before with
      files := after.files
      input := after.input
      output := after.output
      errors := after.errors }
  finish status

/-- Runs something in a copy of the job and takes what it writes to the output. -/
def captured (act : Act Nat) : Act Bytes := do
  let before ← get
  -- the copy writes to an output of its own, whatever the descriptors of the job are
  set { before with output := [], sinks := (1, .output) :: before.sinks }
  let _ ← isolated act
  let after ← get
  set { after with output := before.output, sinks := before.sinks }
  return after.output

/-- Why a file cannot be made or opened. -/
def openFault (refusal : Refusal) (absent : String) : String :=
  if refusal = .notFound ∨ refusal = .notADirectory then absent else refusal.text

/-- Opens a file for writing, emptied unless it is to be extended. -/
def openSink (extend : Bool) (path : String) : Act (Option Sink) := do
  let job ← get
  let mode := if extend then FileTree.WriteMode.extend else .replace
  match job.files.write job.workingDirectory mode [] path with
  | .error refusal =>
    complain ("cannot create " ++ path ++ ": " ++ openFault refusal "Directory nonexistent")
    return none
  | .ok files =>
    set { job with files := files }
    match files.find? job.workingDirectory path with
    | .ok (place, .file _ _) => return some (.file place)
    | _ => return some .nowhere

/-- Applies a redirection whose word is expanded; false if that is impossible. -/
def redirect (target : String) : Redirect → Act Bool
  | .toFile descriptor extend _ => do
    match ← openSink extend target with
    | none => return false
    | some sink =>
      modify fun job => { job with sinks := (descriptor, sink) :: job.sinks }
      return true
  | .fromFile _ _ => do
    let job ← get
    match job.files.read job.workingDirectory target with
    | .ok content =>
      set { job with input := content }
      return true
    | .error refusal =>
      complain ("cannot open " ++ target ++ ": " ++ openFault refusal "No such file")
      return false
  | .fromText _ _ => do
    modify fun job => { job with input := Text.encode target }
    return true
  | .copy descriptor _ => do
    let job ← get
    if target == "-" then
      set { job with sinks := (descriptor, .nowhere) :: job.sinks }
      return true
    else
      match target.toNat?.bind fun source => if source = 0 then some .nowhere
          else job.sinks.lookup source with
      | some sink =>
        set { job with sinks := (descriptor, sink) :: job.sinks }
        return true
      | none =>
        complain (target ++ ": Bad file descriptor")
        return false

/-- The word of a redirection. -/
def redirectWord : Redirect → Word
  | .toFile _ _ word => word
  | .fromFile _ word => word
  | .fromText _ word => word
  | .copy _ word => word

/-- Whether a redirection gives a command another input. -/
def givesInput : Redirect → Bool
  | .fromFile _ _ => true
  | .fromText _ _ => true
  | _ => false

/-- A word with the home directory in place of a tilde at its start. -/
def withHome (word : Word) : Word :=
  let isEnd := fun (rest : Word) =>
    match rest with
    | [] => true
    | .text "/" false :: _ => true
    | _ => false
  match word with
  | .text "~" false :: rest => if isEnd rest then .param "HOME" true :: rest else word
  | _ => word

/-- What an expansion gives for a parameter without a value. -/
def absent (name : String) : Act String := do
  if (← get).switches.stopOnUnset && name != "!" then abort (name ++ ": parameter not set")
  else return ""

/-- An output without the line feeds at its end. -/
def withoutFinalNewlines (bytes : Bytes) : Bytes :=
  (bytes.reverse.dropWhile (· == 10)).reverse

/-- Ends a script because of a failed command, if it is to end so and the command is no test. -/
def checkFailure (tested : Bool) (status : Nat) : Act Nat := do
  let job ← get
  if status != 0 && job.switches.stopOnFailure && !tested then throw (.exit status)
  else return status

/-- The paths at which a program is looked for. -/
def programPaths (job : Job) (name : String) : List String :=
  if name.toList.contains '/' then [name]
  else
    (Path.pieces ':' ((job.bindings.find? "PATH").getD "")).map fun directory =>
      Path.join directory name

/-- The path of the program that a name stands for: the first that can be started, or else the first
that is there. -/
def program? (job : Job) (name : String) : Option String :=
  let standing? : String → Option Entry := fun path =>
    (job.files.find? job.workingDirectory path).toOption.map fun (_, entry) => entry
  let paths := if name == "" then [] else job.programPaths name
  (paths.find? fun path =>
    match standing? path with
    | some (.file _ isProgram) => isProgram
    | some .interpreter => true
    | _ => false) <|> paths.find? fun path => (standing? path).isSome

/-- What a name means as a command. -/
inductive Meaning where
  /-- A word of the syntax. -/
  | keyword
  /-- A function. -/
  | function
  /-- A utility. -/
  | utility
  /-- A program. -/
  | program (path : String)

/-- What a name means as a command, if anything. -/
def meaning? (job : Job) (name : String) : Option Meaning :=
  if Parser.reservedWords.contains name then some .keyword
  else if job.functions.contains name then some .function
  else if (Utility.find? name).isSome || Utility.compound.contains name then some .utility
  else (job.program? name).map .program

/-- Tells what names mean. -/
def describe : List String → Act Nat
  | [] => return 0
  | name :: rest => do
    let found := (← get).meaning? name
    match found with
    | some .keyword => say (name ++ " is a shell keyword")
    | some .function => say (name ++ " is a shell function")
    | some .utility => say (name ++ " is a shell builtin")
    | some (.program path) => say (name ++ " is " ++ path)
    | none => say (name ++ ": not found")
    let others ← describe rest
    return if found.isNone then notFoundStatus else others

/-- A new job for a script. -/
def ofLaunch (launch : Launch) (files : FileTree) (workingDirectory : WorkingDirectory)
    (environment : Table String) (input : Bytes) : Job :=
  let named := environment.entries.filter fun (name, _) => Lexeme.isName name && name != "IFS"
  let physical := Path.absolute workingDirectory.place
  let directoryPath :=
    match environment.find? "PWD" with
    | some path =>
      if Path.isAbsolute path && (files.directory? ⟨[], 0⟩ path).toOption == some workingDirectory then
        path
      else physical
    | none => physical
  { name := launch.name
    arguments := launch.arguments
    files := files
    workingDirectory := workingDirectory
    directoryPath := directoryPath
    bindings := (Table.ofList named).insert "PWD" directoryPath
    exported := "PWD" :: (named.map (·.1)).filter (· != "PWD")
    functions := .empty
    traps := .empty
    hidden := []
    loops := 0
    status := 0
    switches := launch.switches
    fixed := []
    line := 1
    input := input
    output := []
    errors := []
    sinks := [(1, .output), (2, .errors)] }

end Job

mutual
/-- Expands the parts of a word. -/
def expandParts : (bound : Nat) → Word → Act (List Glyph)
  | 0, _ => throw .exhausted
  | _ + 1, [] => pure []
  | bound + 1, part :: rest => do
    let first ← expandPart bound part
    let others ← expandParts bound rest
    return first ++ others

/-- Expands a part of a word. -/
def expandPart : (bound : Nat) → WordPart → Act (List Glyph)
  | 0, _ => throw .exhausted
  | bound + 1, part =>
    match part with
    | .text value true => pure (Glyph.ofValue true value)
    | .text value false => pure (value.toList.map .written)
    | .param "@" quoted => return Glyph.ofArguments quoted (← get).arguments
    | .param "*" false => return Glyph.ofArguments false (← get).arguments
    | .param "*" true => do
      let job ← get
      let separator := (job.separators.head?.map String.singleton).getD ""
      return Glyph.ofValue true (String.intercalate separator job.arguments)
    | .param name quoted => do
      match (← get).value? name with
      | some value => return Glyph.ofValue quoted value
      | none => return Glyph.ofValue quoted (← Job.absent name)
    | .length name => do
      return Glyph.ofValue false (toString (((← get).value? name).getD "").length)
    | .orElse name fallback emptyCounts word quoted => do
      let value := ((← get).value? name).filter fun value => !emptyCounts || value != ""
      match fallback, value with
      | .alternative, none => pure (Glyph.ofValue quoted "")
      | .alternative, some _ => expandFallback quoted bound word
      | _, some value => pure (Glyph.ofValue quoted value)
      | .substitute, none => expandFallback quoted bound word
      | .assign, none =>
        let text := Glyph.text (← expandParts bound word)
        Job.assign name text
        pure (Glyph.ofValue quoted text)
      | .complain, none =>
        let text := Glyph.text (← expandParts bound word)
        let reason := if emptyCounts then "parameter not set or null" else "parameter not set"
        Job.abort (name ++ ": " ++ if text == "" then reason else text)
    | .trimmed name atEnd longest pattern quoted => do
      let matcher := Glyph.pattern (← expandParts bound pattern)
      let value := (((← get).value? name).getD "").toList
      let trimmed :=
        if atEnd then Pattern.trimEnd matcher longest value
        else Pattern.trimStart matcher longest value
      pure (Glyph.ofValue quoted (String.ofList trimmed))
    | .output source quoted => do
      let bytes ← Job.captured (runText bound source)
      pure (Glyph.ofValue quoted (Text.decodeLossy (Job.withoutFinalNewlines bytes)))
    | .arithmetic expression quoted => do
      let text := Glyph.text (← expandParts bound expression)
      let job ← get
      match (Arithmetic.read text).bind (Arithmetic.value job.bindings) with
      | .ok (value, bindings) =>
        set { job with bindings := bindings }
        pure (Glyph.ofValue quoted (toString value))
      | .error fault => Job.abort (fault.message text)
    | .invalid => Job.abort "Bad substitution"

/-- Expands the word that stands in for the value of a parameter. -/
def expandFallback (quoted : Bool) : (bound : Nat) → Word → Act (List Glyph)
  | 0, _ => throw .exhausted
  | bound + 1, word => do
    let glyphs ← expandParts bound word
    return if quoted then .anchor :: glyphs else glyphs.map Glyph.asExpanded

/-- Expands a word to a text that is not split. -/
def expandText : (bound : Nat) → Word → Act String
  | 0, _ => throw .exhausted
  | bound + 1, word => return Glyph.text (← expandParts bound (Job.withHome word))

/-- Expands words to the words they stand for. -/
def expandWords : (bound : Nat) → List Word → Act (List String)
  | 0, _ => throw .exhausted
  | _ + 1, [] => pure []
  | bound + 1, word :: rest => do
    let glyphs ← expandParts bound (Job.withHome word)
    let job ← get
    let first := (Glyph.fields job.separators none false glyphs).flatMap (Glyph.words job)
    let others ← expandWords bound rest
    return first ++ others

/-- Applies redirections in order; false as soon as one is impossible. -/
def applyRedirects : (bound : Nat) → List Redirect → Act Bool
  | 0, _ => throw .exhausted
  | _ + 1, [] => pure true
  | bound + 1, redirect :: rest => do
    let target ← expandText bound (Job.redirectWord redirect)
    if ← Job.redirect target redirect then applyRedirects bound rest else return false

/-- Assigns variables in order and gives what they held before. -/
def applyAssignments : (bound : Nat) → List (String × Word) →
    Act (List (String × Option String))
  | 0, _ => throw .exhausted
  | _ + 1, [] => pure []
  | bound + 1, (name, word) :: rest => do
    let value ← expandText bound word
    let old := (← get).bindings.find? name
    Job.assign name value
    return (name, old) :: (← applyAssignments bound rest)

/-- Runs a command; `tested` tells that its failure decides something and ends nothing. -/
def runCommand (tested : Bool) : (bound : Nat) → Command → Act Nat
  | 0, _ => throw .exhausted
  | bound + 1, command =>
    match command with
    | .simple line assignments words redirects => do
      modify fun job => { job with line := line }
      Job.checkFailure tested (← runSimple bound assignments words redirects)
    | .pipe stages => do
      Job.checkFailure tested (← Job.finish (← runStages bound stages))
    | .negated body => do
      let status ← runCommand true bound body
      Job.finish (if status = 0 then 1 else 0)
    | .both first second => do
      if (← runCommand true bound first) = 0 then runCommand tested bound second
      else return (← get).status
    | .either first second => do
      if (← runCommand true bound first) = 0 then return 0
      else runCommand tested bound second
    | .sequence commands => runAll tested bound commands
    | .branch condition consequent alternative => do
      if (← runCommand true bound condition) = 0 then runBranch tested bound consequent
      else runBranch tested bound alternative
    | .loop wanted condition body => do
      modify fun job => { job with loops := job.loops + 1 }
      let status ← runLoop tested wanted condition body 0 bound
      modify fun job => { job with loops := job.loops - 1 }
      Job.finish status
    | .forEach name words body => do
      let items ←
        match words with
        | some words => expandWords bound words
        | none => pure (← get).arguments
      modify fun job => { job with loops := job.loops + 1 }
      let status ← runForEach tested name body 0 bound items
      modify fun job => { job with loops := job.loops - 1 }
      Job.finish status
    | .choose subject cases => do
      let text ← expandText bound subject
      runCases tested text.toList bound cases
    | .isolated body => do
      Job.checkFailure tested (← Job.isolated (runCommand tested bound body))
    | .redirected body redirects => do
      let before ← get
      if ← applyRedirects bound redirects then
        let reading := redirects.any Job.givesInput
        let status ← runCommand tested bound body
        modify fun job =>
          { job with
            sinks := before.sinks
            input := if reading then before.input else job.input }
        return status
      else
        modify fun job => { job with sinks := before.sinks, input := before.input }
        Job.checkFailure tested (← Job.finish Job.misuse)
    | .define name body => do
      modify fun job => { job with functions := job.functions.insert name body }
      Job.finish 0

/-- Runs the chosen branch; an empty one succeeds. -/
def runBranch (tested : Bool) : (bound : Nat) → Command → Act Nat
  | 0, _ => throw .exhausted
  | bound + 1, body =>
    match body with
    | .sequence [] => Job.finish 0
    | other => runCommand tested bound other

/-- Runs commands in order. -/
def runAll (tested : Bool) : (bound : Nat) → List Command → Act Nat
  | 0, _ => throw .exhausted
  | _ + 1, [] => return (← get).status
  | bound + 1, command :: rest => do
    let _ ← runCommand tested bound command
    runAll tested bound rest

/-- Runs the stages of a pipeline, each in a copy of the job. -/
def runStages : (bound : Nat) → List Command → Act Nat
  | 0, _ => throw .exhausted
  | _ + 1, [] => return 0
  | bound + 1, [stage] => Job.isolated (runCommand true bound stage)
  | bound + 1, stage :: rest => do
    let before ← get
    let bytes ← Job.captured (runCommand true bound stage)
    modify fun job => { job with input := bytes }
    let status ← runStages bound rest
    modify fun job => { job with input := before.input }
    return status

/-- Runs the body of a loop once; true if the loop is over. -/
def runRound (tested : Bool) (body : Command) : (bound : Nat) → Act (Nat × Bool)
  | 0 => throw .exhausted
  | bound + 1 =>
    tryCatch (return (← runCommand tested bound body, false)) fun flow =>
      match flow with
      | .broken 1 => pure (0, true)
      | .continued 1 => pure (0, false)
      | .broken (count + 1) => do
        modify fun job => { job with loops := job.loops - 1 }
        throw (.broken count)
      | .continued (count + 1) => do
        modify fun job => { job with loops := job.loops - 1 }
        throw (.continued count)
      | other => throw other

/-- Runs a loop with a condition. -/
def runLoop (tested wanted : Bool) (condition body : Command) (status : Nat) :
    (bound : Nat) → Act Nat
  | 0 => throw .exhausted
  | bound + 1 => do
    let outcome ← runCommand true bound condition
    if (outcome == 0) == wanted then
      let (status, ended) ← runRound tested body bound
      if ended then return status else runLoop tested wanted condition body status bound
    else return status

/-- Runs a loop over words. -/
def runForEach (tested : Bool) (name : String) (body : Command) (status : Nat) :
    (bound : Nat) → List String → Act Nat
  | 0, _ => throw .exhausted
  | _ + 1, [] => return status
  | bound + 1, item :: rest => do
    Job.assign name item
    let (status, ended) ← runRound tested body bound
    if ended then return status else runForEach tested name body status bound rest

/-- Runs the first case with a pattern that matches. -/
def runCases (tested : Bool) (subject : List Char) :
    (bound : Nat) → List (List Word × Command) → Act Nat
  | 0, _ => throw .exhausted
  | _ + 1, [] => Job.finish 0
  | bound + 1, (patterns, body) :: rest => do
    if ← anyMatches subject bound patterns then runBranch tested bound body
    else runCases tested subject bound rest

/-- Whether one of some patterns matches. -/
def anyMatches (subject : List Char) : (bound : Nat) → List Word → Act Bool
  | 0, _ => throw .exhausted
  | _ + 1, [] => return false
  | bound + 1, word :: rest => do
    let pattern := Glyph.pattern (← expandParts bound word)
    if Pattern.isMatch pattern subject then return true else anyMatches subject bound rest

/-- Runs a simple command. -/
def runSimple : (bound : Nat) → List (String × Word) → List Word → List Redirect → Act Nat
  | 0, _, _, _ => throw .exhausted
  | bound + 1, assignments, words, redirects => do
    let expanded ← expandWords bound words
    let before ← get
    if ← applyRedirects bound redirects then
      let reading := redirects.any Job.givesInput
      let status ←
        match expanded with
        | [] => do
          modify fun job => { job with status := 0 }
          let _ ← applyAssignments bound assignments
          pure (← get).status
        | "exec" :: rest => do
          let _ ← applyAssignments bound assignments
          match rest with
          | [] => return 0
          | name :: arguments => throw (.exit (← runProgram true bound name arguments))
        | name :: arguments => do
          let old ← applyAssignments bound assignments
          if Utility.special.contains name then runNamed bound name arguments
          else
            -- assignments before an ordinary command last as long as the command
            let exported := (← get).exported
            old.forM fun (name, _) => Job.exportName name
            let status ← runNamed bound name arguments
            unless old.isEmpty do
              old.reverse.forM Job.restore
              modify fun job => { job with exported := exported }
            pure status
      modify fun job =>
        { job with
          sinks := before.sinks
          input := if reading then before.input else job.input }
      Job.finish status
    else
      modify fun job => { job with sinks := before.sinks, input := before.input }
      Job.finish Job.misuse

/-- Runs the function, utility or program of a name. -/
def runNamed : (bound : Nat) → (name : String) → (arguments : List String) → Act Nat
  | 0, _, _ => throw .exhausted
  | bound + 1, name, arguments => do
    let job ← get
    match job.functions.find? name with
    | some body => runFunction bound body arguments
    | none =>
      match name with
      | "eval" => runText bound (String.intercalate " " arguments)
      | "." => runSource bound arguments
      | "command" => runPlain bound arguments
      | "kill" => runKill bound arguments
      | "type" => Job.describe arguments
      | _ =>
        match Utility.find? name with
        | some utility => utility arguments
        | none => runProgram false bound name arguments

/-- Runs a utility or a program, but no function. -/
def runPlain : (bound : Nat) → (words : List String) → Act Nat
  | 0, _ => throw .exhausted
  | _ + 1, [] => return 0
  | _ + 1, "-v" :: names => do
    match names with
    | name :: _ =>
      match (← get).meaning? name with
      | some (.program path) => Job.say path
      | some _ => Job.say name
      | none => return notFoundStatus
      return 0
    | [] => return 0
  | _ + 1, "-V" :: names => Job.describe names
  | bound + 1, name :: arguments =>
    match Utility.find? name with
    | some utility => utility arguments
    | none =>
      match name with
      | "eval" => runText bound (String.intercalate " " arguments)
      | "." => runSource bound arguments
      | "kill" => runKill bound arguments
      | _ => runProgram false bound name arguments

/-- Runs a function with arguments of its own. -/
def runFunction : (bound : Nat) → Command → (arguments : List String) → Act Nat
  | 0, _, _ => throw .exhausted
  | bound + 1, body, arguments => do
    let before ← get
    set { before with arguments := arguments, hidden := [] :: before.hidden, loops := 0 }
    let status ←
      tryCatch (runCommand false bound body) fun flow =>
        match flow with
        | .returned status => pure status
        | other => throw other
    ((← get).hidden.headD []).forM Job.restore
    modify fun job =>
      { job with
        arguments := before.arguments
        hidden := before.hidden
        loops := before.loops }
    return status

/-- Sends a signal. Only the script itself can be the target. -/
def runKill : (bound : Nat) → (arguments : List String) → Act Nat
  | 0, _ => throw .exhausted
  | bound + 1, arguments => do
    match Utility.killTarget? arguments with
    | none =>
      Job.complain (if arguments.isEmpty then Utility.killUsage else "kill: Illegal option")
      return Job.misuse
    | some (signal, targets) =>
      if let some word := targets.find? fun word => word.toInt?.isNone then
        Job.complain ("kill: Illegal number: " ++ word)
        return Job.misuse
      else if targets.contains Job.processNumber then
        match (← get).traps.find? (toString signal), signal with
        | none, _ => if Utility.harmless.contains signal then return 0 else throw (.killed signal)
        | some _, 9 => throw (.killed 9)
        | some action, _ => runText bound action
      else
        Job.complain "kill: No such process"
        return 1

/-- Runs the script in a file as part of the job. -/
def runSource : (bound : Nat) → (arguments : List String) → Act Nat
  | 0, _ => throw .exhausted
  | _ + 1, [] => return 0
  | bound + 1, name :: _ => do
    let job ← get
    let isThere := fun path => job.files.isFile job.workingDirectory path
    let path := ((job.programPaths name).find? isThere).getD name
    match job.files.read job.workingDirectory path with
    | .ok content =>
      tryCatch (runText bound (Text.decodeLossy content)) fun flow =>
        match flow with
        | .returned status => pure status
        | other => throw other
    | .error _ => Job.abort (".: cannot open " ++ name ++ ": No such file")

/-- Runs a text as part of the job, up to its first syntax fault. -/
def runText : (bound : Nat) → (source : String) → Act Nat
  | 0, _ => throw .exhausted
  | bound + 1, source => do
    let (commands, fault) := parse source.toList
    -- a text without a command succeeds
    if commands.isEmpty then let _ ← Job.finish 0
    let status ← runAll false bound commands
    match fault with
    | none => return status
    | some fault =>
      let job ← get
      Job.emit 2 (Text.encode (job.name ++ ": " ++ fault.message ++ "\n"))
      throw (.exit Job.misuse)

/-- Runs a program as a child, which may take the place of the script. A file without an
interpreter line is taken for a script. -/
def runProgram (inPlace : Bool) :
    (bound : Nat) → (name : String) → (arguments : List String) → Act Nat
  | 0, _, _ => throw .exhausted
  | bound + 1, name, arguments => do
    let job ← get
    let report := fun (reason : String) =>
      Job.complain ((if inPlace then "exec: " else "") ++ name ++ ": " ++ reason)
    match job.program? name with
    | none =>
      report (if name == "" then "Permission denied" else "not found")
      return notFoundStatus
    | some path =>
      match launch job.files job.workingDirectory maxScripts path name arguments with
      | .ok launched => runChild bound launched
      -- what is no program is run as a script
      | .error .execFormat =>
        let source := (job.files.read job.workingDirectory path).toOption.getD []
        runChild bound ⟨source, path, arguments, .off, none⟩
      | .error .notFound =>
        report "not found"
        return notFoundStatus
      | .error refusal =>
        report refusal.text
        return if name.toList.contains '/' then notStartedStatus else notFoundStatus

/-- Runs a script as a child of the job. -/
def runChild : (bound : Nat) → Launch → Act Nat
  | 0, _ => throw .exhausted
  | bound + 1, launched => do
    let job ← get
    let finished :=
      runScript bound
        (.ofLaunch launched job.files job.workingDirectory job.environment job.input) launched
    modify fun job => { job with files := finished.files }
    Job.emit 1 finished.output
    Job.emit 2 finished.errors
    return seenStatus finished.returnCode

/-- Runs a script from its start to its end. No script moves or removes a directory. -/
def runScript : (bound : Nat) → Job → Launch → Finished
  | 0, job, _ => ⟨job.files, job.workingDirectory, job.output, job.errors, -exhaustedSignal⟩
  | bound + 1, job, launched =>
    match launched.refusal with
    | some reason =>
      let report := launched.name ++ ": 0: " ++ reason ++ "\n"
      ⟨job.files, job.workingDirectory, job.output, job.errors ++ Text.encode report, Job.misuse⟩
    | none =>
      let returnCodeOf : Except Flow Nat → Int := fun outcome =>
        match outcome with
        | .ok status => status % 256
        | .error (.exit status) => status % 256
        | .error (.returned status) => status % 256
        | .error (.killed signal) => -signal
        | .error (.broken _) => 0
        | .error (.continued _) => 0
        | .error .exhausted => -exhaustedSignal
      let (outcome, after) :=
        (ExceptT.run (runText bound (Text.decodeLossy launched.source))).run job
      let killed :=
        match outcome with
        | .error (.killed _) => true
        | .error .exhausted => true
        | _ => false
      match after.traps.find? "0", killed with
      | some action, false =>
        let ending : Job :=
          { after with status := (returnCodeOf outcome).toNat, traps := .empty }
        let (last, final) := (ExceptT.run (runText bound action)).run ending
        let returnCode :=
          match last with
          | .error (.exit status) => returnCodeOf (.ok status)
          | _ => returnCodeOf outcome
        ⟨final.files, job.workingDirectory, final.output, final.errors, returnCode⟩
      | _, _ =>
        ⟨after.files, job.workingDirectory, after.output, after.errors, returnCodeOf outcome⟩
end

/-- Starts the program that a path names in a world, and runs it to its end. -/
def execute (world : World) (path : String) (arguments : List String) :
    Except Refusal Finished := do
  let launched ←
    launch world.files world.workingDirectory maxScripts path (arguments.headD path)
      arguments.tail
  return runScript callBound
    (.ofLaunch launched world.files world.workingDirectory world.environment []) launched

/-- The operating system whose programs are scripts. -/
instance operatingSystem : OperatingSystem where
  execute _ := execute

end LispShell.Script
