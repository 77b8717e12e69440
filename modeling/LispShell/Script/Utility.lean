import LispShell.Script.Job

/-! # Utilities of scripts
The commands that the interpreter of scripts knows by itself and that run no other command. Each
gives its status. -/

namespace LispShell.Script.Utility

/-- The signals by name. -/
def signals : List (String × Nat) :=
  [("EXIT", 0), ("HUP", 1), ("INT", 2), ("QUIT", 3), ("ILL", 4), ("TRAP", 5), ("ABRT", 6),
    ("BUS", 7), ("FPE", 8), ("KILL", 9), ("USR1", 10), ("SEGV", 11), ("USR2", 12), ("PIPE", 13),
    ("ALRM", 14), ("TERM", 15), ("STKFLT", 16), ("CHLD", 17), ("CONT", 18), ("STOP", 19),
    ("TSTP", 20), ("TTIN", 21), ("TTOU", 22), ("URG", 23), ("XCPU", 24), ("XFSZ", 25),
    ("VTALRM", 26), ("PROF", 27), ("WINCH", 28), ("IO", 29), ("PWR", 30), ("SYS", 31)]

/-- The signals that do not end a process. -/
def harmless : List Nat := [0, 17, 18, 23, 28]

/-- The number of a signal given by name or number. -/
def signal? (text : String) : Option Nat :=
  match text.toNat? with
  | some number => if number ≤ 64 then some number else none
  | none =>
    let plain := if "SIG".toList.isPrefixOf text.toList then (text.drop 3).toString else text
    signals.lookup plain

/-- The number that a word gives. -/
def number (name text : String) : Act Nat :=
  match (if text.toList.head? = some '+' then (text.drop 1).toString else text).toNat? with
  | some number => pure number
  | none => Job.abort (name ++ ": Illegal number: " ++ text)

/-- The status that the arguments give, by default that of the last command. -/
def status (name : String) (arguments : List String) : Act Nat :=
  match arguments with
  | [] => return (← get).status
  | word :: _ => number name word

/-- The number of loops that a word gives. -/
def loopCount (name : String) : List String → Act Nat
  | [] => pure 1
  | word :: _ =>
    match word.toNat? with
    | some (count + 1) => pure (count + 1)
    | _ => Job.abort (name ++ ": Illegal number: " ++ word)

/-- Prints its arguments. -/
def echo (arguments : List String) : Act Nat := do
  Job.emit 1 (Print.echo arguments)
  return 0

/-- Prints its arguments in a format. -/
def printf : List String → Act Nat
  | [] => do
    Job.complain "printf: usage: printf format [arg ...]"
    return Job.misuse
  | "--" :: format :: arguments => print format arguments
  | format :: arguments => print format arguments
where
  /-- Prints arguments in a format and reports what is wrong with them. -/
  print (format : String) (arguments : List String) : Act Nat := do
    let printed := Print.printf format arguments
    Job.emit 1 printed.bytes
    printed.complaints.forM fun complaint => Job.complain ("printf: " ++ complaint)
    match printed.fault with
    | some reason =>
      Job.complain ("printf: " ++ reason)
      return Job.misuse
    | none => return if printed.complaints.isEmpty then 0 else 1

/-- Enters a directory. -/
def cd (arguments : List String) : Act Nat := do
  let job ← get
  let old := job.directoryPath
  let (target, announce) :=
    match arguments.filter fun word => word != "-L" && word != "-P" && word != "--" with
    | [] => ((job.bindings.find? "HOME").getD "", false)
    | "-" :: _ => ((job.bindings.find? "OLDPWD").getD "", true)
    | path :: _ => (path, false)
  let path := Path.normalize (Path.join old target)
  match job.files.directory? job.workingDirectory path with
  | .ok directory =>
    set { job with workingDirectory := directory, directoryPath := path }
    Job.assign "OLDPWD" old
    Job.assign "PWD" path
    Job.exportName "OLDPWD"
    Job.exportName "PWD"
    if announce then Job.say path
    return 0
  | .error _ =>
    Job.complain ("cd: can't cd to " ++ target)
    return Job.misuse

/-- Prints the working directory. -/
def pwd (arguments : List String) : Act Nat := do
  let job ← get
  Job.say (if arguments.contains "-P" then Path.absolute job.workingDirectory.place
    else job.directoryPath)
  return 0

/-- Splits a word that assigns a variable. -/
def splitAssignment (word : String) : String × Option String :=
  match word.toList.span (· != '=') with
  | (name, []) => (String.ofList name, none)
  | (name, _ :: value) => (String.ofList name, some (String.ofList value))

/-- Assigns the variables that words assign, and does something with their names. -/
def declare (mark : String → Act Unit) (arguments : List String) : Act Nat := do
  for word in arguments do
    let (name, value) := splitAssignment word
    if Lexeme.isName name then
      mark name
      if let some value := value then Job.assign name value
    else Job.abort (name ++ ": bad variable name")
  return 0

/-- Prints the commands that would declare variables anew. -/
def list (declaration : String) (names : List String) : Act Nat := do
  let job ← get
  (names.mergeSort fun a b => decide (a ≤ b)).forM fun name =>
    match job.bindings.find? name with
    | some value => Job.say (declaration ++ " " ++ name ++ "='" ++ value ++ "'")
    | none => Job.say (declaration ++ " " ++ name)
  return 0

/-- Lets children see variables. -/
def exportNames (arguments : List String) : Act Nat := do
  match arguments.filter (· != "-p") with
  | [] => list "export" (← get).exported
  | words => declare Job.exportName words

/-- Makes variables keep their values. -/
def fixNames (arguments : List String) : Act Nat := do
  match arguments.filter (· != "-p") with
  | [] => list "readonly" (← get).fixed
  | words =>
    let status ← declare (fun _ => pure ()) words
    modify fun job =>
      { job with fixed := words.map (fun word => (splitAssignment word).1) ++ job.fixed }
    return status

/-- Makes variables local to the running function. -/
def localNames (arguments : List String) : Act Nat := do
  if (← get).hidden.isEmpty then Job.abort "local: not in a function"
  else
    declare
      (fun name => modify fun job =>
        match job.hidden with
        | innermost :: outer =>
          { job with hidden := ((name, job.bindings.find? name) :: innermost) :: outer }
        | [] => job)
      arguments

/-- Removes variables or functions. -/
def unset (arguments : List String) : Act Nat := do
  match arguments with
  | "-f" :: names =>
    for name in names do
      modify fun job => { job with functions := job.functions.erase name }
  | "-v" :: names => names.forM Job.remove
  | names => names.forM Job.remove
  return 0

/-- Turns an option on or off. -/
def setOption (isOn : Bool) (letter : Char) : Act Unit := do
  let job ← get
  match job.switches.turn? isOn letter with
  | some switches => set { job with switches := switches }
  | none => Job.abort ("set: Illegal option -" ++ String.singleton letter)

/-- Sets the arguments or the options. -/
def setOptions : List String → Act Nat
  | [] => do
    let job ← get
    job.bindings.names.forM fun name =>
      Job.say (name ++ "='" ++ (job.bindings.find? name).getD "" ++ "'")
    return 0
  | words => apply words
where
  /-- Applies the words in turn. -/
  apply : List String → Act Nat
    | [] => return 0
    | "-o" :: name :: rest => do
      setNamed true name
      apply rest
    | "+o" :: name :: rest => do
      setNamed false name
      apply rest
    | word :: rest =>
      match word.toList with
      | ['-', '-'] => setArguments rest
      | '-' :: option :: options => do
        (option :: options).forM (setOption true)
        apply rest
      | '+' :: option :: options => do
        (option :: options).forM (setOption false)
        apply rest
      | _ => setArguments (word :: rest)
  /-- Turns the option of a name on or off. -/
  setNamed (isOn : Bool) (name : String) : Act Unit :=
    match name with
    | "errexit" => setOption isOn 'e'
    | "nounset" => setOption isOn 'u'
    | "noglob" => setOption isOn 'f'
    | _ => pure ()
  /-- Sets the arguments. -/
  setArguments (words : List String) : Act Nat := do
    modify fun job => { job with arguments := words }
    return 0

/-- Drops arguments. -/
def shift (arguments : List String) : Act Nat := do
  let count ← (arguments.head?.map (number "shift")).getD (pure 1)
  let job ← get
  if job.arguments.length < count then Job.abort "shift: can't shift that many"
  else
    set { job with arguments := job.arguments.drop count }
    return 0

/-- A line of input without its end, whether it had one, and what follows it. -/
def takeLine (raw : Bool) : Bytes → Bytes × Bool × Bytes
  | [] => ([], false, [])
  | 10 :: rest => ([], true, rest)
  | 92 :: 10 :: rest =>
    if raw then ([92], true, rest) else takeLine raw rest
  | 92 :: byte :: rest =>
    let (line, ended, left) := takeLine raw rest
    (if raw then 92 :: byte :: line else byte :: line, ended, left)
  | byte :: rest =>
    let (line, ended, left) := takeLine raw rest
    (byte :: line, ended, left)

/-- The values of a row of names from the fields of a line: the last name gets what is left. -/
def shareOut (isBlank isSeparator : Char → Bool) : List String → List Char → List (String × String)
  | [], _ => []
  | [name], cs =>
    [(name, String.ofList (((cs.dropWhile isBlank).reverse.dropWhile isBlank).reverse))]
  | name :: names, cs =>
    let start := cs.dropWhile isBlank
    let field := start.takeWhile fun c => !isSeparator c
    let after := (start.dropWhile fun c => !isSeparator c).dropWhile isBlank
    let rest :=
      match after with
      | c :: others => if isSeparator c && !isBlank c then others else after
      | [] => []
    (name, String.ofList field) :: shareOut isBlank isSeparator names rest

/-- Reads a line of input into variables. -/
def read (arguments : List String) : Act Nat := do
  let raw := arguments.contains "-r"
  let names := arguments.filter (· != "-r")
  let job ← get
  let (line, ended, left) := takeLine raw job.input
  set { job with input := left }
  let separators := job.separators
  let isSeparator := fun c => separators.contains c
  let isBlank := fun c => isSeparator c && (c == ' ' || c == '\t' || c == '\n')
  let names := if names.isEmpty then ["REPLY"] else names
  for (name, value) in shareOut isBlank isSeparator names (Text.decodeLossy line).toList do
    Job.assign name value
  return if ended then 0 else 1

/-- Tests a condition under the name of the utility. -/
def test (name : String) (arguments : List String) : Act Nat := do
  match Test.outcome (← get).testFiles arguments with
  | .ok true => return 0
  | .ok false => return 1
  | .error fault =>
    Job.complain (name ++ ": " ++ fault.message)
    return Job.misuse

/-- Tests a condition between brackets. -/
def bracket (arguments : List String) : Act Nat := do
  if arguments.getLast? = some "]" then test "[" arguments.dropLast
  else
    Job.complain "[: missing ]"
    return Job.misuse

/-- Sets the action for the end of the script or for signals. -/
def trap : List String → Act Nat
  | [] => return 0
  | action :: names => do
    for name in names do
      let number := (signal? name).getD 0
      modify fun job =>
        { job with
          traps := if action == "-" then job.traps.erase (toString number)
            else job.traps.insert (toString number) action }
    return 0

/-- The signal and the processes that the arguments of `kill` name. -/
def killTarget? : List String → Option (Nat × List String)
  | "-s" :: name :: rest => (signal? name).map (·, rest)
  | "--" :: rest => some (15, rest)
  | word :: rest =>
    match word.toList with
    | '-' :: name => (signal? (String.ofList name)).map (·, rest)
    | _ => some (15, word :: rest)
  | [] => none

/-- How `kill` is to be used. -/
def killUsage : String :=
  "kill: Usage: kill [-s sigspec | -signum | -sigspec] [pid | job]... or\nkill -l [exitstatus]"

/-- The utilities that run other commands or act on the whole script. -/
def compound : List String :=
  ["eval", ".", "command", "kill", "exec", "type"]

/-- The utilities whose assignments stay when they are over. -/
def special : List String :=
  [":", ".", "break", "continue", "eval", "exit", "export", "readonly", "return", "set", "shift",
    "trap", "unset"]

/-- The utility that a name calls, if its only effects are on the job. -/
def find? : String → Option (List String → Act Nat)
  | ":" => some fun _ => return 0
  | "true" => some fun _ => return 0
  | "false" => some fun _ => return 1
  | "echo" => some echo
  | "printf" => some printf
  | "cd" => some cd
  | "pwd" => some pwd
  | "export" => some exportNames
  | "readonly" => some fixNames
  | "local" => some localNames
  | "unset" => some unset
  | "set" => some setOptions
  | "shift" => some shift
  | "read" => some read
  | "test" => some (test "test")
  | "[" => some bracket
  | "trap" => some trap
  | "wait" => some fun _ => return 0
  | "umask" => some fun arguments => do
    if arguments.isEmpty then Job.say "0022"
    return 0
  | "ulimit" => some fun _ => return 0
  | "hash" => some fun _ => return 0
  | "alias" => some fun _ => return 0
  | "jobs" => some fun _ => return 0
  | "exit" => some fun arguments => do
    throw (.exit (← status "exit" arguments))
  | "return" => some fun arguments => do
    throw (.returned (← status "return" arguments))
  | "break" => some fun arguments => do
    let count ← loopCount "break" arguments
    let loops := (← get).loops
    if loops = 0 then return 0 else throw (.broken (min count loops))
  | "continue" => some fun arguments => do
    let count ← loopCount "continue" arguments
    let loops := (← get).loops
    if loops = 0 then return 0 else throw (.continued (min count loops))
  | _ => none

end LispShell.Script.Utility
