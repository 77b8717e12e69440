import LispShell.Text.Digit
import LispShell.Text.Quoted

/-! # Command line options
The options of the shell and what a command line asks for. A long option may be cut short as long
as only one begins so, and may have its argument after an equals sign; `-c` takes all that
follows. -/

namespace LispShell

/-- An option of the command line. -/
inductive CommandOption where
  /-- Shows the usage. -/
  | help
  /-- Shows the version. -/
  | version
  /-- Sets the log level. -/
  | logLevel
  /-- Does not load the startup file of the user. -/
  | noStartupFile
  /-- Runs one command. -/
  | command
  deriving Repr, DecidableEq

namespace CommandOption

/-- The spellings of all options. -/
def spellings : List (String × CommandOption) :=
  [("-h", .help), ("--help", .help), ("--version", .version), ("--log-level", .logLevel),
    ("--no-rc", .noStartupFile), ("-c", .command)]

/-- The name of an option in reports. -/
def label : CommandOption → String
  | .help => "-h/--help"
  | .version => "--version"
  | .logLevel => "--log-level"
  | .noStartupFile => "--no-rc"
  | .command => "-c"

end CommandOption

/-- What the words of a command line are. -/
inductive CommandWord where
  /-- The separator after which nothing is an option. -/
  | separator
  /-- A plain argument. -/
  | argument (text : String)
  /-- An option, with an argument if it is part of the word. -/
  | option (option : CommandOption) (attached : Option String)
  /-- A word with the form of an option that is none. -/
  | unknown (text : String)
  deriving Repr, DecidableEq

/-- What a command line asks for. -/
structure Invocation where
  /-- Whether the startup file of the user is to be left out. -/
  noStartupFile : Bool
  /-- The log level asked for. -/
  logLevel : Option String
  /-- The words of the command to run; without it the shell is interactive. -/
  command : Option (List String)
  deriving Repr, DecidableEq

/-- What becomes of a command line. -/
inductive CommandLine where
  /-- The shell is started. -/
  | start (invocation : Invocation)
  /-- The usage is shown. -/
  | showHelp
  /-- The version is shown. -/
  | showVersion
  /-- The command line is refused. -/
  | refuse (reason : String)
  deriving Repr, DecidableEq

namespace CommandLine

/-- Splits a word at its first equals sign. -/
def splitAtEquals (word : List Char) : List Char × Option (List Char) :=
  match word.span (· != '=') with
  | (before, []) => (before, none)
  | (before, _ :: after) => (before, some after)

/-- Whether a word is a negative number, which is an argument and no option. -/
def isNegativeNumber (word : List Char) : Bool :=
  let isDigit := fun c => (Text.decimalDigit? c).isSome
  match word with
  | '-' :: digits =>
    match digits.dropWhile isDigit with
    | [] => !digits.isEmpty
    | '.' :: fraction => !fraction.isEmpty && fraction.all isDigit
    | _ => false
  | _ => false

/-- The options that a word can be short for. -/
def abbreviated (word : List Char) : List (String × CommandWord) :=
  match word with
  | '-' :: '-' :: _ =>
    let (stem, attached) := splitAtEquals word
    (CommandOption.spellings.filter fun (spelling, _) => stem.isPrefixOf spelling.toList).map
      fun (spelling, option) => (spelling, .option option (attached.map String.ofList))
  | '-' :: c :: attached =>
    (CommandOption.spellings.filter fun (spelling, _) => spelling.toList == ['-', c]).map
      fun (spelling, option) => (spelling, .option option (some (String.ofList attached)))
  | _ => []

/-- Reads a word that begins with a dash and is no option as it stands. -/
def classifyDashed (word : String) : Except String CommandWord :=
  match abbreviated word.toList with
  | [(_, found)] => .ok found
  | [] =>
    -- no option looks like a negative number, so such a word is an argument
    if isNegativeNumber word.toList || word.toList.contains ' ' then .ok (.argument word)
    else .ok (.unknown word)
  | candidates =>
    .error ("ambiguous option: " ++ word ++ " could match " ++
      String.intercalate ", " (candidates.map (·.1)))

/-- Reads one word. -/
def classify (word : String) : Except String CommandWord :=
  match word.toList with
  | '-' :: _ :: _ =>
    match CommandOption.spellings.lookup word with
    | some option => .ok (.option option none)
    | none =>
      match splitAtEquals word.toList with
      | (stem, some attached) =>
        match CommandOption.spellings.lookup (String.ofList stem) with
        | some option => .ok (.option option (some (String.ofList attached)))
        | none => classifyDashed word
      | (_, none) => classifyDashed word
  | _ => .ok (.argument word)

/-- Reads the words up to the separator; those after it are arguments. -/
def classifyAll : List String → Except String (List CommandWord)
  | [] => .ok []
  | word :: rest =>
    if word = "--" then .ok (.separator :: rest.map .argument)
    else do
      let first ← classify word
      let others ← classifyAll rest
      return first :: others

/-- The text of a word as it stood, given what it was read as. -/
abbrev Word := String × CommandWord

/-- The report on an option with too few arguments. -/
def missingArgument (option : CommandOption) : CommandLine :=
  .refuse ("argument " ++ option.label ++ ": expected one argument")

/-- The report on an option with an argument that it does not take. -/
def ignoredArgument (option : CommandOption) (attached : String) : CommandLine :=
  .refuse ("argument " ++ option.label ++ ": ignored explicit argument " ++ Text.quoted attached)

/-- Whether an argument attached to the short spelling of the help option can be read as more
options. -/
def chainsHelp (word attached : String) : Bool :=
  word == "-h" ++ attached && attached != "" && attached.toList.head? != some '-'
    && attached.toList.head? != some '='

/-- The end of a command line: it is accepted if an option took every word. -/
def conclude (invocation : Invocation) (extras : List String) : CommandLine :=
  if extras.isEmpty then .start invocation
  else .refuse ("unrecognized arguments: " ++ String.intercalate " " extras)

/-- Follows the words in order; `extras` are the words that no option took. -/
def follow (invocation : Invocation) (extras : List String) : List Word → CommandLine
  | [] => conclude invocation extras
  | (_, .option .command (some word)) :: rest =>
    follow { invocation with command := some [word] } extras rest
  | (_, .option .command none) :: rest =>
    -- the command takes all words before the separator, options too
    let (taken, left) := rest.span (·.2 != .separator)
    conclude { invocation with command := some (taken.map (·.1)) } (extras ++ left.map (·.1))
  | (_, .option .logLevel (some level)) :: rest =>
    follow { invocation with logLevel := some level } extras rest
  | (_, .option .logLevel none) :: (level, .argument _) :: rest =>
    follow { invocation with logLevel := some level } extras rest
  | (_, .option .logLevel none) :: _ => missingArgument .logLevel
  | (_, .option .noStartupFile (some word)) :: _ => ignoredArgument .noStartupFile word
  | (_, .option .noStartupFile none) :: rest =>
    follow { invocation with noStartupFile := true } extras rest
  | (_, .option .version (some word)) :: _ => ignoredArgument .version word
  | (_, .option .version none) :: _ => .showVersion
  | (text, .option .help (some word)) :: _ =>
    if chainsHelp text word then .showHelp else ignoredArgument .help word
  | (_, .option .help none) :: _ => .showHelp
  | (text, .separator) :: rest => follow invocation (extras ++ [text]) rest
  | (text, .argument _) :: rest => follow invocation (extras ++ [text]) rest
  | (text, .unknown _) :: rest => follow invocation (extras ++ [text]) rest

/-- Reads a command line. -/
def ofWords (words : List String) : CommandLine :=
  match classifyAll words with
  | .error reason => .refuse reason
  | .ok classified => follow ⟨false, none, none⟩ [] (words.zip classified)

end CommandLine

end LispShell
