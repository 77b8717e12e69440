import LispShell.Text.Blank
import LispShell.World.Basic

/-! # Locations
The paths that environment variables name: the directories searched for commands, the home
directory and the startup files. A variable may hold several paths separated by colons; blanks
around a path and entries of blanks alone do not count. -/

namespace LispShell

namespace World

/-- The paths that a text separated by colons holds. -/
def pathEntries (text : String) : List String :=
  (((Path.pieces ':' text).map Text.strip).filter (· != "")).map Path.tidy

/-- The paths that a variable holds, or the defaults where it is unset or empty. -/
def pathsFrom (world : World) (variableName : String) (defaults : List String) : List String :=
  match world.environment.find? variableName with
  | none => defaults.map Path.tidy
  | some text => if text == "" then defaults.map Path.tidy else pathEntries text

/-- The directories searched for commands. -/
def searchDirectories (world : World) : List String :=
  world.pathsFrom "PATH" []

/-- The home directory that an account has on record as a text. What starts with a tilde is still to
be looked up and stands for none. -/
def recordedHome? (text : String) : Option String :=
  if text.toList.all (· == '/') then some "/"
  else if text.toList.head? == some '~' then none
  else some (Path.tidy text)

/-- The home directory: that of the variable `HOME` if it is set, and else that of the account. -/
def home? (world : World) : Option String :=
  match world.environment.find? "HOME" with
  | none => world.accountHome.bind recordedHome?
  | some text => if text == "" then some "/" else some (Path.tidy text)

/-- Where the forms evaluated at the start of every session come from. -/
inductive PreludeLocation where
  /-- The prelude that comes with the shell. -/
  | packaged
  /-- A file of the user's choice. -/
  | file (path : String)
  deriving Repr, DecidableEq

/-- The prelude to load; none if the variable that names it holds no path. -/
def prelude? (world : World) : Option PreludeLocation :=
  match world.environment.find? "LISHP_PRELUDE_PATH" with
  | none => some .packaged
  | some text => if text == "" then some .packaged else (pathEntries text).head?.map .file

/-- The startup file of a user with the given home directory; none if the variable that names it
holds no path. -/
def startupFile? (world : World) (home : String) : Option String :=
  (world.pathsFrom "LISHP_RC" [Path.child home ".lishprc"]).head?

end World

end LispShell
