import LispShell.Table
import LispShell.World.FileFault
import LispShell.World.Path

/-! # File trees
Directories, files and symbolic links by their places. A place is the row of names from the root
down, free of links and dots; `resolve` walks a path text to the place that it names. A
`WorkingDirectory`, which relative paths start from, may have been removed from the tree. -/

namespace LispShell

/-- The names from the root down to an entry. -/
abbrev Place := List String

/-- A working directory. It stays one when it is removed: then nothing is in it any more, but it can
still be left for the directory above it. -/
structure WorkingDirectory where
  /-- The place of the directory, or of the nearest one above it that is not removed. -/
  place : Place
  /-- The number of directories below that place that were removed. -/
  removed : Nat
  deriving Repr, DecidableEq

/-- What stands at a place. -/
inductive Entry where
  /-- A directory. -/
  | directory
  /-- A regular file. -/
  | file (content : Bytes) (isProgram : Bool)
  /-- A symbolic link. -/
  | link (target : String)
  /-- The interpreter of scripts. -/
  | interpreter
  /-- The device that is always empty and swallows what is written to it. -/
  | nullDevice
  deriving Repr, DecidableEq

/-- All entries below the root, which is a directory itself. -/
structure FileTree where
  /-- The entries by their places. -/
  entries : List (Place × Entry)
  /-- No two entries have the same place. -/
  distinct : (entries.map (·.1)).Nodup
  deriving Repr

/-- The end of a walk along a path. -/
inductive Resolved where
  /-- Something stands there. -/
  | found (place : Place) (entry : Entry)
  /-- Nothing stands there yet, but its directory exists. -/
  | missing (place : Place)
  /-- It is a directory that was removed. -/
  | removed (directory : WorkingDirectory)
  deriving Repr, DecidableEq

/-- What a path is walked for. -/
inductive Aim where
  /-- A link at its end is meant itself. -/
  | link
  /-- A link at its end stands for its target. -/
  | target
  /-- Its target is to be written to, so nothing there may end in a slash. -/
  | content
  deriving Repr, DecidableEq

namespace FileTree

/-- The tree with nothing below its root. -/
def empty : FileTree := ⟨[], List.nodup_nil⟩

/-- The entry at a place. -/
def entry? (tree : FileTree) (place : Place) : Option Entry :=
  if place.isEmpty then some .directory else tree.entries.lookup place

/-- Puts an entry at a place. -/
def put (tree : FileTree) (place : Place) (entry : Entry) : FileTree :=
  ⟨(place, entry) :: tree.entries.filter (·.1 != place),
    nodup_keys_replace tree.distinct place entry⟩

/-- Makes a directory of a place where nothing stands. -/
def furnish (tree : FileTree) (place : Place) : FileTree :=
  if (tree.entry? place).isSome then tree else tree.put place .directory

/-- Puts an entry at a place, with directories above it. -/
def plant (tree : FileTree) (place : Place) (entry : Entry) : FileTree :=
  let above := (List.range place.length).map fun depth => place.take depth
  (above.foldl furnish tree).put place entry

/-- The names of the entries of the directory at a place. -/
def namesAt (tree : FileTree) (place : Place) : List String :=
  tree.entries.filterMap fun (other, _) =>
    if other.dropLast == place then other.getLast? else none

/-- The names of the entries of a directory; one that was removed has none. -/
def namesIn (tree : FileTree) (directory : WorkingDirectory) : List String :=
  if directory.removed = 0 then tree.namesAt directory.place else []

/-- The greatest number of bytes of a component. -/
def maxNameBytes : Nat := 255

/-- The least number of bytes of a path that is too long. -/
def pathBytesLimit : Nat := 4096

/-- The greatest number of links followed on one walk. -/
def maxLinks : Nat := 40

/-- Whether the component stays where it is. -/
def isIdle (component : String) : Bool :=
  component == "" || component == "."

/-- Whether components are those of a path after its last name, where a slash ends it. -/
def isFinalSlash (components : List String) : Bool :=
  !components.isEmpty && components.all (· == "")

/-- Walks from a place along components. Every component but the last must be a directory or a link
to one, and so must what a path with a slash at its end names. -/
def walk (tree : FileTree) (aim : Aim) (links : Nat) (here : Place) (entry : Entry) :
    List String → Except Refusal Resolved
  | [] => .ok (.found here entry)
  | component :: rest =>
    if entry ≠ .directory then .error .notADirectory
    -- a dot needs a directory to stay in, so the entry is tested before it
    else if isIdle component then walk tree aim links here entry rest
    else if component = ".." then walk tree aim links here.dropLast .directory rest
    else if aim = .content ∧ isFinalSlash rest then .error .isADirectory
    else if maxNameBytes < (Text.encode component).length then .error .nameTooLong
    else
      let there := here ++ [component]
      match tree.entry? there with
      -- nothing stands there, but a file may be made at the end of the path
      | none => if rest.all (· == "") then .ok (.missing there) else .error .notFound
      | some (.link target) =>
        if rest.isEmpty ∧ aim = .link then .ok (.found there (.link target))
        else
          match links with
          | 0 => .error .tooManyLinks
          | links + 1 =>
            walk tree aim links (if Path.isAbsolute target then [] else here) .directory
              (Path.pieces '/' target ++ rest)
      | some other => walk tree aim links there other rest
termination_by components => (links, components.length)

/-- Walks along components from a working directory, of whose last directories the given number were
removed. -/
def walkFrom (tree : FileTree) (aim : Aim) (place : Place) :
    (removed : Nat) → List String → Except Refusal Resolved
  | 0, components => tree.walk aim maxLinks place .directory components
  | removed + 1, [] => .ok (.removed ⟨place, removed + 1⟩)
  | removed + 1, component :: rest =>
    if isIdle component then walkFrom tree aim place (removed + 1) rest
    else if component = ".." then walkFrom tree aim place removed rest
    else if aim = .content ∧ isFinalSlash rest then .error .isADirectory
    else .error .notFound

/-- Where the walk along a path starts. -/
def startOf (workingDirectory : WorkingDirectory) (path : String) : WorkingDirectory :=
  if Path.isAbsolute path then ⟨[], 0⟩ else workingDirectory

/-- Walks a path text from a working directory. -/
def resolve (tree : FileTree) (aim : Aim) (workingDirectory : WorkingDirectory) (path : String) :
    Except Refusal Resolved :=
  if path == "" then .error .notFound
  else if pathBytesLimit ≤ (Text.encode path).length then .error .nameTooLong
  else
    let start := startOf workingDirectory path
    tree.walkFrom aim start.place start.removed (Path.pieces '/' path)

/-- What a path names, if anything. A directory that was removed is one without a place, and given
that of the nearest one above it. -/
def find? (tree : FileTree) (workingDirectory : WorkingDirectory) (path : String) :
    Except Refusal (Place × Entry) :=
  match tree.resolve .target workingDirectory path with
  | .ok (.found place entry) => .ok (place, entry)
  | .ok (.missing _) => .error .notFound
  | .ok (.removed directory) => .ok (directory.place, .directory)
  | .error refusal => .error refusal

/-- Whether a path names a regular file. -/
def isFile (tree : FileTree) (workingDirectory : WorkingDirectory) (path : String) : Bool :=
  match tree.find? workingDirectory path with
  | .ok (_, .file _ _) => true
  | .ok (_, .interpreter) => true
  | _ => false

/-- The directory that a path names. -/
def directory? (tree : FileTree) (workingDirectory : WorkingDirectory) (path : String) :
    Except Refusal WorkingDirectory :=
  match tree.resolve .target workingDirectory path with
  | .ok (.found place .directory) => .ok ⟨place, 0⟩
  | .ok (.found _ _) => .error .notADirectory
  | .ok (.missing _) => .error .notFound
  | .ok (.removed directory) => .ok directory
  | .error refusal => .error refusal

/-- The content of the file that a path names. -/
def read (tree : FileTree) (workingDirectory : WorkingDirectory) (path : String) :
    Except Refusal Bytes :=
  match tree.find? workingDirectory path with
  | .ok (_, .file content _) => .ok content
  | .ok (_, .nullDevice) => .ok []
  | .ok (_, .interpreter) => .ok []
  | .ok _ => .error .isADirectory
  | .error refusal => .error refusal

/-- What is at the end of a path that is opened for writing: the entry there, or the place where a
file may be made. A directory in the tree is refused. -/
def writable? (tree : FileTree) (workingDirectory : WorkingDirectory) (path : String) :
    Except Refusal Resolved :=
  match tree.resolve .content workingDirectory path with
  | .error refusal => .error refusal
  | .ok (.found _ .directory) => .error .isADirectory
  | .ok resolved => .ok resolved

/-- How content is added to a file. -/
inductive WriteMode where
  /-- It replaces what the file held. -/
  | replace
  /-- It comes after what the file held. -/
  | extend
  deriving Repr, DecidableEq

/-- Stores content in the file that a path names, which is made if it is not there. -/
def write (tree : FileTree) (workingDirectory : WorkingDirectory) (mode : WriteMode)
    (content : Bytes) (path : String) : Except Refusal FileTree :=
  match tree.writable? workingDirectory path with
  | .error refusal => .error refusal
  | .ok (.missing place) => .ok (tree.put place (.file content false))
  | .ok (.found place (.file old isProgram)) =>
    let stored :=
      match mode with
      | .replace => content
      | .extend => old ++ content
    .ok (tree.put place (.file stored isProgram))
  | .ok (.found _ _) => .ok tree
  | .ok (.removed _) => .error .isADirectory

end FileTree

end LispShell
