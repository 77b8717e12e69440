import LispShell.Proofs.Text.Pieces
import LispShell.World.Process
import Mathlib

/-! # Search paths
A program is looked up in the directories of `PATH` in their order, and the first directory that has
an entry of the name decides. So a search path made of two resolves a name as the first of them does
and, where that has nothing, as the second: what already resolves is not changed by directories that
come after. -/

namespace LispShell

namespace Path

/-- The pieces of two texts with a separator between them are those of the one and then those of the
other. -/
theorem pieces_append (separator : Char) (first second : String) :
    pieces separator (first ++ String.singleton separator ++ second) =
      pieces separator first ++ pieces separator second := by
  simp only [pieces, splitOn_eq_splitOn, ← List.map_append]
  rw [← List.splitOn_append_cons_self]
  simp

end Path

namespace FileTree

variable {tree : FileTree} {place : Place} {name : String}

/-- The place of an entry by the directory that it is in. -/
theorem dropLast_eq_and_getLast?_iff {other : Place} :
    other.dropLast = place ∧ other.getLast? = some name ↔ other = place ++ [name] := by
  constructor
  · rintro ⟨rfl, isLast⟩
    exact (List.dropLast_append_getLast? name isLast).symm
  · rintro rfl
    simp

/-- The names in a directory are those of the entries right below it. -/
theorem mem_namesAt : name ∈ tree.namesAt place ↔ (tree.entry? (place ++ [name])).isSome := by
  have notRoot : (place ++ [name]).isEmpty = false := by simp
  simp only [namesAt, entry?, notRoot, Bool.false_eq_true, if_false, List.mem_filterMap,
    Option.ite_none_right_eq_some, beq_iff_eq, dropLast_eq_and_getLast?_iff]
  rw [List.lookup_isSome_iff]
  simp only [beq_iff_eq, eq_comm (a := place ++ [name])]

end FileTree

namespace World

/-- A search path made of two has the directories of the one and then those of the other. -/
theorem pathEntries_append (p q : String) :
    pathEntries (p ++ ":" ++ q) = pathEntries p ++ pathEntries q := by
  have isSplit : Path.pieces ':' (p ++ ":" ++ q) = Path.pieces ':' p ++ Path.pieces ':' q :=
    Path.pieces_append ':' p q
  simp only [pathEntries, isSplit, List.map_append, List.filter_append]

example : pathEntries " /bin/ :: \t:/usr//bin" = ["/bin", "/usr/bin"] := by decide

variable (world : World) (name p q : String)

/-- Whether a directory is there with an entry of the given name right below it. -/
def HasEntry (directory : String) : Prop :=
  ∃ place, world.directory? directory = .ok ⟨place, 0⟩ ∧
    (world.files.entry? (place ++ [name])).isSome

/-- The search for a name stops at the directories that have an entry of that name. -/
theorem lists_iff {directory : String} :
    world.lists name directory = true ↔ world.HasEntry name directory := by
  rw [lists, HasEntry]
  split
  case h_1 found isOpen =>
    obtain ⟨place, removed⟩ := found
    cases removed with
    | zero => simp [isOpen, FileTree.namesIn, FileTree.mem_namesAt]
    | succ removed => simp [isOpen, FileTree.namesIn]
  case h_2 fault isRefused => simp [isRefused]

/-- The first match in two rows of directories is that in the one or else that in the other. -/
theorem findIn_append (first second : List String) :
    world.findIn name (first ++ second) =
      (world.findIn name first).or (world.findIn name second) := by
  rw [findIn, List.find?_append]
  cases isFound : first.find? (world.lists name) with
  | none => simp [findIn, isFound]
  | some directory => simp [findIn, isFound]

/-- Whether a path is that of the entry of a name in the first of some directories that has one. -/
def IsFirstMatch (directories : List String) (path : String) : Prop :=
  ∃ before directory after, directories = before ++ directory :: after ∧
    (∀ earlier ∈ before, ¬ world.HasEntry name earlier) ∧
    world.HasEntry name directory ∧ path = entryPath directory name

/-- What is found in some directories is the first match. -/
theorem findIn_eq_some_iff {directories : List String} {path : String} :
    world.findIn name directories = some path ↔ world.IsFirstMatch name directories path := by
  simp only [findIn, Option.map_eq_some_iff, List.find?_eq_some_iff_append, Bool.not_eq_true',
    ← Bool.not_eq_true, lists_iff]
  constructor
  · rintro ⟨directory, ⟨hasEntry, before, after, rfl, notEarlier⟩, rfl⟩
    exact ⟨before, directory, after, rfl, notEarlier, hasEntry, rfl⟩
  · rintro ⟨before, directory, after, rfl, notEarlier, hasEntry, rfl⟩
    exact ⟨directory, ⟨hasEntry, before, after, rfl, notEarlier⟩, rfl⟩

/-- The program that a name stands for where `PATH` holds the text. -/
def findOn (path : String) : Except Refusal (Option String) :=
  (world.setVariable "PATH" path).findProgram name

/-- The directories of `PATH` are searched for a name that is not the path of a file. -/
theorem findOn_eq :
    world.findOn name p =
      if name == "" then .ok none
      else if world.namesFile name then some <$> world.absolutePath name
      else .ok (world.findIn name (pathEntries p)) := by
  have isSearched : (world.setVariable "PATH" p).searchDirectories = pathEntries p := by
    rw [searchDirectories, pathsFrom, setVariable, Table.find?_insert, if_pos rfl]
    dsimp only
    split
    · obtain rfl := eq_of_beq ‹_›
      rfl
    · rfl
  rw [findOn, findProgram, isSearched]
  rfl

/-- A name resolves to the file that it is the path of, and else to the first match in the
directories of `PATH`. -/
theorem findOn_eq_some_iff {path : String} :
    world.findOn name p = .ok (some path) ↔
      name ≠ "" ∧
        if world.namesFile name then world.absolutePath name = .ok path
        else world.IsFirstMatch name (pathEntries p) path := by
  rw [findOn_eq]
  split
  case isTrue isEmpty => simp [eq_of_beq isEmpty]
  case isFalse notEmpty =>
    rw [and_iff_right (by simpa using notEmpty)]
    split
    · cases world.absolutePath name <;> simp
    · rw [Except.ok.injEq]
      exact findIn_eq_some_iff world name

/-- A name fails to resolve only as the path of a file that has no path from the root. -/
theorem findOn_eq_error_iff {refusal : Refusal} :
    world.findOn name p = .error refusal ↔
      name ≠ "" ∧ world.namesFile name = true ∧ world.absolutePath name = .error refusal := by
  rw [findOn_eq]
  split
  case isTrue isEmpty => simp [eq_of_beq isEmpty]
  case isFalse notEmpty =>
    rw [and_iff_right (by simpa using notEmpty)]
    split
    case isTrue isFile =>
      rw [and_iff_right isFile]
      cases world.absolutePath name <;> simp
    case isFalse notFile => simp [notFile]

/-- A name resolves on a search path made of two as on the first of them or else as on the
second. -/
theorem findOn_append :
    world.findOn name (p ++ ":" ++ q) =
      do return (← world.findOn name p).or (← world.findOn name q) := by
  simp only [findOn_eq, pathEntries_append, findIn_append]
  split
  · rfl
  · split
    · cases world.absolutePath name <;> rfl
    · rfl

/-- The resolution of names is first match and composes. On a search path made of two texts a name
resolves as on the first or else as on the second, so that what the first resolves stays as it is;
and on each a name that is not the path of a file resolves to its entry in the first directory that
has one, whatever the others are. On all of them alike a name fails to resolve if it is the path of
a file that has no path from the root, as a relative one in a working directory that was removed. -/
theorem resolution_is_first_match_and_composes (world : World) (name p q : String) :
    (world.findOn name (p ++ ":" ++ q) =
      do return (← world.findOn name p).or (← world.findOn name q)) ∧
    (∀ path, world.findOn name p = .ok (some path) →
      world.findOn name (p ++ ":" ++ q) = .ok (some path)) ∧
    (∀ path, world.findOn name p = .ok (some path) ↔
      name ≠ "" ∧
        if world.namesFile name then world.absolutePath name = .ok path
        else world.IsFirstMatch name (pathEntries p) path) ∧
    ∀ refusal, world.findOn name p = .error refusal ↔
      name ≠ "" ∧ world.namesFile name = true ∧ world.absolutePath name = .error refusal := by
  refine ⟨findOn_append world name p q, ?stays, fun path => findOn_eq_some_iff world name p,
    fun refusal => findOn_eq_error_iff world name p⟩
  case stays =>
    intro path isFound
    -- whether there is a failure does not depend on `PATH`
    have isDecided := (findOn_eq_some_iff world name p).mp isFound
    rw [findOn_append, isFound, findOn_eq, if_neg (by simpa using isDecided.1)]
    split
    case isTrue isFile =>
      rw [if_pos isFile] at isDecided
      rw [isDecided.2]
      rfl
    case isFalse => rfl

/-- A program stays where it is found when a blank entry and a directory that is not there come
after. -/
theorem program_found_first_stays :
    let world : World := .ofFiles (FileTree.empty.plant ["bin", "ls"] (.file [] true))
    world.findOn "ls" "/bin" = .ok (some "/bin/ls") ∧
      world.findOn "ls" ("/bin" ++ ":" ++ " :/nowhere") = .ok (some "/bin/ls") := by
  intro world
  have isFound : world.findOn "ls" "/bin" = .ok (some "/bin/ls") := by cbv
  have composes := resolution_is_first_match_and_composes world "ls" "/bin" " :/nowhere"
  exact ⟨isFound, composes.2.1 _ isFound⟩

end World

end LispShell
