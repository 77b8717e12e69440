import LispShell.Proofs.Text.Utf8
import LispShell.World.Basic

/-! # Files that are written and read
A path that is opened for writing names a place. Storing text there changes the entry of that place
and no other, and it makes and changes nothing but regular files, so that every path goes on naming
the place that it named before. What was stored is what is read. -/

namespace LispShell

namespace FileTree

variable {tree after : FileTree} {place other : Place} {entry : Entry}

/-! ## Entries -/

/-- An entry that is put where no directory stands is what stands there; all others stay. -/
theorem entry?_put (notDirectory : tree.entry? place ≠ some .directory) :
    FileTree.entry? (tree.put place entry) other =
      if other = place then some entry else tree.entry? other := by
  have notRoot : place ≠ [] := by
    rintro rfl
    exact notDirectory rfl
  by_cases samePlace : other = place
  · subst samePlace
    simp [put, entry?, notRoot]
  · simp [put, entry?, List.lookup_cons, samePlace, beq_false_of_ne samePlace,
      Table.lookup_filter_ne _ samePlace]

/-- What stands at a place after content was stored there. -/
def WriteMode.store (mode : WriteMode) (content : Bytes) : Option Entry → Option Entry
  | none => some (.file content false)
  | some (.file old isProgram) =>
    match mode with
    | .replace => some (.file content isProgram)
    | .extend => some (.file (old ++ content) isProgram)
  | some other => some other

/-- Nothing but a regular file changes. -/
theorem WriteMode.store_of_not_file (mode : WriteMode) (content : Bytes)
    (notFile : ∀ old isProgram, entry ≠ .file old isProgram) :
    mode.store content (some entry) = some entry := by
  cases entry with
  | file old isProgram => exact absurd rfl (notFile old isProgram)
  | directory | link | interpreter | nullDevice => rfl

/-- Whether a regular file stands at a place, or nothing. -/
def isFileOrMissing : Option Entry → Bool
  | none => true
  | some (.file _ _) => true
  | some _ => false

/-- A file that is replaced holds just what it is replaced by. -/
theorem WriteMode.exists_store_replace {found : Option Entry}
    (isFile : isFileOrMissing found = true) (content : Bytes) :
    ∃ isProgram, WriteMode.replace.store content found = some (.file content isProgram) := by
  match found with
  | none => exact ⟨false, rfl⟩
  | some (.file _ isProgram) => exact ⟨isProgram, rfl⟩

/-- A file that is written to is a file afterwards. -/
theorem WriteMode.isFileOrMissing_store {found : Option Entry}
    (isFile : isFileOrMissing found = true) (mode : WriteMode) (content : Bytes) :
    isFileOrMissing (mode.store content found) = true := by
  match found with
  | none => rfl
  | some (.file _ _) =>
    cases mode with
    | replace => rfl
    | extend => rfl

/-- Whether an entry stays as it is, or is a regular file before and after, or is made one. -/
inductive Keeps : Option Entry → Option Entry → Prop
  /-- The same stands there. -/
  | same (entry : Option Entry) : Keeps entry entry
  /-- A file is made. -/
  | made (content : Bytes) (isProgram : Bool) : Keeps none (some (.file content isProgram))
  /-- A file is changed. -/
  | changed (old new : Bytes) (isProgram : Bool) :
    Keeps (some (.file old isProgram)) (some (.file new isProgram))

/-- Where nothing stands, nothing or a file stands afterwards. -/
theorem Keeps.of_none {found : Option Entry} (keeps : Keeps none found) :
    found = none ∨ ∃ content isProgram, found = some (.file content isProgram) := by
  cases keeps with
  | same => exact .inl rfl
  | made content isProgram => exact .inr ⟨content, isProgram, rfl⟩

/-- A link stays. -/
theorem Keeps.of_link {target : String} {found : Option Entry}
    (keeps : Keeps (some (.link target)) found) : found = some (.link target) := by
  cases keeps with
  | same => rfl

/-- Something that is not a link stays there and does not become one. -/
theorem Keeps.of_not_link {found : Option Entry} (keeps : Keeps (some entry) found)
    (notLink : ∀ target, entry ≠ .link target) :
    ∃ entryAfter, found = some entryAfter ∧ (∀ target, entryAfter ≠ .link target) ∧
      Keeps (some entry) (some entryAfter) := by
  cases keeps with
  | same => exact ⟨entry, rfl, notLink, .same _⟩
  | changed => exact ⟨_, rfl, by simp, .changed _ _ _⟩

/-- Storing content makes a file or changes one, if anything. -/
theorem keeps_store (mode : WriteMode) (content : Bytes) (entry : Option Entry) :
    Keeps entry (mode.store content entry) := by
  match entry with
  | none => exact .made _ _
  | some (.file _ _) => cases mode with
    | replace => exact .changed _ _ _
    | extend => exact .changed _ _ _
  | some .directory => exact .same _
  | some (.link _) => exact .same _
  | some .interpreter => exact .same _
  | some .nullDevice => exact .same _

/-! ## Walks -/

/-- The place at the end of a walk, unless a directory is there. -/
def endOf : Except Refusal Resolved → Option Place
  | .ok (.found _ .directory) => none
  | .ok (.found place _) => some place
  | .ok (.missing place) => some place
  | .ok (.removed _) => none
  | .error _ => none

/-- A walk that ends at anything but a directory. -/
theorem endOf_found (notDirectory : entry ≠ .directory) :
    endOf (.ok (.found place entry)) = some place := by
  cases entry with
  | directory => exact absurd rfl notDirectory
  | file | link | interpreter | nullDevice => rfl

/-- From anything but a directory no walk goes on. -/
theorem walk_of_ne_directory {aim : Aim} {links : Nat} {here : Place} {component : String}
    {rest : List String} (notDirectory : entry ≠ .directory) :
    tree.walk aim links here entry (component :: rest) = .error .notADirectory := by
  rw [walk, if_pos notDirectory]

/-- Whether a component is looked up in the directory that a walk has come to: it is a name that is
not too long, and where content is to be written no slash comes after it. -/
structure LooksUp (aim : Aim) (component : String) (rest : List String) : Prop where
  /-- It does not stay where it is. -/
  notIdle : ¬ isIdle component
  /-- It does not go back. -/
  notParent : component ≠ ".."
  /-- Nothing that is to be written to ends in a slash. -/
  notSlash : ¬ (aim = .content ∧ isFinalSlash rest)
  /-- It is not too long. -/
  notLong : ¬ maxNameBytes < (Text.encode component).length

section

variable {aim : Aim} {links : Nat} {here : Place} {component : String} {rest : List String}
  (looksUp : LooksUp aim component rest)
include looksUp

/-- Where nothing stands, only a path that ends there leads anywhere. -/
theorem walk_missing (isMissing : tree.entry? (here ++ [component]) = none) :
    tree.walk aim links here .directory (component :: rest) =
      if rest.all (· == "") then .ok (.missing (here ++ [component])) else .error .notFound := by
  rw [walk, if_neg (not_not.mpr rfl), if_neg looksUp.notIdle, if_neg looksUp.notParent,
    if_neg looksUp.notSlash, if_neg looksUp.notLong]
  simp only [isMissing]

section

variable {target : String} (isLink : tree.entry? (here ++ [component]) = some (.link target))
  (notMeant : ¬ (rest.isEmpty ∧ aim = .link))
include isLink notMeant

/-- A link that is not meant itself is not followed after too many others. -/
theorem walk_link_zero :
    tree.walk aim 0 here .directory (component :: rest) = .error .tooManyLinks := by
  rw [walk, if_neg (not_not.mpr rfl), if_neg looksUp.notIdle, if_neg looksUp.notParent,
    if_neg looksUp.notSlash, if_neg looksUp.notLong]
  simp only [isLink]
  rw [if_neg notMeant]

/-- A link that is not meant itself is followed. -/
theorem walk_link_succ :
    tree.walk aim (links + 1) here .directory (component :: rest) =
      tree.walk aim links (if Path.isAbsolute target then [] else here) .directory
        (Path.pieces '/' target ++ rest) := by
  rw [walk, if_neg (not_not.mpr rfl), if_neg looksUp.notIdle, if_neg looksUp.notParent,
    if_neg looksUp.notSlash, if_neg looksUp.notLong]
  simp only [isLink]
  rw [if_neg notMeant]

end

/-- A walk goes on from anything else. -/
theorem walk_other (isThere : tree.entry? (here ++ [component]) = some entry)
    (notLink : ∀ target, entry ≠ .link target) :
    tree.walk aim links here .directory (component :: rest) =
      tree.walk aim links (here ++ [component]) entry rest := by
  rw [walk, if_neg (not_not.mpr rfl), if_neg looksUp.notIdle, if_neg looksUp.notParent,
    if_neg looksUp.notSlash, if_neg looksUp.notLong]
  simp only [isThere]

end

/-- On a walk to what a path names, a slash may come after what is looked up. -/
theorem LooksUp.of_target {component : String} {rest : List String}
    (notIdle : ¬ isIdle component) (notParent : component ≠ "..")
    (notLong : ¬ maxNameBytes < (Text.encode component).length) :
    LooksUp .target component rest := by
  refine ⟨notIdle, notParent, ?_, notLong⟩
  rintro ⟨⟨⟩, -⟩

/-- A walk to where content is to be written leads where any walk leads. -/
theorem walk_target_of_walk_content {links : Nat} {here : Place} {entry : Entry}
    {components : List String} {resolved : Resolved}
    (isEnd : tree.walk .content links here entry components = .ok resolved) :
    tree.walk .target links here entry components = .ok resolved := by
  fun_induction walk tree .content links here entry components
  case case1 links here entry => rwa [walk]
  case case3 links here entry component rest isDirectory isIdle inductionHypothesis =>
    rw [walk, if_neg isDirectory, if_pos isIdle]
    exact inductionHypothesis isEnd
  case case4 links here entry rest isDirectory notIdle inductionHypothesis =>
    rw [walk, if_neg isDirectory, if_neg notIdle, if_pos rfl]
    exact inductionHypothesis isEnd
  case case7 links here entry component rest isDirectory notIdle notParent _ notLong there isMissing
      isLast =>
    obtain rfl := not_not.mp isDirectory
    rwa [walk_missing (.of_target notIdle notParent notLong) isMissing, if_pos isLast]
  case case9 isMeant => cases isMeant.2
  case case11 here entry component rest isDirectory notIdle notParent _ notLong there target isLink
      _ links inductionHypothesis =>
    obtain rfl := not_not.mp isDirectory
    rw [walk_link_succ (.of_target notIdle notParent notLong) isLink (by simp)]
    exact inductionHypothesis isEnd
  case case12 links here entry component rest isDirectory notIdle notParent _ notLong there other
      notLink isThere inductionHypothesis =>
    obtain rfl := not_not.mp isDirectory
    rw [walk_other (.of_target notIdle notParent notLong) isThere notLink]
    exact inductionHypothesis isEnd
  -- the other walks are refused
  all_goals cases isEnd

/-- Whether what a walk has come to stands in the tree; a directory may be one that a walk starts
from or goes back to. -/
def Stands (tree : FileTree) : Resolved → Prop
  | .found place entry => entry = .directory ∨ tree.entry? place = some entry
  | .missing place => tree.entry? place = none
  | .removed _ => True

/-- What a walk comes to stands in the tree if it starts from what does. -/
theorem stands_of_walk {aim : Aim} {links : Nat} {here : Place} {entry : Entry}
    {components : List String} {resolved : Resolved} (stands : tree.Stands (.found here entry))
    (isEnd : tree.walk aim links here entry components = .ok resolved) :
    tree.Stands resolved := by
  fun_induction walk tree aim links here entry components
  case case1 =>
    cases isEnd
    exact stands
  case case3 inductionHypothesis => exact inductionHypothesis stands isEnd
  case case4 inductionHypothesis => exact inductionHypothesis (.inl rfl) isEnd
  case case7 isMissing _ =>
    cases isEnd
    exact isMissing
  case case9 isLink _ =>
    cases isEnd
    exact .inr isLink
  case case11 inductionHypothesis => exact inductionHypothesis (.inl rfl) isEnd
  case case12 isThere inductionHypothesis => exact inductionHypothesis (.inr isThere) isEnd
  -- the other walks are refused
  all_goals cases isEnd

/-- A walk leads to the same place after files are made and changed. -/
theorem endOf_walk_of_keeps (keeps : ∀ place, Keeps (tree.entry? place) (after.entry? place))
    {links : Nat} {here : Place} {entry entryAfter : Entry} (components : List String)
    (kept : Keeps (some entry) (some entryAfter)) :
    endOf (after.walk .content links here entryAfter components) =
      endOf (tree.walk .content links here entry components) := by
  fun_induction walk tree .content links here entry components generalizing entryAfter
  case case1 links here entry =>
    rw [walk]
    cases kept with
    | same => rfl
    | changed => rfl
  case case2 links here entry component rest notDirectory =>
    rw [walk_of_ne_directory]
    cases kept with
    | same => exact notDirectory
    | changed => simp
  case case3 links here entry component rest isDirectory isIdle inductionHypothesis =>
    obtain rfl := not_not.mp isDirectory
    cases kept
    rw [walk, if_neg isDirectory, if_pos isIdle, inductionHypothesis (.same _)]
  case case4 links here entry rest isDirectory notIdle inductionHypothesis =>
    obtain rfl := not_not.mp isDirectory
    cases kept
    rw [walk, if_neg isDirectory, if_neg notIdle, if_pos rfl, inductionHypothesis (.same _)]
  case case5 links here entry component rest isDirectory notIdle notParent isSlash =>
    obtain rfl := not_not.mp isDirectory
    cases kept
    rw [walk, if_neg isDirectory, if_neg notIdle, if_neg notParent, if_pos isSlash]
  case case6 links here entry component rest isDirectory notIdle notParent notSlash isLong =>
    obtain rfl := not_not.mp isDirectory
    cases kept
    rw [walk, if_neg isDirectory, if_neg notIdle, if_neg notParent, if_neg notSlash, if_pos isLong]
  case case7 links here entry component rest isDirectory notIdle notParent notSlash notLong there
      isMissing isLast =>
    obtain rfl := not_not.mp isDirectory
    cases kept
    have looksUp : LooksUp .content component rest := ⟨notIdle, notParent, notSlash, notLong⟩
    obtain isAfter | ⟨content, isProgram, isAfter⟩ := (isMissing ▸ keeps there).of_none
    · rw [walk_missing looksUp isAfter, if_pos isLast]
    · -- no slash comes after what is to be written to, so the path ends here
      have isEnd : rest = [] := by
        cases rest with
        | nil => rfl
        | cons next others => exact absurd ⟨rfl, by simpa [isFinalSlash] using isLast⟩ notSlash
      subst isEnd
      rw [walk_other looksUp isAfter (by simp), walk]
      rfl
  case case8 links here entry component rest isDirectory notIdle notParent notSlash notLong there
      isMissing notLast =>
    obtain rfl := not_not.mp isDirectory
    cases kept
    have looksUp : LooksUp .content component rest := ⟨notIdle, notParent, notSlash, notLong⟩
    obtain isAfter | ⟨content, isProgram, isAfter⟩ := (isMissing ▸ keeps there).of_none
    · rw [walk_missing looksUp isAfter, if_neg notLast]
    · cases rest with
      | nil => exact absurd rfl notLast
      | cons next others =>
        rw [walk_other looksUp isAfter (by simp), walk_of_ne_directory (by simp)]
        rfl
  case case9 isLinkMeant => cases isLinkMeant.2
  case case10 here entry component rest isDirectory notIdle notParent notSlash notLong there target
      isLink notMeant =>
    obtain rfl := not_not.mp isDirectory
    cases kept
    have isAfter := (isLink ▸ keeps there).of_link
    rw [walk_link_zero ⟨notIdle, notParent, notSlash, notLong⟩ isAfter notMeant]
  case case11 here entry component rest isDirectory notIdle notParent notSlash notLong there target
      isLink notMeant links inductionHypothesis =>
    obtain rfl := not_not.mp isDirectory
    cases kept
    have isAfter := (isLink ▸ keeps there).of_link
    rw [walk_link_succ ⟨notIdle, notParent, notSlash, notLong⟩ isAfter notMeant]
    exact inductionHypothesis (.same _)
  case case12 links here entry component rest isDirectory notIdle notParent notSlash notLong there
      other notLink isThere inductionHypothesis =>
    obtain rfl := not_not.mp isDirectory
    cases kept
    obtain ⟨otherAfter, isAfter, notLinkAfter, kept⟩ := (isThere ▸ keeps there).of_not_link notLink
    rw [walk_other ⟨notIdle, notParent, notSlash, notLong⟩ isAfter notLinkAfter]
    exact inductionHypothesis kept

/-! ## Walks from a working directory

Where the directory is there, what holds of a walk from it is what holds of `walk`; each removed one
is left by a step that does not look at the tree. -/

section

variable {aim : Aim} {start : Place} {removed : Nat} {components : List String}
  {resolved : Resolved}

/-- A walk to where content is to be written leads where any walk leads. -/
theorem walkFrom_target_of_walkFrom_content
    (isEnd : tree.walkFrom .content start removed components = .ok resolved) :
    tree.walkFrom .target start removed components = .ok resolved := by
  fun_induction walkFrom tree .content start removed components
  case case1 components =>
    rw [walkFrom]
    exact walk_target_of_walk_content isEnd
  case case2 => rwa [walkFrom]
  case case3 isIdle inductionHypothesis =>
    rw [walkFrom, if_pos isIdle]
    exact inductionHypothesis isEnd
  case case4 notIdle inductionHypothesis =>
    rw [walkFrom, if_neg notIdle, if_pos rfl]
    exact inductionHypothesis isEnd
  -- nothing else leads out of a directory that was removed
  all_goals cases isEnd

/-- What a walk from a working directory comes to stands in the tree. -/
theorem stands_of_walkFrom
    (isEnd : tree.walkFrom aim start removed components = .ok resolved) :
    tree.Stands resolved := by
  fun_induction walkFrom tree aim start removed components
  case case1 => exact stands_of_walk (.inl rfl) isEnd
  case case2 =>
    cases isEnd
    trivial
  case case3 inductionHypothesis => exact inductionHypothesis isEnd
  case case4 inductionHypothesis => exact inductionHypothesis isEnd
  all_goals cases isEnd

/-- A walk from a working directory leads to the same place after files are made and changed. -/
theorem endOf_walkFrom_of_keeps
    (keeps : ∀ place, Keeps (tree.entry? place) (after.entry? place)) :
    endOf (after.walkFrom .content start removed components) =
      endOf (tree.walkFrom .content start removed components) := by
  fun_induction walkFrom tree .content start removed components
  case case1 components =>
    rw [walkFrom]
    exact endOf_walk_of_keeps keeps components (.same _)
  case case2 => rw [walkFrom]
  case case3 isIdle inductionHypothesis => rw [walkFrom, if_pos isIdle, inductionHypothesis]
  case case4 notIdle inductionHypothesis =>
    rw [walkFrom, if_neg notIdle, if_pos rfl, inductionHypothesis]
  case case5 notIdle notParent isSlash =>
    rw [walkFrom, if_neg notIdle, if_neg notParent, if_pos isSlash]
  case case6 notIdle notParent notSlash =>
    rw [walkFrom, if_neg notIdle, if_neg notParent, if_neg notSlash]

end

/-! ## Paths -/

variable {workingDirectory : WorkingDirectory} {path : String}

/-- The place of what a path names for writing: what stands there is written to, or else a file is
made there. -/
def placeOf? (tree : FileTree) (workingDirectory : WorkingDirectory) (path : String) :
    Option Place :=
  endOf (tree.resolve .content workingDirectory path)

/-- A path names the same place after files are made and changed. -/
theorem placeOf?_of_keeps (keeps : ∀ place, Keeps (tree.entry? place) (after.entry? place)) :
    after.placeOf? workingDirectory path = tree.placeOf? workingDirectory path := by
  unfold placeOf? resolve
  split
  · rfl
  · split
    · rfl
    · exact endOf_walkFrom_of_keeps keeps

/-- What a path is resolved to stands in the tree. -/
theorem stands_of_resolve {aim : Aim} {resolved : Resolved}
    (isEnd : tree.resolve aim workingDirectory path = .ok resolved) : tree.Stands resolved := by
  unfold resolve at isEnd
  split at isEnd
  · cases isEnd
  · split at isEnd
    · cases isEnd
    · exact stands_of_walkFrom isEnd

/-- What a path that names a place is resolved to. -/
theorem resolve_of_placeOf? (names : tree.placeOf? workingDirectory path = some place) :
    (∃ entry, tree.resolve .content workingDirectory path = .ok (.found place entry) ∧
      entry ≠ .directory ∧ tree.entry? place = some entry) ∨
    tree.resolve .content workingDirectory path = .ok (.missing place) ∧
      tree.entry? place = none := by
  unfold placeOf? endOf at names
  split at names
  case h_1 => cases names
  case h_2 there entry notDirectory isEnd =>
    cases names
    exact .inl ⟨entry, isEnd, notDirectory, (stands_of_resolve isEnd).resolve_left notDirectory⟩
  case h_3 isEnd =>
    cases names
    exact .inr ⟨isEnd, stands_of_resolve isEnd⟩
  case h_4 => cases names
  case h_5 => cases names

/-- A path that is resolved for writing is resolved to the same for reading. -/
theorem resolve_target_of_resolve_content {resolved : Resolved}
    (isEnd : tree.resolve .content workingDirectory path = .ok resolved) :
    tree.resolve .target workingDirectory path = .ok resolved := by
  unfold resolve at isEnd ⊢
  split at isEnd
  · cases isEnd
  · split at isEnd
    · cases isEnd
    · rw [if_neg ‹_›, if_neg ‹_›]
      exact walkFrom_target_of_walkFrom_content isEnd

/-- The place of an entry that may be written to. -/
theorem placeOf?_of_found
    (isWritable : tree.writable? workingDirectory path = .ok (.found place entry)) :
    tree.placeOf? workingDirectory path = some place ∧ tree.entry? place = some entry := by
  unfold writable? at isWritable
  split at isWritable
  case h_1 => cases isWritable
  case h_2 => cases isWritable
  case h_3 found notDirectory isEnd =>
    cases isWritable
    have isOther : entry ≠ .directory := by
      rintro rfl
      exact notDirectory place rfl
    refine ⟨?_, (stands_of_resolve isEnd).resolve_left isOther⟩
    rw [placeOf?, isEnd, endOf_found isOther]

/-- The place where a file may be made. -/
theorem placeOf?_of_missing
    (isWritable : tree.writable? workingDirectory path = .ok (.missing place)) :
    tree.placeOf? workingDirectory path = some place ∧ tree.entry? place = none := by
  unfold writable? at isWritable
  split at isWritable
  case h_1 => cases isWritable
  case h_2 => cases isWritable
  case h_3 isEnd =>
    cases isWritable
    refine ⟨?_, stands_of_resolve isEnd⟩
    rw [placeOf?, isEnd, endOf]

/-- Content that is stored at a path changes what stands at the place that the path names, and
nothing else. -/
theorem write_eq_ok {mode : WriteMode} {content : Bytes}
    (isStored : tree.write workingDirectory mode content path = .ok after) :
    ∃ place, tree.placeOf? workingDirectory path = some place ∧
      ∀ other, after.entry? other =
        if other = place then mode.store content (tree.entry? place) else tree.entry? other := by
  unfold write at isStored
  split at isStored
  case h_1 => cases isStored
  case h_2 place isWritable =>
    obtain ⟨names, isMissing⟩ := placeOf?_of_missing isWritable
    cases isStored
    refine ⟨place, names, fun other => ?_⟩
    rw [entry?_put (isMissing ▸ nofun), isMissing]
    rfl
  case h_3 place old isProgram isWritable =>
    obtain ⟨names, isThere⟩ := placeOf?_of_found isWritable
    cases isStored
    refine ⟨place, names, fun other => ?_⟩
    rw [entry?_put (isThere ▸ nofun), isThere]
    cases mode with
    | replace => rfl
    | extend => rfl
  case h_4 place entry notFile isWritable =>
    obtain ⟨names, isThere⟩ := placeOf?_of_found isWritable
    cases isStored
    refine ⟨place, names, fun other => ?_⟩
    rw [isThere, mode.store_of_not_file content notFile]
    split
    case isTrue isPlace => rw [isPlace, isThere]
    case isFalse => rfl
  case h_5 => cases isStored

/-- What is read at a path is the content of the file at the place that the path names. -/
theorem read_eq_ok_iff {content : Bytes} (isFile : isFileOrMissing (tree.entry? place) = true)
    (names : tree.placeOf? workingDirectory path = some place) :
    tree.read workingDirectory path = .ok content ↔
      ∃ isProgram, tree.entry? place = some (.file content isProgram) := by
  obtain ⟨entry, isEnd, -, isThere⟩ | ⟨isEnd, isMissing⟩ := resolve_of_placeOf? names
  · rw [isThere] at isFile ⊢
    rw [read, find?, resolve_target_of_resolve_content isEnd]
    cases entry with
    | file found isProgram => simp
    | directory | link | interpreter | nullDevice => cases isFile
  · rw [read, find?, resolve_target_of_resolve_content isEnd, isMissing]
    simp

end FileTree

namespace World

variable {world after : World} {place : Place} {path : String}

/-- The place of what a path names for writing. A path that cannot be handed to the operating system
names none. -/
def placeOf? (world : World) (path : String) : Option Place :=
  match world.textFault? path with
  | some _ => none
  | none => world.files.placeOf? world.workingDirectory path

/-- A path that names a place names it among the files. -/
theorem placeOf?_eq_some_iff :
    world.placeOf? path = some place ↔
      world.textFault? path = none ∧
        world.files.placeOf? world.workingDirectory path = some place := by
  rw [placeOf?]
  split <;> simp_all

/-- Text that is stored at a path changes what stands at the place that the path names, and nothing
else. -/
theorem writeText_eq_ok {mode : FileTree.WriteMode} {content : String}
    (isStored : world.writeText mode content path = .ok after) :
    ∃ place, world.placeOf? path = some place ∧
      after.workingDirectory = world.workingDirectory ∧ after.names = world.names ∧
      ∀ other, after.files.entry? other =
        if other = place then mode.store (Text.encode content) (world.files.entry? place)
        else world.files.entry? other := by
  unfold writeText attempt at isStored
  split at isStored
  case h_1 => cases isStored
  case h_2 isFit =>
    cases isWritten : world.files.write world.workingDirectory mode (Text.encode content) path with
    | error refusal =>
      rw [isWritten] at isStored
      cases isStored
    | ok files =>
      rw [isWritten] at isStored
      cases isStored
      obtain ⟨place, names, isChanged⟩ := FileTree.write_eq_ok isWritten
      exact ⟨place, placeOf?_eq_some_iff.mpr ⟨isFit, names⟩, rfl, rfl, isChanged⟩

/-- The text that is read at a path is that whose bytes the file at the place holds that the path
names. -/
theorem readText_eq_ok_iff {text : String}
    (isFile : FileTree.isFileOrMissing (world.files.entry? place) = true)
    (names : world.placeOf? path = some place) :
    world.readText path = .ok text ↔
      ∃ isProgram, world.files.entry? place = some (.file (Text.encode text) isProgram) := by
  obtain ⟨isFit, names⟩ := placeOf?_eq_some_iff.mp names
  rw [← FileTree.read_eq_ok_iff isFile names]
  unfold readText attempt
  rw [isFit]
  cases isRead : world.files.read world.workingDirectory path with
  | error refusal => simp [Except.mapError, bind, Except.bind]
  | ok content =>
    rw [Except.ok.injEq, ← Text.decode_eq_ok_iff]
    change (Text.decode content).mapError FileFault.undecodable = .ok text ↔ _
    cases Text.decode content with
    | error piece => simp [Except.mapError]
    | ok found => simp [Except.mapError]

end World

end LispShell
