import LispShell.Proofs.Run.Exec
import LispShell.Proofs.Text.Pieces
import LispShell.Script.Run
import LispShell.Startup.Load
import Mathlib.Data.List.TakeWhile

/-! # Startup locations
A variable that holds paths gives the first entry that is not blank, and a default stands in where
it is unset or empty. A text of blanks and colons alone is not empty and yet has no such entry: it
is the one setting that names no location, and then the session does not start. -/

namespace LispShell

/-! ## Tidy paths -/

namespace Path

/-- Whether a text names something as a component of a path. -/
structure IsName (name : String) : Prop where
  /-- It is not empty. -/
  ne_empty : name ≠ ""
  /-- It is not the single dot. -/
  ne_dot : name ≠ "."
  /-- It has no slash. -/
  noSlash : '/' ∉ name.toList

/-- The components of a path name something. -/
theorem isName_of_mem_names {path name : String} (isIn : name ∈ names path) : IsName name := by
  simp only [names, pieces, splitOn_eq_splitOn, List.mem_filter, List.mem_map, Bool.and_eq_true,
    bne_iff_ne] at isIn
  obtain ⟨⟨piece, isPiece, rfl⟩, notEmpty, notDot⟩ := isIn
  exact ⟨notEmpty, notDot, by simpa using notMem_of_mem_splitOn isPiece⟩

/-- A path begins with no slash, with one or with two. -/
theorem root_cases (path : String) : root path = "" ∨ root path = "/" ∨ root path = "//" := by
  unfold root
  split <;> simp

/-- A slash in front gives an empty piece. -/
theorem pieces_slash_append (text : String) : pieces '/' ("/" ++ text) = "" :: pieces '/' text := by
  simp [pieces, splitOn]

section Names

variable {start : String} (isStart : start = "" ∨ start = "/" ∨ start = "//")
  {parts : List String} (areNames : ∀ name ∈ parts, IsName name)
include areNames

/-- Names joined by slashes are the pieces. -/
theorem pieces_intercalate (isNonempty : parts ≠ []) :
    pieces '/' ("/".intercalate parts) = parts := by
  have noSlash : ∀ piece ∈ parts.map String.toList, '/' ∉ piece := by
    rw [List.forall_mem_map]
    exact fun name isIn => (areNames name isIn).noSlash
  have isSplit := List.splitOn_intercalate '/' noSlash (by simpa using isNonempty)
  have isSlash : "/".toList = ['/'] := rfl
  rw [pieces, splitOn_eq_splitOn, String.toList_intercalate, isSlash, isSplit, List.map_map]
  simp [Function.comp_def]

/-- Names joined by slashes do not begin with one. -/
theorem exists_of_intercalate (isNonempty : parts ≠ []) :
    ∃ c rest, ("/".intercalate parts).toList = c :: rest ∧ c ≠ '/' := by
  obtain ⟨first, others, rfl⟩ := List.exists_cons_of_ne_nil isNonempty
  have isName := areNames first List.mem_cons_self
  obtain ⟨c, rest, isText⟩ := List.exists_cons_of_ne_nil
    (fun isNil => isName.ne_empty (String.toList_eq_nil_iff.mp isNil))
  have notSlash : c ≠ '/' := by
    rintro rfl
    exact isName.noSlash (isText ▸ List.mem_cons_self)
  rw [String.toList_intercalate, List.map_cons, isText]
  cases others with
  | nil => exact ⟨c, rest, by simp, notSlash⟩
  | cons next others => exact ⟨c, _, List.intercalate_cons_cons, notSlash⟩

include isStart

/-- A path made of names has these names. -/
theorem names_ofNames : names (ofNames start parts) = parts := by
  by_cases isNone : parts = []
  · subst isNone
    rcases isStart with rfl | rfl | rfl
    · rfl
    · rfl
    · rfl
  · have isText : ofNames start parts = start ++ "/".intercalate parts := if_neg (by simp [isNone])
    have keepsAll : parts.filter (fun name => name != "" && name != ".") = parts := by
      refine List.filter_eq_self.mpr fun name isIn => ?_
      simp [(areNames name isIn).ne_empty, (areNames name isIn).ne_dot]
    have arePieces := pieces_intercalate areNames isNone
    -- the slashes in front only give empty pieces, which are no names
    rcases isStart with rfl | rfl | rfl
    · rw [names, isText, String.empty_append, arePieces, keepsAll]
    · rw [names, isText, pieces_slash_append, arePieces]
      exact keepsAll
    · have isTwo : "//" = "/" ++ "/" := rfl
      rw [names, isText, isTwo, String.append_assoc, pieces_slash_append, pieces_slash_append,
        arePieces]
      exact keepsAll

/-- A path made of names begins with the slashes that it was given. -/
theorem root_ofNames : root (ofNames start parts) = start := by
  by_cases isNone : parts = []
  · subst isNone
    rcases isStart with rfl | rfl | rfl
    · rfl
    · rfl
    · rfl
  · have isText : ofNames start parts = start ++ "/".intercalate parts := if_neg (by simp [isNone])
    obtain ⟨c, rest, isJoined, notSlash⟩ := exists_of_intercalate areNames isNone
    rcases isStart with rfl | rfl | rfl
    · simp [root, isText, isJoined, notSlash, -String.toList_intercalate]
    · simp [root, isText, isJoined, notSlash, -String.toList_intercalate]
    · simp [root, isText, isJoined, notSlash, -String.toList_intercalate]

end Names

/-- The path of an entry of a directory is tidy. -/
theorem tidy_child {name : String} (isName : IsName name) (directory : String) :
    tidy (child directory name) = child directory name := by
  have areNames : ∀ part ∈ names directory ++ [name], IsName part := by
    intro part isIn
    rcases List.mem_append.mp isIn with isOld | isNew
    · exact isName_of_mem_names isOld
    · exact List.mem_singleton.mp isNew ▸ isName
  have isRoot := root_cases directory
  rw [tidy, child, root_ofNames isRoot areNames, names_ofNames isRoot areNames]

end Path

/-! ## Entries of a variable -/

namespace Text

/-- Nothing is left of a text without the blanks at its ends just if it is blank. -/
theorem strip_eq_empty_iff {text : String} : strip text = "" ↔ isBlankText text = true := by
  rw [strip, trimBlanks, isBlankText, String.ofList_eq_empty_iff, List.reverse_eq_nil_iff,
    List.dropWhile_eq_nil_iff, List.all_eq_true]
  simp only [List.mem_reverse]
  constructor
  · intro restBlank c isIn
    rw [← List.takeWhile_append_dropWhile (p := isBlank) (l := text.toList)] at isIn
    rcases List.mem_append.mp isIn with isFront | isRest
    · exact List.mem_takeWhile_imp isFront
    · exact restBlank c isRest
  · exact fun allBlank c isRest => allBlank c (List.dropWhile_sublist isBlank |>.mem isRest)

end Text

namespace World

/-- Whether a path is that of the first entry of a text that is not blank. -/
def IsFirstEntry (text path : String) : Prop :=
  ∃ before entry after, Path.pieces ':' text = before ++ entry :: after ∧
    (∀ earlier ∈ before, Text.isBlankText earlier = true) ∧
    Text.isBlankText entry = false ∧ path = Path.tidy (Text.strip entry)

/-- Whether a text is made of blanks and colons alone but is not empty. -/
structure IsHollow (text : String) : Prop where
  /-- It is not empty. -/
  ne_empty : text ≠ ""
  /-- It has no other characters than blanks and colons. -/
  noEntry : ∀ c ∈ text.toList, Text.isBlank c = true ∨ c = ':'

/-- The first path that a text holds comes from the first entry that is not blank. -/
theorem head?_pathEntries (text : String) :
    (pathEntries text).head? =
      ((Path.pieces ':' text).find? fun entry => !Text.isBlankText entry).map
        (Path.tidy ∘ Text.strip) := by
  have isKept : ((· != "") ∘ Text.strip) = fun entry => !Text.isBlankText entry := by
    funext entry
    have isBlankIff : Text.strip entry = "" ↔ Text.isBlankText entry = true :=
      Text.strip_eq_empty_iff
    cases isBlank : Text.isBlankText entry with
    | true => simpa [isBlank] using isBlankIff
    | false => simpa [isBlank] using isBlankIff
  rw [pathEntries, List.head?_map, List.head?_filter, List.find?_map, isKept, Option.map_map]

/-- The first path that a text holds is that of the first entry that is not blank. -/
theorem head?_pathEntries_eq_some_iff {text path : String} :
    (pathEntries text).head? = some path ↔ IsFirstEntry text path := by
  rw [head?_pathEntries, Option.map_eq_some_iff]
  simp only [Function.comp_apply]
  constructor
  · rintro ⟨entry, isFound, isPath⟩
    obtain ⟨notBlank, before, after, isSplit, areBlank⟩ :=
      List.find?_eq_some_iff_append.mp isFound
    exact ⟨before, entry, after, isSplit, by simpa using areBlank, by simpa using notBlank,
      isPath.symm⟩
  · rintro ⟨before, entry, after, isSplit, areBlank, notBlank, isPath⟩
    refine ⟨entry, List.find?_eq_some_iff_append.mpr ⟨by simp [notBlank], before, after, isSplit,
      fun earlier isEarlier => by simp [areBlank earlier isEarlier]⟩, isPath.symm⟩

/-- A text holds no path just if it is made of blanks and colons alone. -/
theorem head?_pathEntries_eq_none_iff {text : String} :
    (pathEntries text).head? = none ↔ ∀ c ∈ text.toList, Text.isBlank c = true ∨ c = ':' := by
  have isIn (c : Char) :
      (∃ piece ∈ text.toList.splitOn ':', c ∈ piece) ↔ c ∈ text.toList ∧ c ≠ ':' :=
    exists_mem_splitOn_iff
  rw [head?_pathEntries, Option.map_eq_none_iff, List.find?_eq_none, Path.pieces,
    Path.splitOn_eq_splitOn, List.forall_mem_map]
  simp only [Text.isBlankText, String.toList_ofList, Bool.not_eq_true, Bool.not_eq_false',
    List.all_eq_true]
  -- the pieces hold all characters but the colons
  constructor
  · intro allBlank c isChar
    by_cases isColon : c = ':'
    · exact .inr isColon
    · obtain ⟨piece, isPiece, isInPiece⟩ := (isIn c).mpr ⟨isChar, isColon⟩
      exact .inl (allBlank piece isPiece c isInPiece)
  · intro onlyBlanks piece isPiece c isInPiece
    have ⟨isChar, notColon⟩ := (isIn c).mp ⟨piece, isPiece, isInPiece⟩
    exact (onlyBlanks c isChar).resolve_right notColon

/-- The text of a variable, where an unset one counts as empty. -/
def setting (world : World) (variableName : String) : String :=
  (world.environment.find? variableName).getD ""

/-- The text that says where the prelude is. -/
def preludeSetting (world : World) : String :=
  world.setting "LISHP_PRELUDE_PATH"

/-- The text that says where the startup file is. -/
def startupFileSetting (world : World) : String :=
  world.setting "LISHP_RC"

/-- The location that a text names: the default for an empty text, and otherwise the place that the
first path in it stands for. -/
def located? {α : Type} (text : String) (default : α) (place : String → α) : Option α :=
  if text == "" then some default else (pathEntries text).head?.map place

section Located

variable {α : Type} {text : String} {default location : α} {place : String → α}

/-- An empty text has no entry. -/
theorem not_isFirstEntry_empty {path : String} : ¬IsFirstEntry "" path := by
  rw [← head?_pathEntries_eq_some_iff]
  simp [pathEntries, Path.pieces, Path.splitOn, Text.strip, Text.trimBlanks]

/-- A text names the default if it is empty, and otherwise the place of its first entry. -/
theorem located?_eq_some_iff :
    located? text default place = some location ↔
      text = "" ∧ location = default ∨ ∃ path, IsFirstEntry text path ∧ location = place path := by
  rw [located?]
  split
  · next isEmpty =>
    obtain rfl := eq_of_beq isEmpty
    simp [not_isFirstEntry_empty, eq_comm]
  · next notEmpty =>
    have isNonempty : text ≠ "" := by simpa using notEmpty
    rw [Option.map_eq_some_iff]
    simp only [head?_pathEntries_eq_some_iff, isNonempty, false_and, false_or]
    exact exists_congr fun path => and_congr_right fun _ => eq_comm

/-- Hollow texts alone name no location. -/
theorem located?_eq_none_iff : located? text default place = none ↔ IsHollow text := by
  rw [located?]
  split
  · next isEmpty =>
    obtain rfl := eq_of_beq isEmpty
    exact ⟨nofun, fun isHollow => absurd rfl isHollow.ne_empty⟩
  · next notEmpty =>
    rw [Option.map_eq_none_iff, head?_pathEntries_eq_none_iff]
    exact ⟨fun noEntry => ⟨by simpa using notEmpty, noEntry⟩, IsHollow.noEntry⟩

end Located

variable (world : World)

/-- The prelude is where its variable says, and by default the one that comes with the shell. -/
theorem prelude?_eq :
    world.prelude? = located? world.preludeSetting .packaged .file := by
  rw [prelude?, preludeSetting, setting]
  cases world.environment.find? "LISHP_PRELUDE_PATH" with
  | none => rfl
  | some text => rfl

/-- The startup file is where its variable says, and by default in the home directory. -/
theorem startupFile?_eq (home : String) :
    world.startupFile? home =
      located? world.startupFileSetting (Path.child home ".lishprc") id := by
  have isTidy : Path.tidy (Path.child home ".lishprc") = Path.child home ".lishprc" :=
    Path.tidy_child ⟨by decide, by decide, by decide⟩ _
  rw [startupFile?, pathsFrom, startupFileSetting, setting]
  cases world.environment.find? "LISHP_RC" with
  | none => exact congrArg some isTidy
  | some text =>
    dsimp only [Option.getD_some]
    rw [located?]
    split
    · exact congrArg some isTidy
    · exact Option.map_id.symm ▸ rfl

end World

/-! ## Locations in a session -/

namespace Startup

/-- Whether a search gives the location that a text names by `World.located?`, and fails with
`Fault.noStartupPath` where it names none. Either way the course stays as it is. -/
def Finds {α : Type} (search : Run α) (text : String) (default : α) (place : String → α)
    (course : Course) : Prop :=
  search.exec course =
    ((World.located? text default place).elim (.error (.fault .noStartupPath)) .ok, course)

section Finds

variable {α : Type} {search : Run α} {text : String} {default : α} {place : String → α}
  {course : Course} (finds : Finds search text default place course)
include finds

/-- A search that `Finds` gives the default for an empty text and the place of the first entry for
others. -/
theorem exec_ok_iff_of_finds (location : α) :
    search.exec course = (.ok location, course) ↔
      text = "" ∧ location = default ∨
        ∃ path, World.IsFirstEntry text path ∧ location = place path := by
  rw [finds, ← World.located?_eq_some_iff]
  cases World.located? text default place <;> simp

/-- A search that `Finds` fails for a text with `World.IsHollow`. -/
theorem exec_error_of_finds (isHollow : World.IsHollow text) :
    search.exec course = (.error (.fault .noStartupPath), course) := by
  rw [finds, World.located?_eq_none_iff.mpr isHollow]
  rfl

/-- A search that `Finds` gives a location just for the texts without `World.IsHollow`. -/
theorem exists_exec_ok_iff_of_finds :
    (∃ location, search.exec course = (.ok location, course)) ↔ ¬World.IsHollow text := by
  rw [finds, ← World.located?_eq_none_iff]
  cases World.located? text default place <;> simp

end Finds

/-- A location that the world may not have is what `Run.consult` gives. -/
theorem exec_consult_location {α : Type} (cause : Fault) (location? : World → Option α)
    (course : Course) :
    (Run.consult (fun () => cause) fun world => (location? world).elim (.error ()) .ok).exec
        course =
      ((location? course.shell.world).elim (.error (.fault cause)) .ok, course) := by
  rw [Run.exec_consult]
  cases location? course.shell.world with
  | none => rfl
  | some location => rfl

variable {course : Course}

variable (course) in
/-- The prelude is searched for at the text of its variable. -/
theorem finds_preludeLocation :
    Finds (preludeLocation none) course.shell.world.preludeSetting .packaged .file course := by
  rw [Finds, preludeLocation, exec_consult_location, World.prelude?_eq]

/-- The startup file is searched for at the text of its variable, where there is a home
directory. -/
theorem finds_startupPath {home : String} (isHome : course.shell.world.home? = some home) :
    Finds (startupPath none) course.shell.world.startupFileSetting
      (Path.child home ".lishprc") id course := by
  have looksUp : Run.home.exec course = (.ok home, course) := by
    rw [Run.home, exec_consult_location, isHome]
    rfl
  rw [Finds, startupPath, Run.exec_bind_ok course looksUp, exec_consult_location,
    World.startupFile?_eq]

/-- The locations at the start of a session are defined unless a variable is hollow. With a home
directory, each of the two variables gives the path of its first entry that is not blank, and the
default if it is unset or empty; a search finds nothing just if the text has blanks and colons and
no other characters, and then loading fails. -/
theorem startup_locations_are_defined_unless_hollow [OperatingSystem] {course : Course}
    {home : String} (hasHome : course.shell.world.environment.find? "HOME" = some home)
    (isHome : home ≠ "") :
    (∀ location, (preludeLocation none).exec course = (.ok location, course) ↔
      course.shell.world.preludeSetting = "" ∧ location = .packaged ∨
        ∃ path, World.IsFirstEntry course.shell.world.preludeSetting path ∧
          location = .file path) ∧
    (∀ path, (startupPath none).exec course = (.ok path, course) ↔
      course.shell.world.startupFileSetting = "" ∧
          path = Path.child (Path.tidy home) ".lishprc" ∨
        World.IsFirstEntry course.shell.world.startupFileSetting path) ∧
    ((∃ location, (preludeLocation none).exec course = (.ok location, course)) ↔
      ¬World.IsHollow course.shell.world.preludeSetting) ∧
    ((∃ path, (startupPath none).exec course = (.ok path, course)) ↔
      ¬World.IsHollow course.shell.world.startupFileSetting) ∧
    (World.IsHollow course.shell.world.preludeSetting → ∀ limits,
      (loadPrelude limits none).exec course = (.error (.fault .noStartupPath), course)) ∧
    (World.IsHollow course.shell.world.startupFileSetting → ∀ limits,
      (loadFile limits none).exec course = (.error (.fault .noStartupPath), course)) := by
  have isDirectory : course.shell.world.home? = some (Path.tidy home) := by
    rw [World.home?, hasHome]
    exact if_neg (by simpa using isHome)
  have findsPrelude := finds_preludeLocation course
  have findsFile := finds_startupPath isDirectory
  refine ⟨exec_ok_iff_of_finds findsPrelude, ?fileIsFirst,
    exists_exec_ok_iff_of_finds findsPrelude, exists_exec_ok_iff_of_finds findsFile,
    fun isHollow limits => ?_, fun isHollow limits => ?_⟩
  case fileIsFirst =>
    intro path
    rw [exec_ok_iff_of_finds findsFile]
    simp only [id_eq, exists_eq_right']
  · exact Run.exec_bind_error course (exec_error_of_finds findsPrelude isHollow)
  · exact Run.exec_bind_error course (exec_error_of_finds findsFile isHollow)

/-- A new session whose variables name a home directory and where the startup file is. -/
def withStartupFile (text : String) : Course :=
  ⟨⟨.fresh, { World.ofFiles .empty with
    environment := .ofList [("HOME", "/home/user/"), ("LISHP_RC", text)] }⟩, []⟩

/-- The startup file is at the first entry that is not blank, and an empty text leaves it in the
home directory. -/
theorem startup_file_is_second_entry :
    let listed := withStartupFile "\t: //etc/./shell rc : x"
    let unlisted := withStartupFile ""
    (listed.shell.world.environment.find? "HOME" = some "/home/user/" ∧
      unlisted.shell.world.environment.find? "HOME" = some "/home/user/") ∧
    (startupPath none).exec listed = (.ok "//etc/shell rc", listed) ∧
    (startupPath none).exec unlisted = (.ok "/home/user/.lishprc", unlisted) := by
  intro listed unlisted
  have listedHome : listed.shell.world.environment.find? "HOME" = some "/home/user/" := rfl
  have unlistedHome : unlisted.shell.world.environment.find? "HOME" = some "/home/user/" := rfl
  have isEntry : World.IsFirstEntry listed.shell.world.startupFileSetting "//etc/shell rc" :=
    ⟨["\t"], " //etc/./shell rc ", [" x"], by decide, by decide, by decide, by decide⟩
  have ofListed := (startup_locations_are_defined_unless_hollow listedHome (by decide)).2.1
  have ofUnlisted := (startup_locations_are_defined_unless_hollow unlistedHome (by decide)).2.1
  exact ⟨⟨listedHome, unlistedHome⟩, (ofListed _).mpr (.inr isEntry),
    (ofUnlisted _).mpr (.inl ⟨rfl, by decide⟩)⟩

/-- A home directory is not enough for the location of the startup file to be defined: a colon
alone is a text without an entry, and no default stands in for it. -/
theorem colon_names_no_startup_file :
    ¬ ∀ (course : Course) (home : String),
      course.shell.world.environment.find? "HOME" = some home → home ≠ "" →
        ∃ path, (startupPath none).exec course = (.ok path, course) := by
  intro isDefined
  have isHollow : World.IsHollow ":" := ⟨by decide, by simp⟩
  obtain ⟨path, isFound⟩ := isDefined (withStartupFile ":") "/home/user/" rfl (by decide)
  have isDirectory : (withStartupFile ":").shell.world.home? = some "/home/user" := by decide
  exact (exists_exec_ok_iff_of_finds (finds_startupPath isDirectory)).mp ⟨path, isFound⟩ isHollow

end Startup

end LispShell
