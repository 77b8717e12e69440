import LispShell.Proofs.Evaluation.Steps
import LispShell.Proofs.Session.Commands
import LispShell.Proofs.World.Stores
import LispShell.Script.Run
import Mathlib

/-! # Files and programs
A program that does no more to files than store texts leaves in every file what its record says. So
a file is read as the text that was last written to it and the texts that were added since, byte for
byte and whatever they are, and what is stored in one file does not show in another. -/

namespace LispShell

open FileTree (WriteMode)

/-! ## Storing and reading -/

/-- An operand gives the text of its value, if there is room to take it. -/
theorem Operands.exec_text_eq_ok_iff {operands : Operands} {e : Expr} {text : String}
    {course after : Course} :
    (operands.text e).exec course = (.ok text, after) ↔
      ∃ value, (operands.value e).exec course = (.ok value, after) ∧
        value.height ≤ operands.room ∧ value.flatten = text := by
  constructor
  · intro ended
    obtain ⟨value, middle, isValue, isText⟩ := Run.exists_of_exec_bind_ok ended
    rw [flatten, within] at isText
    split at isText
    case isTrue fits =>
      cases isText
      exact ⟨value, isValue, fits, rfl⟩
    case isFalse => cases isText
  · rintro ⟨value, isValue, fits, rfl⟩
    rw [Operands.text, Run.exec_bind_ok course isValue, flatten, within, if_pos fits]
    rfl

namespace Environment

variable {operands : Operands} {course after : Course} {value : Expr}

/-- What is done where texts are stored. -/
theorem exec_store_eq_ok_iff {builtin : Builtin} {mode : WriteMode} {first second : Expr} :
    (store operands builtin mode [first, second]).exec course = (.ok value, after) ↔
      value = .empty ∧ ∃ content path between ready world,
        (operands.text first).exec course = (.ok content, between) ∧
        (operands.text second).exec between = (.ok path, ready) ∧
        ready.shell.world.writeText mode content path = .ok world ∧
        after = ⟨⟨ready.shell.session, world⟩, ready.effects ++ [.store mode content path]⟩ := by
  constructor
  · intro ended
    obtain ⟨content, between, isContent, ended⟩ := Run.exists_of_exec_bind_ok ended
    obtain ⟨path, ready, isPath, ended⟩ := Run.exists_of_exec_bind_ok ended
    obtain ⟨_, done, isDone, ended⟩ := Run.exists_of_exec_bind_ok ended
    cases ended
    rw [Run.exec_tryPerform] at isDone
    cases isStored : ready.shell.world.writeText mode content path with
    | error fault =>
      rw [isStored] at isDone
      cases isDone
    | ok world =>
      rw [isStored] at isDone
      cases isDone
      exact ⟨rfl, content, path, between, ready, world, isContent, isPath, isStored, rfl⟩
  · rintro ⟨rfl, content, path, between, ready, world, isContent, isPath, isStored, rfl⟩
    have isDone := Run.exec_tryPerform ready (.store mode content path) (.fileFailed builtin)
      (·.writeText mode content path)
    rw [isStored] at isDone
    rw [store, Run.exec_bind_ok course isContent, Run.exec_bind_ok between isPath,
      Run.exec_bind_ok ready isDone]
    rfl

/-- What is done where a file is read. -/
theorem exec_read_eq_ok_iff {e : Expr} :
    (read operands [e]).exec course = (.ok value, after) ↔
      ∃ path text, (operands.text e).exec course = (.ok path, after) ∧
        after.shell.world.readText path = .ok text ∧ value = .atom text := by
  constructor
  · intro ended
    obtain ⟨path, ready, isPath, ended⟩ := Run.exists_of_exec_bind_ok ended
    obtain ⟨text, read, consulted, ended⟩ := Run.exists_of_exec_bind_ok ended
    cases ended
    rw [Run.exec_consult] at consulted
    cases isRead : ready.shell.world.readText path with
    | error fault =>
      rw [isRead] at consulted
      cases consulted
    | ok found =>
      rw [isRead] at consulted
      cases consulted
      exact ⟨path, text, isPath, isRead, rfl⟩
  · rintro ⟨path, text, isPath, isRead, rfl⟩
    have consulted := Run.exec_consult after (.fileFailed .read) (·.readText path)
    rw [isRead] at consulted
    rw [read, Run.exec_bind_ok course isPath, Run.exec_bind_ok after consulted]
    rfl

end Environment

/-- The builtin that stores texts in the given way. -/
def FileTree.WriteMode.builtin : WriteMode → Builtin
  | .replace => .write
  | .extend => .append

namespace Evaluation

variable [OperatingSystem]

/-- Whether an expression comes to a value of the given text. -/
def GivesText (e : Expr) (course : Course) (text : String) (after : Course) : Prop :=
  ∃ value, Run.Ends (fun limits => run limits false e) course (.ok value, after) ∧
    value.flatten = text

variable {e : Expr} {text : String} {course after : Course} {isLine : Bool}

/-- What a builtin takes for the text of an operand is given by it. -/
theorem givesText_of_exec_text {depth : Nat}
    (taken : (Operands.text ⟨depth, direct depth false⟩ e).exec course = (.ok text, after)) :
    GivesText e course text after := by
  obtain ⟨value, isValue, -, isText⟩ := Operands.exec_text_eq_ok_iff.mp taken
  exact ⟨value, ends_run_iff_ends_direct.mpr ⟨depth, isValue, trivial⟩, isText⟩

/-- A builtin with room enough takes the text that an operand gives. -/
theorem GivesText.exists_least (gives : GivesText e course text after) :
    ∃ least, ∀ depth, least ≤ depth →
      (Operands.text ⟨depth, direct depth false⟩ e).exec course = (.ok text, after) := by
  obtain ⟨value, ends, isText⟩ := gives
  obtain ⟨least, ended⟩ := exists_least_direct ends
  refine ⟨max least value.height, fun depth fits => ?_⟩
  have hasRoom : value.height ≤ depth := by omega
  exact Operands.exec_text_eq_ok_iff.mpr ⟨value, ended depth (by omega), hasRoom, isText⟩

/-- Whether two operands in turn give a content and a path, and the content is then stored and put
on record, which is all that is done. -/
def Stores (mode : WriteMode) (first second : Expr) (course after : Course) : Prop :=
  ∃ content path between ready world,
    GivesText first course content between ∧ GivesText second between path ready ∧
    ready.shell.world.writeText mode content path = .ok world ∧
    after = ⟨⟨ready.shell.session, world⟩, ready.effects ++ [.store mode content path]⟩

/-- A call of `write` or `append` succeeds just where it stores the content that is given. -/
theorem ends_run_store_iff {mode : WriteMode} {first second value : Expr} :
    Run.Ends (fun limits => run limits isLine (.call [.atom mode.builtin.name, first, second]))
        course (.ok value, after) ↔
      value = .empty ∧ Stores mode first second course after := by
  have isBuiltin : Builtin.ofName? mode.builtin.name = some mode.builtin := by
    cases mode <;> decide
  have noBranch : mode.builtin.endsInBranch = false := by cases mode <;> rfl
  have isStore (operands : Operands) :
      mode.builtin.value operands [first, second] =
        Environment.store operands mode.builtin mode [first, second] := by
    cases mode <;> rfl
  refine Iff.trans (ends_run_builtin_iff isBuiltin noBranch trivial) ?_
  simp only [isStore, Environment.exec_store_eq_ok_iff, Stores]
  constructor
  · rintro ⟨depth, rfl, content, path, between, ready, world, isContent, isPath, rest⟩
    exact ⟨rfl, content, path, between, ready, world, givesText_of_exec_text isContent,
      givesText_of_exec_text isPath, rest⟩
  · rintro ⟨rfl, content, path, between, ready, world, givesContent, givesPath, rest⟩
    obtain ⟨least, isContent⟩ := givesContent.exists_least
    obtain ⟨leastToo, isPath⟩ := givesPath.exists_least
    exact ⟨max least leastToo, rfl, content, path, between, ready, world,
      isContent _ (Nat.le_max_left _ _), isPath _ (Nat.le_max_right _ _), rest⟩

/-- A call of `read` succeeds just where its operand gives the path of a file that holds a text, and
gives the text. -/
theorem ends_run_read_iff {value : Expr} :
    Run.Ends (fun limits => run limits isLine (.call [.atom "read", e])) course
        (.ok value, after) ↔
      ∃ path text, GivesText e course path after ∧ after.shell.world.readText path = .ok text ∧
        value = .atom text := by
  have isRead : Builtin.ofName? "read" = some .read := by decide
  refine Iff.trans (ends_run_builtin_iff isRead rfl trivial) ?_
  simp only [Builtin.value, Environment.exec_read_eq_ok_iff]
  constructor
  · rintro ⟨depth, path, text, isPath, rest⟩
    exact ⟨path, text, givesText_of_exec_text isPath, rest⟩
  · rintro ⟨path, text, givesPath, rest⟩
    obtain ⟨least, isPath⟩ := givesPath.exists_least
    exact ⟨least, path, text, isPath _ (Nat.le_refl least), rest⟩

end Evaluation

/-! ## Files on record -/

/-- Whether all that stands in files follows from the record since a course, if that holds nothing
but stores. -/
def Course.Filed (start : Course) (world : World) (past : List Effect) : Prop :=
  ∃ done, past = start.effects ++ done ∧
    ((∀ effect ∈ done, effect.onlyStores = true) → start.shell.world.Replays done world)

section

variable [OperatingSystem]

/-- One more effect leaves the files on record. -/
theorem Course.Filed.does {start : Course} {past : List Effect} {world after : World}
    {effect : Effect} (filed : start.Filed world past) (does : world.Does past effect after) :
    start.Filed after (past ++ [effect]) := by
  obtain ⟨done, rfl, replays⟩ := filed
  refine ⟨done ++ [effect], List.append_assoc _ _ _, fun onlyStores => ?_⟩
  rw [List.forall_mem_append, List.forall_mem_singleton] at onlyStores
  exact (replays onlyStores.1).does does onlyStores.2

/-- The files are on record since a course. -/
def Discipline.filing (start : Course) : Discipline :=
  { unrestricted with
    outside := start.Filed
    outside_does := fun filed does _ => filed.does does }

/-- Whether evaluations, one after the other, lead from one course to another, however they end. -/
inductive Course.Leads (start : Course) : Course → Prop
  /-- Nothing is evaluated. -/
  | refl : Leads start start
  /-- One more expression is evaluated. -/
  | run {course : Course} (limits : Limits) (isLine : Bool) (e : Expr) :
    Leads start course → Leads start ((Evaluation.run limits isLine e).exec course).2

/-- Evaluation leaves the files on record. -/
theorem Course.Leads.filed {start last : Course} (leads : start.Leads last) :
    start.Filed last.shell.world last.effects := by
  induction leads with
  | refl => exact ⟨[], (List.append_nil _).symm, fun _ => .refl _⟩
  | @run course limits isLine e _ inductionHypothesis =>
    have keeps : (Discipline.filing start).Keeps (fun _ => True) (Evaluation.run limits isLine e) :=
      Discipline.keeps_run limits (fun _ => trivial) trivial
    exact (keeps course ⟨trivial, inductionHypothesis⟩).1.2

/-- Where the record since a course holds nothing but stores, they made the files. -/
theorem Course.Leads.replays {start last : Course} {done : List Effect} (leads : start.Leads last)
    (onRecord : last.effects = start.effects ++ done)
    (onlyStores : ∀ effect ∈ done, effect.onlyStores = true) :
    start.shell.world.Replays done last.shell.world := by
  obtain ⟨recorded, isRecorded, replays⟩ := leads.filed
  obtain rfl : recorded = done := List.append_cancel_left (isRecorded.symm.trans onRecord)
  exact replays onlyStores

/-- Whether a text is what a path is read as, whatever expression gives the path and from wherever
its evaluation leads to the course. -/
def Course.Reads (last : Course) (path text : String) : Prop :=
  ∀ (course : Course) (isLine : Bool) (e : Expr), Evaluation.GivesText e course path last →
    Run.Ends (fun limits => Evaluation.run limits isLine (.call [.atom "read", e])) course
      (.ok (.atom text), last)

/-- A file that holds the bytes of a text is read as the text. -/
theorem Course.reads_of_entry? {last : Course} {path text : String} {place : Place}
    {isProgram : Bool} (names : last.shell.world.placeOf? path = some place)
    (holds : last.shell.world.files.entry? place = some (.file (Text.encode text) isProgram)) :
    last.Reads path text := by
  have isFile : FileTree.isFileOrMissing (last.shell.world.files.entry? place) = true := by
    rw [holds]
    rfl
  intro course isLine e gives
  exact Evaluation.ends_run_read_iff.mpr
    ⟨path, text, gives, (World.readText_eq_ok_iff isFile names).mpr ⟨isProgram, holds⟩, rfl⟩

/-- Files are read as they were stored. Calls of `write` and `append` that succeed put what they
store on record. Where evaluations have done no more to files than that, a path is read as the text
that was last written to the file that it names and the texts that were added since; if none was
written, as the text that the file held and those added to it; and if it was not there either, as
those added to it. A file to which nothing was stored is as it was. -/
theorem Evaluation.files_are_read_as_stored {start last : Course} {done : List Effect}
    {path : String} {place : Place} (leads : start.Leads last)
    (onRecord : last.effects = start.effects ++ done)
    (onlyStores : ∀ effect ∈ done, effect.onlyStores = true)
    (names : start.shell.world.placeOf? path = some place)
    (isFile : FileTree.isFileOrMissing (start.shell.world.files.entry? place) = true) :
    (∀ (mode : WriteMode) (isLine : Bool) (first second value : Expr) (course after : Course),
      Run.Ends (fun limits => run limits isLine (.call [.atom mode.builtin.name, first, second]))
          course (.ok value, after) ↔
        value = .empty ∧ Stores mode first second course after) ∧
    (∀ earlier content later,
      start.shell.world.storesAt place done =
          earlier ++ (.replace, content) :: later.map (.extend, ·) →
        last.Reads path (content ++ String.join later)) ∧
    (∀ before added, start.shell.world.readText path = .ok before →
      start.shell.world.storesAt place done = added.map (.extend, ·) →
        last.Reads path (before ++ String.join added)) ∧
    (∀ added, start.shell.world.files.entry? place = none → added ≠ [] →
      start.shell.world.storesAt place done = added.map (.extend, ·) →
        last.Reads path (String.join added)) ∧
    (∀ other, start.shell.world.storesAt other done = [] →
      last.shell.world.files.entry? other = start.shell.world.files.entry? other) := by
  have replays := leads.replays onRecord onlyStores
  have namesLast : last.shell.world.placeOf? path = some place :=
    (replays.placeOf? path).trans names
  refine ⟨fun _ _ _ _ _ _ _ => ends_run_store_iff, ?written, ?before, ?added, ?others⟩
  case written =>
    intro earlier content later isStored
    obtain ⟨isProgram, holds⟩ := FileTree.exists_replay_replace isFile earlier content later
    rw [← isStored, ← replays.entry?] at holds
    exact Course.reads_of_entry? namesLast holds
  case before =>
    intro before added isRead isStored
    obtain ⟨isProgram, held⟩ := (World.readText_eq_ok_iff isFile names).mp isRead
    have holds := FileTree.replay_extend (Text.encode before) isProgram added
    rw [← Text.encode_append, ← held, ← isStored, ← replays.entry?] at holds
    exact Course.reads_of_entry? namesLast holds
  case added =>
    intro added isMissing someText isStored
    have holds := FileTree.replay_extend_none someText
    rw [← isMissing, ← isStored, ← replays.entry?] at holds
    exact Course.reads_of_entry? namesLast holds
  case others =>
    intro other notStored
    rw [replays.entry?, notStored]
    rfl

end

/-- What was written to a file and added to it is read, and what was added before is not. -/
theorem Evaluation.written_text_is_read :
    let stored (name text : String) : Expr := .call [.atom name, .atom text, .atom "file"]
    let e : Expr := .call [.atom "list", stored "append" "dropped", stored "write" "\ufeffone\r",
      stored "append" "\x00two\n"]
    ((run ⟨4, 4⟩ false e).exec .fresh).2.Reads "file"
      ("\ufeffone\r" ++ String.join ["\x00two\n"]) := by
  intro stored e
  let done : List Effect := [.store .extend "dropped" "file", .store .replace "\ufeffone\r" "file",
    .store .extend "\x00two\n" "file"]
  have leads : Course.fresh.Leads ((run ⟨4, 4⟩ false e).exec .fresh).2 := .run _ _ _ .refl
  have onRecord : ((run ⟨4, 4⟩ false e).exec .fresh).2.effects = Course.fresh.effects ++ done := by
    cbv
  have onlyStores : ∀ effect ∈ done, effect.onlyStores = true := by decide
  have names : Course.fresh.shell.world.placeOf? "file" = some ["file"] := by cbv
  have isStored : Course.fresh.shell.world.storesAt ["file"] done =
      [(.extend, "dropped")] ++ (.replace, "\ufeffone\r") :: ["\x00two\n"].map (.extend, ·) := by
    cbv
  exact (files_are_read_as_stored leads onRecord onlyStores names rfl).2.1 _ _ _ isStored

end LispShell
