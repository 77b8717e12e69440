import LispShell.Proofs.Run.Discipline

/-! # Output and status
What the operations on the world do to the output of the shell, and the status that a program ends
with. -/

namespace LispShell.World

/-- A program that a signal kills has 128 and the number of the signal for its status. -/
theorem exitStatus_of_killed {signal : Nat} (isSignal : 0 < signal) :
    exitStatus (-signal) = 128 + signal := by
  rw [exitStatus, if_pos (by omega)]
  omega

variable [OperatingSystem]

/-- The status of a program by the return code that it ends with, or the one that stands for a
program that cannot be started. -/
def childStatus (past : List Effect) (world : World) (path : String)
    (arguments : List String) : Nat :=
  match world.startFirst past arguments .notFound (world.startCandidates path) with
  | .ok finished => exitStatus finished.returnCode
  | .error _ => startFailureStatus

/-- A program that is run ends with its status. -/
theorem status_of_runProcess {past : List Effect} {world after : World} {path : String}
    {arguments : List String} {capture : Bool} {result : ProcessResult}
    (ended : world.runProcess past path arguments capture = .ok (result, after)) :
    result.status = world.childStatus past path arguments := by
  unfold runProcess at ended
  unfold childStatus
  split at ended
  · cases ended
  · cases started : world.startFirst past arguments .notFound (world.startCandidates path) with
    | ok finished =>
      rw [started] at ended
      cases ended
      rfl
    | error refusal =>
      rw [started] at ended
      cases ended
      rfl

omit [OperatingSystem] in
/-- Entering a directory changes the working directory alone. -/
theorem exists_of_enter {world after : World} {path : String}
    (entered : world.enter path = .ok after) :
    ∃ directory, after = { world with workingDirectory := directory } := by
  unfold enter at entered
  match found : world.directory? path with
  | .error fault => simp [found, bind, Except.bind] at entered
  | .ok directory =>
    rw [found] at entered
    cases entered
    exact ⟨directory, rfl⟩

omit [OperatingSystem] in
/-- Storing a text changes the files alone. -/
theorem exists_of_writeText {world after : World} {mode : FileTree.WriteMode}
    {content path : String} (stored : world.writeText mode content path = .ok after) :
    ∃ files, after = { world with files := files } := by
  unfold writeText at stored
  match written : world.attempt path
      (world.files.write world.workingDirectory mode (Text.encode content) path) with
  | .error fault => simp [written, bind, Except.bind] at stored
  | .ok files =>
    rw [written] at stored
    cases stored
    exact ⟨files, rfl⟩

/-- A program that is run does what a child does, or it cannot be started and is reported. -/
theorem exists_of_runProcess {past : List Effect} {world after : World} {path : String}
    {arguments : List String} {capture : Bool} {result : ProcessResult}
    (ended : world.runProcess past path arguments capture = .ok (result, after)) :
    (∃ finished, after = world.afterChild finished capture) ∨
      ∃ report, after = world.printError report := by
  unfold runProcess at ended
  split at ended
  · cases ended
  · split at ended
    · cases ended
      exact .inl ⟨_, rfl⟩
    · cases ended
      exact .inr ⟨_, rfl⟩

/-- An effect that leaves the output to the shell leaves it as it is. -/
theorem Does.output {past : List Effect} {world after : World} {effect : Effect}
    (does : world.Does past effect after) (spares : effect.sparesOutput = true) :
    after.output = world.output := by
  cases does with
  | enter entered =>
    obtain ⟨directory, rfl⟩ := exists_of_enter entered
    rfl
  | setVariable => rfl
  | store stored =>
    obtain ⟨files, rfl⟩ := exists_of_writeText stored
    rfl
  | launch ended =>
    obtain rfl : _ = true := spares
    obtain ⟨finished, rfl⟩ | ⟨report, rfl⟩ := exists_of_runProcess ended <;> rfl

end LispShell.World
