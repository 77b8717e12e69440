import LispShell.Evaluation.Run

/-! # Steps of a run
What each elementary run does to the course it starts from. -/

namespace LispShell.Run

variable {α β : Type} (course : Course)

/-- A finished run changes nothing. -/
@[simp] theorem exec_pure (result : α) :
    (pure result : Run α).exec course = (.ok result, course) :=
  rfl

/-- A halt changes nothing. -/
@[simp] theorem exec_throw (halt : Halt) :
    (throw halt : Run α).exec course = (.error halt, course) :=
  rfl

/-- A failure changes nothing. -/
@[simp] theorem exec_fail (cause : Fault) :
    (fail cause : Run α).exec course = (.error (.fault cause), course) :=
  rfl

/-- A continuation starts from the course in which the run before it ended with a value. -/
theorem exec_bind_ok {run : Run α} {next : α → Run β} {result : α} {after : Course}
    (ended : run.exec course = (.ok result, after)) :
    (run >>= next).exec course = (next result).exec after := by
  simp only [exec] at ended ⊢
  rw [ExceptT.run_bind, StateT.run_bind, ended]
  rfl

/-- After a halt nothing goes on. -/
theorem exec_bind_error {run : Run α} {next : α → Run β} {halt : Halt} {after : Course}
    (ended : run.exec course = (.error halt, after)) :
    (run >>= next).exec course = (.error halt, after) := by
  simp only [exec] at ended ⊢
  rw [ExceptT.run_bind, StateT.run_bind, ended]
  rfl

/-- Runs that do the same and go on in the same way do the same together. -/
theorem exec_bind_eq {run other : Run α} {next otherNext : α → Run β}
    (same : run.exec course = other.exec course)
    (goesOn : ∀ result after, run.exec course = (.ok result, after) →
      (next result).exec after = (otherNext result).exec after) :
    (run >>= next).exec course = (other >>= otherNext).exec course := by
  rcases ended : run.exec course with ⟨halt | result, after⟩
  · rw [exec_bind_error course ended, exec_bind_error course (same.symm.trans ended)]
  · rw [exec_bind_ok course ended, exec_bind_ok course (same.symm.trans ended)]
    exact goesOn result after ended

/-- What follows runs that do the same does the same. -/
theorem exec_bind_congr {run other : Run α} (same : run.exec course = other.exec course)
    (next : α → Run β) : (run >>= next).exec course = (other >>= next).exec course :=
  exec_bind_eq course same fun _ _ _ => rfl

/-- Where a continuation ends with a value, so did the run before it. -/
theorem exists_of_exec_bind_ok {run : Run α} {next : α → Run β} {course after : Course}
    {result : β} (ended : (run >>= next).exec course = (.ok result, after)) :
    ∃ first middle, run.exec course = (.ok first, middle) ∧
      (next first).exec middle = (.ok result, after) := by
  rcases isFirst : run.exec course with ⟨halt | first, middle⟩
  · rw [exec_bind_error course isFirst] at ended
    cases ended
  · exact ⟨first, middle, rfl, (exec_bind_ok course isFirst).symm.trans ended⟩

/-- Where a run and its continuation come to a halt, the one or the other does. -/
theorem exec_bind_error_cases {run : Run α} {next : α → Run β} {course after : Course}
    {halt : Halt} (ended : (run >>= next).exec course = (.error halt, after)) :
    run.exec course = (.error halt, after) ∨
      ∃ first middle, run.exec course = (.ok first, middle) ∧
        (next first).exec middle = (.error halt, after) := by
  rcases isFirst : run.exec course with ⟨cause | first, middle⟩
  · rw [exec_bind_error course isFirst] at ended
    cases ended
    exact .inl rfl
  · exact .inr ⟨first, middle, rfl, (exec_bind_ok course isFirst).symm.trans ended⟩

/-- A function applied to the result leaves the course alone. -/
@[simp] theorem exec_map (f : α → β) (run : Run α) :
    (f <$> run).exec course = ((run.exec course).1.map f, (run.exec course).2) := by
  simp only [exec, ExceptT.run_map]
  cases run.run course with
  | mk outcome after => cases outcome <;> rfl

/-- A handler starts from the course in which the halt came. -/
theorem exec_tryCatch (run : Run α) (handle : Halt → Run α) :
    (tryCatch run handle).exec course =
      match run.exec course with
      | (.ok result, after) => (.ok result, after)
      | (.error halt, after) => (handle halt).exec after := by
  simp only [exec, tryCatch, tryCatchThe, MonadExceptOf.tryCatch, ExceptT.tryCatch, ExceptT.run,
    ExceptT.mk, StateT.run, bind, StateT.bind]
  generalize run course = ended
  rcases ended with ⟨_ | _, _⟩ <;> rfl

/-- What catching faults makes of the end of a run. -/
theorem exec_caught (accepts : Fault → Bool) (run : Run α) :
    (caught accepts run).exec course =
      match run.exec course with
      | (.ok result, after) => (.ok (.ok result), after)
      | (.error (.fault cause), after) =>
        if accepts cause then (.ok (.error cause), after) else (.error (.fault cause), after)
      | (.error halt, after) => (.error halt, after) := by
  rw [caught, exec_tryCatch, exec_map]
  match run.exec course with
  | (.ok result, after) => rfl
  | (.error (.exit status), after) => rfl
  | (.error .outOfSteps, after) => rfl
  | (.error (.fault cause), after) =>
    simp only [Except.map]
    split <;> rfl

/-- Where faults are caught, only the others are left. -/
theorem exec_of_exec_caught_error {accepts : Fault → Bool} {run : Run α} {course after : Course}
    {halt : Halt} (halted : (caught accepts run).exec course = (.error halt, after)) :
    run.exec course = (.error halt, after) ∧
      ∀ cause, halt = .fault cause → accepts cause = false := by
  rw [exec_caught] at halted
  match ended : run.exec course with
  | (.ok result, last) =>
    rw [ended] at halted
    cases halted
  | (.error (.exit status), last) =>
    rw [ended] at halted
    cases halted
    exact ⟨rfl, by rintro _ ⟨⟩⟩
  | (.error .outOfSteps, last) =>
    rw [ended] at halted
    cases halted
    exact ⟨rfl, by rintro _ ⟨⟩⟩
  | (.error (.fault cause), last) =>
    rw [ended] at halted
    dsimp only at halted
    split at halted
    · cases halted
    · next refused =>
      cases halted
      refine ⟨rfl, ?_⟩
      rintro _ ⟨⟩
      exact Bool.eq_false_iff.mpr refused

/-- Catching faults leaves the course alone. -/
theorem exec_caught_course (accepts : Fault → Bool) (run : Run α) :
    ((caught accepts run).exec course).2 = (run.exec course).2 := by
  rw [exec_caught]
  match run.exec course with
  | (.ok result, after) => rfl
  | (.error (.exit status), after) => rfl
  | (.error .outOfSteps, after) => rfl
  | (.error (.fault cause), after) =>
    dsimp only
    split <;> rfl

/-- Asking for the session changes nothing. -/
@[simp] theorem exec_session : session.exec course = (.ok course.shell.session, course) :=
  rfl

/-- Asking for the world changes nothing. -/
@[simp] theorem exec_world : world.exec course = (.ok course.shell.world, course) :=
  rfl

/-- Asking for the record changes nothing. -/
@[simp] theorem exec_effects : effects.exec course = (.ok course.effects, course) :=
  rfl

/-- An attempt on the world changes nothing. -/
theorem exec_consult {ε : Type} (cause : ε → Fault) (attempt : World → Except ε α) :
    (consult cause attempt).exec course =
      ((attempt course.shell.world).mapError fun error => .fault (cause error), course) := by
  rw [consult, exec_bind_ok course (exec_world course)]
  cases attempt course.shell.world with
  | error error => rfl
  | ok value => rfl

/-- A change of the session leaves the world and the record alone. -/
@[simp] theorem exec_changeSession (change : Session → Session) :
    (changeSession change).exec course =
      (.ok (), ⟨⟨change course.shell.session, course.shell.world⟩, course.effects⟩) :=
  rfl

/-- A change of the world without effect leaves the session and the record alone. -/
@[simp] theorem exec_changeWorld (change : World → World) :
    (changeWorld change).exec course =
      (.ok (), ⟨⟨course.shell.session, change course.shell.world⟩, course.effects⟩) :=
  rfl

/-- An effect leaves the session alone and goes on record. -/
@[simp] theorem exec_perform (effect : Effect) (change : World → World) :
    (perform effect change).exec course =
      (.ok (), ⟨⟨course.shell.session, change course.shell.world⟩,
        course.effects ++ [effect]⟩) :=
  rfl

/-- An attempted effect is had, or it fails and nothing is done. -/
theorem exec_tryPerform {ε : Type} (effect : Effect) (cause : ε → Fault)
    (change : World → Except ε World) :
    (tryPerform effect cause change).exec course =
      match change course.shell.world with
      | .ok changed => (.ok (), ⟨⟨course.shell.session, changed⟩, course.effects ++ [effect]⟩)
      | .error error => (.error (.fault (cause error)), course) := by
  have consulted := exec_consult course cause change
  rw [tryPerform]
  cases changed : change course.shell.world with
  | ok world =>
    rw [changed] at consulted
    rw [exec_bind_ok course consulted]
    rfl
  | error error =>
    rw [changed] at consulted
    rw [exec_bind_error course consulted]

end LispShell.Run
