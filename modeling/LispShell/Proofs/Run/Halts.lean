import LispShell.Proofs.Run.Exec

/-! # Halts
What a run may come to a halt for, and in which world: a run halts only as is allowed if each of its
steps does. -/

namespace LispShell.Run

variable {α β γ : Type} {allowed : World → Halt → Prop}

/-- Whether a run comes only to halts that are allowed in the world in which they come. -/
def HaltsOnly (allowed : World → Halt → Prop) (run : Run α) : Prop :=
  ∀ course halt after, run.exec course = (.error halt, after) → allowed after.shell.world halt

namespace HaltsOnly

/-- A run that always comes to a value comes to no halt. -/
theorem of_exec_ok {run : Run α}
    (ends : ∀ course, ∃ result after, run.exec course = (.ok result, after)) :
    HaltsOnly allowed run := by
  intro course halt after halted
  obtain ⟨result, last, ended⟩ := ends course
  rw [ended] at halted
  cases halted

/-- A finished run comes to no halt. -/
theorem pure (result : α) : HaltsOnly allowed (pure result : Run α) :=
  of_exec_ok fun _ => ⟨_, _, rfl⟩

/-- A halt that is allowed everywhere. -/
theorem throw {halt : Halt} (isAllowed : ∀ world, allowed world halt) :
    HaltsOnly allowed (throw halt : Run α) := by
  rintro course other after ⟨⟩
  exact isAllowed _

/-- A failure that is allowed everywhere. -/
theorem fail {cause : Fault} (isAllowed : ∀ world, allowed world (.fault cause)) :
    HaltsOnly allowed (fail cause : Run α) :=
  throw isAllowed

/-- What is allowed may be allowed for more than one reason. -/
theorem weaken {better : World → Halt → Prop} {run : Run α} (only : HaltsOnly better run)
    (weaker : ∀ world halt, better world halt → allowed world halt) : HaltsOnly allowed run :=
  fun course halt after halted => weaker _ halt (only course halt after halted)

/-- A run halts as is allowed if it does and all that may follow it. -/
theorem bind {run : Run α} {next : α → Run β} (first : HaltsOnly allowed run)
    (second : ∀ result, HaltsOnly allowed (next result)) : HaltsOnly allowed (run >>= next) := by
  intro course halt after halted
  obtain isFirst | ⟨result, middle, -, isNext⟩ := exec_bind_error_cases halted
  · exact first course halt after isFirst
  · exact second result middle halt after isNext

/-- A function applied to the result changes no halt. -/
theorem map {run : Run α} (f : α → β) (only : HaltsOnly allowed run) :
    HaltsOnly allowed (f <$> run) := by
  rw [map_eq_pure_bind]
  exact only.bind fun _ => pure _

/-- One run after another for each item. -/
theorem mapM {each : γ → Run α} (only : ∀ item, HaltsOnly allowed (each item)) (items : List γ) :
    HaltsOnly allowed (items.mapM each) := by
  induction items with
  | nil => exact pure _
  | cons item rest inductionHypothesis =>
    rw [List.mapM_cons]
    exact (only item).bind fun _ => inductionHypothesis.bind fun _ => pure _

/-- Asking for the session comes to no halt. -/
theorem session : HaltsOnly allowed session :=
  of_exec_ok fun _ => ⟨_, _, rfl⟩

/-- Asking for the world comes to no halt. -/
theorem world : HaltsOnly allowed world :=
  of_exec_ok fun _ => ⟨_, _, rfl⟩

/-- Asking for the record comes to no halt. -/
theorem effects : HaltsOnly allowed effects :=
  of_exec_ok fun _ => ⟨_, _, rfl⟩

/-- A change of the session comes to no halt. -/
theorem changeSession (change : Session → Session) : HaltsOnly allowed (changeSession change) :=
  of_exec_ok fun _ => ⟨_, _, rfl⟩

/-- A change of the world comes to no halt. -/
theorem changeWorld (change : World → World) : HaltsOnly allowed (changeWorld change) :=
  of_exec_ok fun _ => ⟨_, _, rfl⟩

/-- An effect comes to no halt. -/
theorem perform (effect : Effect) (change : World → World) :
    HaltsOnly allowed (perform effect change) :=
  of_exec_ok fun _ => ⟨_, _, rfl⟩

/-- An attempt comes only to the faults made of its errors. -/
theorem ofExcept {ε : Type} {cause : ε → Fault} {attempt : Except ε α}
    (areAllowed : ∀ error, attempt = .error error → ∀ world, allowed world (.fault (cause error))) :
    HaltsOnly allowed (ofExcept cause attempt) := by
  cases attempt with
  | ok result => exact pure result
  | error error => exact fail (areAllowed error rfl)

/-- An attempt on the world comes only to the faults made of its errors in that world. -/
theorem consult {ε : Type} {cause : ε → Fault} {attempt : World → Except ε α}
    (areAllowed : ∀ world error, attempt world = .error error →
      allowed world (.fault (cause error))) :
    HaltsOnly allowed (consult cause attempt) := by
  intro course halt after halted
  rw [exec_consult] at halted
  cases attempted : attempt course.shell.world with
  | ok value =>
    rw [attempted] at halted
    cases halted
  | error error =>
    rw [attempted] at halted
    cases halted
    exact areAllowed _ error attempted

/-- An attempted effect comes only to the faults made of its errors. -/
theorem tryPerform {ε : Type} {cause : ε → Fault} (effect : Effect)
    (change : World → Except ε World)
    (areAllowed : ∀ world error, allowed world (.fault (cause error))) :
    HaltsOnly allowed (tryPerform effect cause change) :=
  (consult fun world error _ => areAllowed world error).bind fun _ => perform _ _

end HaltsOnly

end LispShell.Run
