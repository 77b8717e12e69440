import LispShell.Evaluation.Operands
import LispShell.Proofs.Run.Ends

/-! # Runs that fit
A run may be cut off for want of room, be it for evaluations within evaluations or for walks over
expressions. Where only the former are to be counted, the room for walks is left open: a run fits if
it is not cut off as soon as there is room enough for its walks. What comes after a run fits if it
does from wherever the run may end. -/

namespace LispShell

namespace Run

variable {α β γ : Type}

/-- Whether a run is not cut off for want of room once there is enough of it for walks. -/
def Fits (walking : Nat → Run α) (course : Course) : Prop :=
  ∃ enough, ∀ room ≥ enough,
    ((walking room).exec course).1 ≠ .error (.fault .evaluationTooDeep)

/-- Whether a run fits, and something holds of the values and the courses in which it ends. -/
structure FitsTo (walking : Nat → Run α) (course : Course) (holds : α → Course → Prop) : Prop where
  /-- The run is not cut off. -/
  fits : Fits walking course
  /-- Where it ends with a value, this holds. -/
  holds_of_exec {room : Nat} {result : α} {after : Course}
    (ended : (walking room).exec course = (.ok result, after)) : holds result after

/-- Whether a run only finishes more with more room for walks. -/
def Grows (walking : Nat → Run α) : Prop :=
  ∀ less more, less ≤ more → Below (walking less) (walking more)

variable {course : Course}

/-- Runs that do the same from a course fit alike. -/
theorem Fits.congr {walking other : Nat → Run α}
    (same : ∀ room, (walking room).exec course = (other room).exec course) :
    Fits walking course ↔ Fits other course := by
  simp only [Fits, same]

/-- A run that ends in the same way with any room fits if that is not for want of room. -/
theorem Fits.of_exec {walking : Nat → Run α} {outcome : Except Halt α} {after : Course}
    (ended : ∀ room, (walking room).exec course = (outcome, after))
    (notCut : outcome ≠ .error (.fault .evaluationTooDeep)) : Fits walking course :=
  ⟨0, fun room _ => by rwa [ended]⟩

/-- A finished run fits. -/
theorem Fits.of_pure (result : α) : Fits (fun _ => pure result) course :=
  .of_exec (fun _ => rfl) (by simp)

/-- A halt of another kind fits. -/
theorem Fits.of_throw {halt : Halt} (notCut : halt ≠ .fault .evaluationTooDeep) :
    Fits (fun _ => (throw halt : Run α)) course :=
  .of_exec (fun _ => rfl) (by simpa using notCut)

/-- A finished run ends with its result where it is. -/
theorem FitsTo.of_pure {holds : α → Course → Prop} {result : α} (isGood : holds result course) :
    FitsTo (fun _ => pure result) course holds := by
  refine ⟨.of_pure result, ?_⟩
  rintro _ _ _ ⟨⟩
  exact isGood

/-- A halt of another kind ends with no value. -/
theorem FitsTo.of_throw {holds : α → Course → Prop} {halt : Halt}
    (notCut : halt ≠ .fault .evaluationTooDeep) :
    FitsTo (fun _ => (throw halt : Run α)) course holds := by
  refine ⟨.of_throw notCut, ?_⟩
  rintro _ _ _ ⟨⟩

/-- There is room for any number of levels. -/
theorem FitsTo.of_within (levels : Nat) (result : α) :
    FitsTo (fun room => Operands.within room levels result) course
      fun given after => given = result ∧ after = course := by
  constructor
  · refine ⟨levels, fun room hasRoom => ?_⟩
    simp [Operands.within, hasRoom]
  · intro room given after ended
    dsimp only [Operands.within] at ended
    split at ended
    · cases ended
      exact ⟨rfl, rfl⟩
    · cases ended

section

variable {first : Nat → Run α} {next : Nat → α → Run β} {holds : α → Course → Prop}

/-- What follows a run fits if the run does and what follows it does from wherever it ends. -/
theorem FitsTo.bind_fits (grows : Grows first) (fits : FitsTo first course holds)
    (goesOn : ∀ result after, holds result after → Fits (fun room => next room result) after) :
    Fits (fun room => first room >>= next room) course := by
  obtain ⟨enough, notCut⟩ := fits.fits
  by_cases ends : ∃ room ≥ enough, ∃ result after, (first room).exec course = (.ok result, after)
  · obtain ⟨room, hasRoom, result, after, ended⟩ := ends
    obtain ⟨more, stillNotCut⟩ := goesOn result after (fits.holds_of_exec ended)
    refine ⟨max room more, fun larger isLarger => ?_⟩
    -- a value is the same with more room
    have same : (first larger).exec course = (.ok result, after) := by
      rw [grows room larger (by omega) course (by rw [ended]; trivial), ended]
    rw [exec_bind_ok course same]
    exact stillNotCut larger (by omega)
  · refine ⟨enough, fun larger isLarger => ?_⟩
    rcases ended : (first larger).exec course with ⟨halt | result, after⟩
    · have stillNotCut := notCut larger isLarger
      rw [ended] at stillNotCut
      rw [exec_bind_error course ended]
      simpa using stillNotCut
    · exact absurd ⟨larger, isLarger, result, after, ended⟩ ends

/-- What follows a run ends in what it ends in from wherever the run ends. -/
theorem FitsTo.bind {last : β → Course → Prop} (grows : Grows first)
    (fits : FitsTo first course holds)
    (goesOn : ∀ result after, holds result after →
      FitsTo (fun room => next room result) after last) :
    FitsTo (fun room => first room >>= next room) course last := by
  refine ⟨fits.bind_fits grows fun result after isGood => (goesOn result after isGood).fits, ?_⟩
  intro room final after ended
  obtain ⟨result, middle, isFirst, isNext⟩ := exists_of_exec_bind_ok ended
  exact (goesOn result middle (fits.holds_of_exec isFirst)).holds_of_exec isNext

/-- A run fits if it does with what follows it. -/
theorem Fits.of_bind (fits : Fits (fun room => first room >>= next room) course) :
    Fits first course := by
  obtain ⟨enough, notCut⟩ := fits
  refine ⟨enough, fun room hasRoom isCut => notCut room hasRoom ?_⟩
  have ended : (first room).exec course = (.error (.fault .evaluationTooDeep), _) :=
    Prod.ext isCut rfl
  rw [exec_bind_error course ended]

/-- A function of the result fits as the run does. -/
theorem Fits.map (f : α → β) (fits : Fits first course) :
    Fits (fun room => f <$> first room) course := by
  obtain ⟨enough, notCut⟩ := fits
  refine ⟨enough, fun room hasRoom => ?_⟩
  have stillNotCut := notCut room hasRoom
  rw [exec_map]
  cases outcome : ((first room).exec course).1 with
  | ok result => simp [Except.map]
  | error halt =>
    rw [outcome] at stillNotCut
    simpa [Except.map] using stillNotCut

end

/-- More room is left for a number of levels. -/
theorem grows_within (levels : Nat) (result : α) :
    Grows fun room => Operands.within room levels result := by
  intro less more isLess
  dsimp only [Operands.within]
  by_cases fits : levels ≤ less
  · rw [if_pos fits, if_pos (Nat.le_trans fits isLess)]
    exact fun _ _ => rfl
  · rw [if_neg fits]
    exact .of_isBound rfl _

variable [OperatingSystem]

/-- What follows a run grows if the run and what follows do. -/
theorem Grows.bind {first : Nat → Run α} {next : Nat → α → Run β} (grows : Grows first)
    (goesOn : ∀ result, Grows fun room => next room result) :
    Grows fun room => first room >>= next room :=
  fun less more fits => (grows less more fits).bind fun result => goesOn result less more fits

/-- A function of the result grows as the run does. -/
theorem Grows.map {first : Nat → Run α} (f : α → β) (grows : Grows first) :
    Grows fun room => f <$> first room := by
  simp only [map_eq_pure_bind]
  exact grows.bind fun _ _ _ _ _ _ => rfl

/-- Runs for each item in turn fit if each does wherever something holds that they keep. -/
theorem FitsTo.mapM {each : Nat → γ → Run α} {keeps : Course → Prop} {isGood : α → Prop}
    {items : List γ} (grows : ∀ item, Grows fun room => each room item)
    (fits : ∀ item ∈ items, ∀ course, keeps course →
      FitsTo (fun room => each room item) course fun result after => isGood result ∧ keeps after)
    (kept : keeps course) :
    FitsTo (fun room => items.mapM (each room)) course fun results after =>
      (∀ result ∈ results, isGood result) ∧ keeps after := by
  induction items generalizing course with
  | nil => exact .of_pure ⟨by simp, kept⟩
  | cons item rest inductionHypothesis =>
    simp only [List.mapM_cons]
    refine (fits item (by simp) course kept).bind (grows item) fun result after isResult => ?_
    have others := inductionHypothesis (fun other isOther => fits other (by simp [isOther]))
      isResult.2
    refine others.bind (fun less more isLess => ?_) fun results final areResults => ?_
    · exact Below.mapM (fun item => grows item less more isLess) rest
    · refine .of_pure ⟨?_, areResults.2⟩
      simpa using ⟨isResult.1, areResults.1⟩

end Run

end LispShell
