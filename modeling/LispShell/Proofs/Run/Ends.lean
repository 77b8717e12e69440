import LispShell.Proofs.Run.Discipline

/-! # Ends of bounded runs
A bound on how far a run may go is not part of what it does. What a family of bounded runs does is
how its members end that are not stopped by their bound. -/

namespace LispShell

/-- An outcome is an end of its own unless it is the fault of a bound. -/
theorem conclusive_mapError_fault {α : Type} {outcome : Except Fault α}
    (ownEnd : outcome ≠ .error .evaluationTooDeep) : Conclusive (outcome.mapError Halt.fault) := by
  cases outcome with
  | ok result => trivial
  | error cause =>
    change Halt.isBound (.fault cause) = false
    rw [Halt.isBound.eq_def]
    split
    case h_1 isTooDeep =>
      cases isTooDeep
      exact absurd rfl ownEnd
    case h_2 isOutOfSteps => cases isOutOfSteps
    case h_3 => rfl

namespace Run

variable {α β ι κ : Type}

/-- Whether a run ends like another wherever that comes to an end of its own. -/
def Below (run refined : Run α) : Prop :=
  ∀ course, Conclusive (run.exec course).1 → refined.exec course = run.exec course

/-- Whether a family of bounded runs comes to the given end, with a bound that does not stop it. -/
def Ends (bounded : ι → Run α) (course : Course) (ending : Except Halt α × Course) : Prop :=
  ∃ bound, (bounded bound).exec course = ending ∧ Conclusive ending.1

/-- A run below another is below whatever that is below. -/
theorem Below.trans {run middle refined : Run α} (first : Below run middle)
    (second : Below middle refined) : Below run refined := by
  intro course conclusive
  have same := first course conclusive
  rw [← same] at conclusive
  rw [second course conclusive, same]

/-- A run stopped by a bound is below every run. -/
theorem Below.of_isBound {halt : Halt} (stopped : halt.isBound = true) (refined : Run α) :
    Below (throw halt) refined :=
  fun _ conclusive => absurd stopped (Bool.eq_false_iff.mp conclusive)

/-- Every end of a family below another is an end of the other. -/
theorem Ends.below {bounded : ι → Run α} {refined : κ → Run α}
    (below : ∀ bound, ∃ other, Below (bounded bound) (refined other)) {course : Course}
    {ending : Except Halt α × Course} (ends : Ends bounded course ending) :
    Ends refined course ending := by
  obtain ⟨bound, rfl, conclusive⟩ := ends
  obtain ⟨other, isBelow⟩ := below bound
  exact ⟨other, isBelow course conclusive, conclusive⟩

/-- A family that grows with its bound comes to no more than one end. -/
theorem Ends.unique {bounded : ι → Run α}
    (directed : ∀ first second, ∃ bound,
      Below (bounded first) (bounded bound) ∧ Below (bounded second) (bounded bound))
    {course : Course} {ending other : Except Halt α × Course}
    (ends : Ends bounded course ending) (endsToo : Ends bounded course other) :
    ending = other := by
  obtain ⟨first, rfl, conclusive⟩ := ends
  obtain ⟨second, rfl, conclusiveToo⟩ := endsToo
  obtain ⟨bound, isBelow, isBelowToo⟩ := directed first second
  rw [← isBelow course conclusive, ← isBelowToo course conclusiveToo]

/-- Runs that do the same from a course with every bound come to the same ends. -/
theorem Ends.congr {bounded other : ι → Run α} {course : Course}
    (same : ∀ bound, (bounded bound).exec course = (other bound).exec course)
    {ending : Except Halt α × Course} :
    Ends bounded course ending ↔ Ends other course ending := by
  simp only [Ends, same]

section

variable {first : Nat → Run α}
  (grows : ∀ {less more}, less ≤ more → Below (first less) (first more))
  {course : Course}
include grows

/-- A family that grows with its bound comes to no other ends if it starts from a higher bound. -/
theorem Ends.from_iff (least : Nat) {ending : Except Halt α × Course} :
    Ends (fun bound => first (bound + least)) course ending ↔ Ends first course ending := by
  constructor
  · rintro ⟨bound, rfl, conclusive⟩
    exact ⟨bound + least, rfl, conclusive⟩
  · rintro ⟨bound, rfl, conclusive⟩
    exact ⟨bound, grows (Nat.le_add_right bound least) course conclusive, conclusive⟩

/-- A family that grows with its bound comes to its end with every bound that is high enough. -/
theorem Ends.exists_least {ending : Except Halt α × Course} (ends : Ends first course ending) :
    ∃ least, ∀ bound, least ≤ bound → (first bound).exec course = ending := by
  obtain ⟨least, rfl, conclusive⟩ := ends
  exact ⟨least, fun bound fits => grows fits course conclusive⟩

/-- Where a family that grows with its bound comes to a value, what follows it comes to the ends of
going on from there. -/
theorem Ends.bind_iff {next : Nat → α → Run β} {value : α} {after : Course}
    (nextGrows : ∀ {less more}, less ≤ more → Below (next less value) (next more value))
    (ends : Ends first course (.ok value, after)) {ending : Except Halt β × Course} :
    Ends (fun bound => first bound >>= next bound) course ending ↔
      Ends (fun bound => next bound value) after ending := by
  have sameEnd {other : Except Halt α × Course} (endsToo : Ends first course other) :
      (.ok value, after) = other :=
    ends.unique (fun one another =>
      ⟨max one another, grows (Nat.le_max_left _ _), grows (Nat.le_max_right _ _)⟩) endsToo
  constructor
  · rintro ⟨bound, rfl, conclusive⟩
    match ended : (first bound).exec course with
    | (.error halt, stopped) =>
      rw [exec_bind_error course ended] at conclusive
      cases sameEnd ⟨bound, ended, conclusive⟩
    | (.ok result, middle) =>
      cases sameEnd ⟨bound, ended, trivial⟩
      rw [exec_bind_ok course ended] at conclusive ⊢
      exact ⟨bound, rfl, conclusive⟩
  · rintro ⟨bound, rfl, conclusive⟩
    obtain ⟨enough, ended⟩ := ends.exists_least grows
    refine ⟨max enough bound, ?_, conclusive⟩
    rw [exec_bind_ok course (ended _ (Nat.le_max_left _ _))]
    exact nextGrows (Nat.le_max_right _ _) after conclusive

end

end Run

namespace Discipline

variable [OperatingSystem] {α : Type}

/-- Where nothing is asked for, to refine is to be above. -/
theorem unrestricted_refines_iff {run refined : Run α} :
    unrestricted.Refines (fun _ => True) run refined ↔ Run.Below run refined := by
  constructor
  · exact fun refines course => (refines course ⟨trivial, trivial⟩).2.2
  · exact fun below course _ => ⟨⟨trivial, trivial⟩, fun _ _ => trivial, below course⟩

end Discipline

/-- What follows a run is below what follows another if the runs and the continuations are. -/
theorem Run.Below.bind [OperatingSystem] {α β : Type} {run refined : Run α}
    {next refinedNext : α → Run β} (first : Below run refined)
    (second : ∀ result, Below (next result) (refinedNext result)) :
    Below (run >>= next) (refined >>= refinedNext) := by
  simp only [← Discipline.unrestricted_refines_iff] at first second ⊢
  exact first.bind fun result _ => second result

/-- One run after another for each item is below the like if each of them is. -/
theorem Run.Below.mapM [OperatingSystem] {α γ : Type} {each refinedEach : γ → Run α}
    (below : ∀ item, Below (each item) (refinedEach item)) (items : List γ) :
    Below (items.mapM each) (items.mapM refinedEach) := by
  simp only [← Discipline.unrestricted_refines_iff] at below ⊢
  exact (Discipline.refines_mapM fun item _ => below item).weaken fun _ _ => trivial

end LispShell
