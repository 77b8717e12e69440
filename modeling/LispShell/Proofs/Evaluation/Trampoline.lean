import LispShell.Proofs.Evaluation.Activation
import LispShell.Proofs.Run.Ends
import LispShell.Proofs.Session.Commands
import LispShell.Script.Run

/-! # Bodies handed back and bodies evaluated on the spot
Whether the body of a function is handed back and taken up outside the call, or is evaluated inside
it, makes no difference to how an evaluation ends, to what it leaves behind and to what it does on
the way. An activation followed by something is an activation that ends in another way, so both
evaluators can be compared activation by activation. -/

namespace LispShell.Evaluation

section

variable [OperatingSystem]

/-! ## What follows an activation -/

/-- What follows an activation follows its branches and its bodies. -/
theorem activate_bind {α β : Type} {operands : Operands} {ending : Ending α} {isLine : Bool}
    {next : α → Run β} (value : Expr → β)
    (finished : ∀ result, next (ending.value result) = pure (value result)) (e : Expr) :
    activate operands ending isLine e >>= next =
      activate operands
        { value := value
          branch := fun branch => ending.branch branch >>= next
          body := fun body => ending.body body >>= next }
        isLine e := by
  match e with
  | .list items => simp only [activate, pure_bind, finished]
  | .atom text => simp only [activate, map_eq_pure_bind, bind_assoc, pure_bind, finished]
  | .call [] => rfl
  | .call (head :: es) =>
    simp only [activate, bind_assoc]
    refine bind_congr fun name => ?_
    cases Builtin.ofName? name with
    | some builtin =>
      simp only [bind_assoc]
      refine bind_congr fun applied => ?_
      cases applied with
      | value result => simp only [pure_bind, finished]
      | branch e => rfl
    | none =>
      simp only [bind_assoc]
      refine bind_congr fun session => ?_
      cases session.functions.find? name with
      | some function => simp only [bind_assoc]
      | none => simp only [map_eq_pure_bind, bind_assoc, pure_bind, finished]

omit [OperatingSystem] in
/-- In operand position there is nothing to go on with. -/
theorem map_result (settled : Expr → Run Expr) (run : Run (Step false)) :
    Step.result <$> run = run >>= Step.finish settled := by
  rw [map_eq_pure_bind]
  refine bind_congr fun taken => ?_
  cases taken
  rfl

omit [OperatingSystem] in
/-- Going on from the body of a function gets to the value that the body settles to. -/
theorem giveBody_finish (settled later : Expr → Run Expr) (isTail : Bool) (body : Expr) :
    giveBody settled isTail body >>= Step.finish later =
      if isTail then later body else settled body := by
  cases isTail with
  | true => simp [giveBody, Step.finish]
  | false => simp [giveBody, Step.finish]

/-- An evaluation that is taken to its value, as one activation. -/
theorem evaluate_finish (settled : Expr → Run Expr) (steps room : Nat) (isLine isTail : Bool)
    (e : Expr) :
    evaluate steps (room + 1) isLine isTail e >>= Step.finish settled =
      activate
        { room := room
          value := fun operand =>
            evaluate steps room false false operand >>= Step.finish settled }
        { value := id
          branch := fun branch => evaluate steps room false isTail branch >>= Step.finish settled
          body := fun body =>
            if isTail then settled body else settle (evaluate steps room false true) steps body }
        isLine e := by
  rw [evaluate, activate_bind id fun _ => rfl]
  simp only [giveBody_finish, map_result settled]

/-! ## The two evaluators -/

/-- Activations are below each other if their operands and their ends are. -/
theorem activate_below {operands refined : Operands} {ending refinedEnding : Ending Expr}
    (room_le : operands.room ≤ refined.room)
    (operand : ∀ e, Run.Below (operands.value e) (refined.value e))
    (value : refinedEnding.value = ending.value)
    (branch : ∀ e, Run.Below (ending.branch e) (refinedEnding.branch e))
    (body : ∀ e, Run.Below (ending.body e) (refinedEnding.body e)) (isLine : Bool) (e : Expr) :
    Run.Below (activate operands ending isLine e) (activate refined refinedEnding isLine e) := by
  simp only [← Discipline.unrestricted_refines_iff] at operand branch body ⊢
  refine Discipline.refines_activate (d := .unrestricted) ?operands ?endings (fun _ => trivial)
    trivial
  case operands => exact ⟨room_le, fun _ => operand _⟩
  case endings => exact ⟨value, fun _ => trivial, fun _ => branch _, fun _ => body _⟩

/-- Direct evaluation only finishes more with more room. -/
theorem direct_below {depth deeper : Nat} (fits : depth ≤ deeper) (isLine : Bool) (e : Expr) :
    Run.Below (direct depth isLine e) (direct deeper isLine e) :=
  Discipline.unrestricted_refines_iff.mp
    (Discipline.refines_direct fits (fun _ => trivial) trivial)

/-- What direct evaluation finishes, evaluation with room and steps to spare finishes in the same
way, in either position and however the bodies it hands back are settled, with room and steps to
spare again. -/
theorem direct_below_evaluate {depth steps room bodySteps bodyRoom bodies : Nat}
    (stepsFit : depth ≤ steps) (roomFits : depth ≤ room) (bodyStepsFit : depth ≤ bodySteps)
    (bodyRoomFits : depth ≤ bodyRoom) (bodiesFit : depth ≤ bodies) (isLine isTail : Bool)
    (e : Expr) :
    Run.Below (direct depth isLine e)
      (evaluate steps room isLine isTail e >>=
        Step.finish (settle (evaluate bodySteps bodyRoom false true) bodies)) := by
  induction depth generalizing steps room bodySteps bodyRoom bodies isLine isTail e with
  | zero => exact .of_isBound rfl _
  | succ depth inductionHypothesis =>
    obtain ⟨room, rfl⟩ : ∃ less, room = less + 1 := ⟨room - 1, by omega⟩
    have fits : depth ≤ room := by omega
    have inner {isTail : Bool} (e : Expr) :=
      inductionHypothesis (Nat.le_of_succ_le stepsFit) fits (Nat.le_of_succ_le bodyStepsFit)
        (Nat.le_of_succ_le bodyRoomFits) (Nat.le_of_succ_le bodiesFit) false isTail e
    rw [evaluate_finish, direct]
    apply activate_below
    case room_le => exact fits
    case operand => exact inner
    case value => rfl
    case branch => exact inner
    case body =>
      intro body
      -- either way the body is one step that is settled with one body less
      cases isTail with
      | true =>
        obtain ⟨bodies, rfl⟩ : ∃ less, bodies = less + 1 := ⟨bodies - 1, by omega⟩
        exact inductionHypothesis (by omega) (by omega) (by omega) (by omega) (by omega) _ _ _
      | false =>
        obtain ⟨steps, rfl⟩ : ∃ less, steps = less + 1 := ⟨steps - 1, by omega⟩
        exact inductionHypothesis (by omega) (by omega) (by omega) (by omega) (by omega) _ _ _

/-- What settling finishes, direct evaluation finishes in the same way at some depth, if that is so
of every step once the bodies that it hands back are settled. -/
theorem settle_below_direct (step : Expr → Run (Step true))
    (finishes : ∀ {settled : Expr → Run Expr} {depth : Nat},
      (∀ body, Run.Below (settled body) (direct depth false body)) →
        ∃ deeper, ∀ e, Run.Below (step e >>= Step.finish settled) (direct deeper false e))
    (steps : Nat) : ∃ depth, ∀ e, Run.Below (settle step steps e) (direct depth false e) := by
  induction steps with
  | zero => exact ⟨0, fun e => .of_isBound rfl _⟩
  | succ steps inductionHypothesis =>
    obtain ⟨depth, isBelow⟩ := inductionHypothesis
    exact finishes isBelow

/-- What evaluation finishes, direct evaluation finishes in the same way at some depth, if that is
so of the bodies that evaluation hands back. -/
theorem evaluate_below_direct (steps room : Nat) {settled : Expr → Run Expr} {depth : Nat}
    (settles : ∀ body, Run.Below (settled body) (direct depth false body)) :
    ∃ deeper, ∀ isLine isTail e,
      Run.Below (evaluate steps room isLine isTail e >>= Step.finish settled)
        (direct deeper isLine e) := by
  induction room generalizing settled depth with
  | zero => exact ⟨0, fun _ _ _ => .of_isBound rfl _⟩
  | succ room inductionHypothesis =>
    obtain ⟨inner, innerBelow⟩ := inductionHypothesis settles
    obtain ⟨outer, outerBelow⟩ :=
      settle_below_direct (evaluate steps room false true)
        (fun settles =>
          let ⟨deeper, isBelow⟩ := inductionHypothesis settles
          ⟨deeper, isBelow false true⟩)
        steps
    let enough := max (max room depth) (max inner outer)
    refine ⟨enough + 1, fun isLine isTail e => ?_⟩
    have deepEnough {isTail : Bool} (e : Expr) :
        Run.Below (evaluate steps room false isTail e >>= Step.finish settled)
          (direct enough false e) :=
      (innerBelow false isTail e).trans (direct_below (by omega) false e)
    have fits : room ≤ enough := by omega
    rw [evaluate_finish, direct]
    apply activate_below
    case room_le => exact fits
    case operand => exact deepEnough
    case value => rfl
    case branch => exact deepEnough
    case body =>
      intro body
      cases isTail with
      | true => exact (settles body).trans (direct_below (by omega) false body)
      | false => exact (outerBelow body).trans (direct_below (by omega) false body)

/-- Whatever is settled in whatever way, direct evaluation finishes it at some depth. -/
theorem settle_evaluate_below_direct (steps room more : Nat) :
    ∃ depth, ∀ e,
      Run.Below (settle (evaluate steps room false true) more e) (direct depth false e) :=
  settle_below_direct _
    (fun settles =>
      let ⟨deeper, isBelow⟩ := evaluate_below_direct steps room settles
      ⟨deeper, isBelow false true⟩)
    more

/-- Evaluates an expression in either position and takes it to its value. -/
def runIn (limits : Limits) (isLine isTail : Bool) (e : Expr) : Run Expr :=
  evaluate limits.steps limits.depth isLine isTail e >>=
    Step.finish (settle (evaluate limits.steps limits.depth false true) limits.steps)

/-- What evaluation finishes, direct evaluation finishes in the same way at some depth. -/
theorem runIn_below_direct (limits : Limits) :
    ∃ depth, ∀ isLine isTail e,
      Run.Below (runIn limits isLine isTail e) (direct depth isLine e) := by
  obtain ⟨depth, settles⟩ := settle_evaluate_below_direct limits.steps limits.depth limits.steps
  exact evaluate_below_direct limits.steps limits.depth settles

/-- What direct evaluation finishes, evaluation finishes in the same way with limits to match. -/
theorem direct_below_runIn (depth : Nat) (isLine isTail : Bool) (e : Expr) :
    Run.Below (direct depth isLine e) (runIn ⟨depth, depth⟩ isLine isTail e) :=
  direct_below_evaluate (Nat.le_refl _) (Nat.le_refl _) (Nat.le_refl _) (Nat.le_refl _)
    (Nat.le_refl _) isLine isTail e

/-! ## Ends -/

variable {isLine : Bool} {e : Expr} {course : Course} {ending : Except Halt Expr × Course}

/-- Evaluation in either position comes to the ends of direct evaluation. -/
theorem ends_runIn_iff_ends_direct (isTail : Bool) :
    Run.Ends (fun limits => runIn limits isLine isTail e) course ending ↔
      Run.Ends (fun depth => direct depth isLine e) course ending := by
  constructor
  · refine Run.Ends.below fun limits => ?_
    obtain ⟨depth, isBelow⟩ := runIn_below_direct limits
    exact ⟨depth, isBelow isLine isTail e⟩
  · refine Run.Ends.below fun depth => ?_
    exact ⟨⟨depth, depth⟩, direct_below_runIn depth isLine isTail e⟩

/-- Evaluation comes to the ends of direct evaluation. -/
theorem ends_run_iff_ends_direct :
    Run.Ends (fun limits => run limits isLine e) course ending ↔
      Run.Ends (fun depth => direct depth isLine e) course ending :=
  ends_runIn_iff_ends_direct true

/-- What evaluation comes to, direct evaluation comes to at every depth that is great enough. -/
theorem exists_least_direct (ends : Run.Ends (fun limits => run limits isLine e) course ending) :
    ∃ least, ∀ depth, least ≤ depth → (direct depth isLine e).exec course = ending :=
  (ends_run_iff_ends_direct.mp ends).exists_least fun fits => direct_below fits isLine e

/-- Direct evaluation comes to no more than one end. -/
theorem ends_direct_unique {other : Except Halt Expr × Course}
    (ends : Run.Ends (fun depth => direct depth isLine e) course ending)
    (endsToo : Run.Ends (fun depth => direct depth isLine e) course other) : ending = other :=
  ends.unique
    (fun first second =>
      ⟨max first second, direct_below (Nat.le_max_left _ _) isLine e,
        direct_below (Nat.le_max_right _ _) isLine e⟩)
    endsToo

/-- Evaluation comes to no more than one end. -/
theorem ends_run_unique {other : Except Halt Expr × Course}
    (ends : Run.Ends (fun limits => run limits isLine e) course ending)
    (endsToo : Run.Ends (fun limits => run limits isLine e) course other) : ending = other :=
  ends_direct_unique (ends_run_iff_ends_direct.mp ends) (ends_run_iff_ends_direct.mp endsToo)

/-- Evaluation with bodies handed back and taken up in turn comes to exactly the ends of direct
evaluation: the same value or error, the same session and world, the same effects in the same order.
In operand position it hands no body back, and comes to the same ends as in tail position once what
that hands back is taken to its value. -/
theorem evaluation_refines_direct (isLine : Bool) (e : Expr) (course : Course)
    (ending : Except Halt Expr × Course) :
    (Run.Ends (fun limits => run limits isLine e) course ending ↔
      Run.Ends (fun depth => direct depth isLine e) course ending) ∧
    (∀ (limits : Limits) (taken : Step false) (after : Course),
      (evaluate limits.steps limits.depth isLine false e).exec course = (.ok taken, after) →
        ∃ result, taken = .value result) ∧
    (Run.Ends (fun limits : Limits =>
        Step.result <$> evaluate limits.steps limits.depth isLine false e) course ending ↔
      Run.Ends (fun limits : Limits =>
        evaluate limits.steps limits.depth isLine true e >>= resume limits) course ending) := by
  refine ⟨ends_run_iff_ends_direct, ?_, ?_⟩
  · rintro limits ⟨result⟩ after -
    exact ⟨result, rfl⟩
  · have operand (limits : Limits) :
        Step.result <$> evaluate limits.steps limits.depth isLine false e =
          runIn limits isLine false e :=
      map_result _ _
    simp only [operand]
    exact (ends_runIn_iff_ends_direct false).trans (ends_runIn_iff_ends_direct true).symm

end

/-- A fresh session with a function that exports its argument and calls itself with what that gives,
until it is called with nothing. -/
def sessionWithAgain : Course :=
  let body : Expr :=
    .call [.atom "if", .call [.atom "=", .atom "x", .atom ""], .atom "done",
      .call [.atom "again", .call [.atom "export", .atom "v", .atom "x"]]]
  { Course.fresh with
    shell.session.functions := Table.empty.insert "again" ⟨"again", ["x"], body⟩ }

/-- A function that calls itself again ends with its value and its one effect, wherever its bodies
are evaluated. -/
theorem again_ends_like_direct :
    ∃ ending,
      Run.Ends (fun limits => run limits true (.call [.atom "again", .atom "a"]))
          sessionWithAgain ending ∧
        Run.Ends (fun limits : Limits => Step.result <$>
          evaluate limits.steps limits.depth true false (.call [.atom "again", .atom "a"]))
          sessionWithAgain ending ∧
        ending.1 = .ok (.atom "done") ∧ ending.2.effects = [.setVariable "v" "a"] := by
  have refines := evaluation_refines_direct true (.call [.atom "again", .atom "a"]) sessionWithAgain
  have ends : Run.Ends (fun depth => direct depth true (.call [.atom "again", .atom "a"]))
      sessionWithAgain (.ok (.atom "done"), { sessionWithAgain with
        shell.world.environment := Table.empty.insert "v" "a"
        effects := [.setVariable "v" "a"] }) :=
    ⟨9, rfl, trivial⟩
  have endsInTurn := (refines _).1.mpr ends
  exact ⟨_, endsInTurn, (refines _).2.2.mpr endsInTurn, rfl, rfl⟩

end LispShell.Evaluation
