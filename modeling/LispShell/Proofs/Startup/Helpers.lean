import LispShell.Proofs.Evaluation.Steps
import LispShell.Proofs.Number.Whole
import LispShell.Proofs.Startup.Prelude
import LispShell.Script.Run

/-! # The helpers of the prelude
Wherever a session holds the helpers of the prelude and defines no names, they compute what they are
named for: `length` with room for each item, as it is not tail recursive, and `nth` in the same room
however far it counts. But `nth` counts with doubles and stops at the text `0` only, so it comes to
an end just from the numerals that count down to it. -/

namespace LispShell

open Evaluation

namespace Prelude

/-! ## Calls of the helpers -/

/-- A numeral does not begin with the mark of fresh names. -/
theorem head?_of_isRead {text : String} {x : Float} (isRead : Numeral.read text = .ok x) :
    text.toList.head? ≠ some '#' := by
  intro isMarked
  obtain ⟨rest, isText⟩ := List.head?_eq_some_iff.mp isMarked
  have isNone : Numeral.ofChars? ('#' :: rest) = none := rfl
  rw [Numeral.read, isText, isNone] at isRead
  cases isRead

/-- The arguments of a helper are put into its body. -/
theorem instantiate_helper {name : String} {params : List String} {body : Expr}
    (isHelper : (name, params, body) ∈ helpers) {room number : Nat} {arguments : List Expr}
    (fits : body.callHeight ≤ room) (sameLength : arguments.length = params.length)
    (noSyntax : ∀ items, .call items ∉ arguments)
    (unmarked : ∀ text, .atom text ∈ arguments → text.toList.head? ≠ some '#') :
    instantiate room (hygienicFunction name params body number) arguments =
      pure (body.substituteAtOnce (params.zip arguments)) := by
  have areUnmarked : ∀ helper ∈ helpers,
      (∀ text ∈ helper.2.2.spelled, text.toList.head? ≠ some '#') ∧
        ∀ text ∈ helper.2.1, text.toList.head? ≠ some '#' := by
    decide
  obtain ⟨inBody, asParam⟩ := areUnmarked _ isHelper
  exact instantiate_hygienicFunction fits sameLength noSyntax
    (.of_unmarked inBody asParam unmarked)

section

variable [OperatingSystem] {course : Course} {steps room : Nat} {isLine isTail : Bool}
  (holds : course.shell.session.HoldsPrelude)
  (isUndefined : course.shell.session.definitions = .empty)

/-- The rest of a list. -/
def restCall (items : List Expr) : Expr :=
  .call [.atom "rest", .list items]

/-- The rest of a list is the list without its first item. -/
theorem comes_restCall (items : List Expr) :
    (operandsAt steps (room + 2)).Comes course (restCall items) (.list items.tail) := by
  have isRest : Builtin.ofName? "rest" = some .rest := by decide
  exact comes_builtin isRest rfl
    (Builtin.exec_unary .rest (comes_standsForItself rfl) (Nat.zero_le _))

/-! ### Emptiness -/

/-- The call of `empty?` with a list. -/
def emptyCall (items : List Expr) : Expr :=
  .call [.atom "empty?", .list items]

/-- The body of `empty?` with a list in place. -/
def emptyBodyOf (items : List Expr) : Expr :=
  .call [.atom "=", .list items, .list []]

/-- A list is equal to the empty one just if it has no items. -/
theorem exec_evaluate_emptyBody (items : List Expr) :
    (evaluate steps (room + 2) isLine isTail (emptyBodyOf items)).exec course =
      (.ok (.value (.ofBool items.isEmpty)), course) := by
  have isEqual : Builtin.ofName? "=" = some .equal := by decide
  have areFlat : min (Expr.list items).height (Expr.list []).height ≤ room + 1 :=
    (Nat.min_le_right _ _).trans (Nat.le_add_left 1 room)
  have isSame : items.isEmpty = (Expr.list items).equals (.list []) := by
    cases items <;> rfl
  rw [isSame]
  exact exec_evaluate_builtin isEqual rfl
    (Builtin.exec_equal (comes_standsForItself rfl) (comes_standsForItself rfl) areFlat)

include holds

/-- The call of `empty?` gives its body with the list in place. -/
theorem exec_evaluate_emptyCall (items : List Expr) :
    (evaluate steps (room + 3) isLine isTail (emptyCall items)).exec course =
      (giveBody (settle (evaluate steps (room + 2) false true) steps) isTail
        (emptyBodyOf items)).exec course := by
  obtain ⟨number, isFiled⟩ := holds "empty?" ["xs"] emptyBody (by decide)
  have fits : emptyBody.callHeight ≤ room + 2 := Nat.le_add_left 2 room
  exact exec_evaluate_function (by decide) isFiled (.cons (comes_standsForItself rfl) .nil)
    (instantiate_helper (by decide) fits rfl (by simp) (by simp))

/-- In operand position `empty?` comes to whether the list has no items. -/
theorem comes_emptyCall (hasStep : 0 < steps) (items : List Expr) :
    (operandsAt steps (room + 3)).Comes course (emptyCall items) (.ofBool items.isEmpty) := by
  have settles : (settle (evaluate steps (room + 2) false true) steps (emptyBodyOf items)).exec
      course = (.ok (.ofBool items.isEmpty), course) :=
    exec_settle_of_value (exec_evaluate_emptyBody items) hasStep
  refine comes_of_exec_evaluate ((exec_evaluate_emptyCall holds items).trans ?_)
  rw [giveBody, Run.exec_map, settles]
  rfl

/-! ### Length -/

/-- The call of `length` with a list. -/
def lengthCall (e : Expr) : Expr :=
  .call [.atom "length", e]

/-- The body of `length` with a list in place. -/
def lengthBodyOf (items : List Expr) : Expr :=
  .call [.atom "if", emptyCall items, .atom "0",
    .call [.atom "+", .atom "1", lengthCall (restCall items)]]

/-- The call of `length` gives its body with the list that the operand comes to in place. -/
theorem exec_evaluate_lengthCall {e : Expr} {items : List Expr}
    (comes : (operandsAt steps (room + 5)).Comes course e (.list items)) :
    (evaluate steps (room + 6) isLine isTail (lengthCall e)).exec course =
      (giveBody (settle (evaluate steps (room + 5) false true) steps) isTail
        (lengthBodyOf items)).exec course := by
  obtain ⟨number, isFiled⟩ := holds "length" ["xs"] lengthBody (by decide)
  have fits : lengthBody.callHeight ≤ room + 5 := Nat.le_add_left 5 room
  exact exec_evaluate_function (by decide) isFiled (.cons comes .nil)
    (instantiate_helper (by decide) fits rfl (by simp) (by simp))

include isUndefined

/-- With three levels of room for each item, the body of `length` gives the numeral of the number of
items. -/
theorem exec_evaluate_lengthBody (hasStep : 0 < steps) {items : List Expr}
    (isShort : items.length < 2 ^ 53) (hasRoom : 3 * items.length + 5 ≤ room) :
    (evaluate steps room isLine isTail (lengthBodyOf items)).exec course =
      (.ok (.value (.atom (toString items.length))), course) := by
  induction items generalizing room isLine isTail with
  | nil =>
    obtain ⟨room, rfl⟩ : ∃ more, room = more + 5 := ⟨room - 5, by simp at hasRoom; omega⟩
    rw [lengthBodyOf, exec_evaluate_choose (comes_emptyCall holds hasStep []) (by omega)]
    exact exec_evaluate_standsForItself (Session.standsForItself_atom isUndefined (by decide))
  | cons item rest inductionHypothesis =>
    rw [List.length_cons] at isShort hasRoom ⊢
    obtain ⟨room, rfl⟩ : ∃ more, room = more + 8 := ⟨room - 8, by omega⟩
    -- the rest of the list is counted three levels below
    have settles : (settle (evaluate steps (room + 5) false true) steps (lengthBodyOf rest)).exec
        course = (.ok (.atom (toString rest.length)), course) :=
      exec_settle_of_value (inductionHypothesis (by omega) (by omega)) hasStep
    have isCounted : (operandsAt steps (room + 6)).Comes course
        (lengthCall (restCall (item :: rest))) (.atom (toString rest.length)) := by
      refine comes_of_exec_evaluate
        ((exec_evaluate_lengthCall holds (comes_restCall (item :: rest))).trans ?_)
      rw [List.tail_cons, giveBody, Run.exec_map, settles]
      rfl
    obtain ⟨x, isRead, isPositive, isValue⟩ :=
      exists_read_toString ((Nat.lt_succ_self rest.length).trans isShort)
    have isSum : Arithmetic.ofFloat (0 + 1 + x) = .atom (toString (rest.length + 1)) := by
      obtain ⟨stillPositive, isNext⟩ :=
        signedValue_one_add isPositive isValue (by omega)
      have isOne : (0 : Float) + 1 = 1 := by decide
      rw [isOne, Arithmetic.ofFloat, formatNumber_natCast stillPositive isNext isShort]
    have isOne : Numeral.read "1" = .ok 1 := by decide
    have isAddition : Builtin.ofName? "+" = some .add := by decide
    rw [lengthBodyOf, exec_evaluate_choose (comes_emptyCall holds hasStep _) (by omega), ← isSum]
    exact exec_evaluate_builtin isAddition rfl
      (Builtin.exec_add (Nat.succ_pos _)
        (comes_standsForItself (Session.standsForItself_of_isRead isUndefined isOne)) isOne
        isCounted isRead)

/-! ### Items -/

omit holds isUndefined

omit [OperatingSystem] in
/-- The item of a list at an index, and without it the fault of taking the first item of no
items. -/
def itemAt (items : List Expr) (index : Nat) : Except Halt Expr :=
  match items[index]? with
  | some item => .ok item
  | none => .error (.fault .firstOfEmptyList)

omit [OperatingSystem] in
/-- The first item of what is left of a list is the item at the index. -/
theorem first?_drop (items : List Expr) (index : Nat) :
    (Sequence.first? (.list (items.drop index))).mapError Halt.fault = itemAt items index := by
  rw [itemAt, ← List.head?_drop]
  cases items.drop index <;> rfl

/-- The call of `second` with a list. -/
def secondCall (items : List Expr) : Expr :=
  .call [.atom "second", .list items]

/-- The body of `second` with a list in place. -/
def secondBodyOf (items : List Expr) : Expr :=
  .call [.atom "first", restCall items]

/-- The first item of the rest is the item at index one. -/
theorem exec_evaluate_secondBody (items : List Expr) :
    (evaluate steps (room + 3) isLine isTail (secondBodyOf items)).exec course =
      ((itemAt items 1).map .value, course) := by
  have isFirst : Builtin.ofName? "first" = some .first := by decide
  rw [← first?_drop, List.drop_one]
  exact exec_evaluate_builtin isFirst rfl
    (Builtin.exec_unary .first (comes_restCall items) (Nat.zero_le _))

include holds

/-- The call of `second` gives its body with the list in place. -/
theorem exec_evaluate_secondCall (items : List Expr) :
    (evaluate steps (room + 4) isLine isTail (secondCall items)).exec course =
      (giveBody (settle (evaluate steps (room + 3) false true) steps) isTail
        (secondBodyOf items)).exec course := by
  obtain ⟨number, isFiled⟩ := holds "second" ["xs"] secondBody (by decide)
  have fits : secondBody.callHeight ≤ room + 3 := Nat.le_add_left 3 room
  exact exec_evaluate_function (by decide) isFiled (.cons (comes_standsForItself rfl) .nil)
    (instantiate_helper (by decide) fits rfl (by simp) (by simp))

omit holds

/-- The call of `nth` with a number and a list. -/
def nthCall (number list : Expr) : Expr :=
  .call [.atom "nth", number, list]

/-- The body of `nth` with a numeral and a list in place. -/
def nthBodyOf (text : String) (items : List Expr) : Expr :=
  .call [.atom "if", .call [.atom "=", .atom text, .atom "0"], .call [.atom "first", .list items],
    nthCall (.call [.atom "-", .atom text, .atom "1"]) (restCall items)]

include isUndefined

/-- The condition of `nth` is whether the numeral is the text of zero. -/
theorem comes_isZero {text : String} {x : Float} (isRead : Numeral.read text = .ok x) :
    (operandsAt steps (room + 2)).Comes course (.call [.atom "=", .atom text, .atom "0"])
      (.ofBool (text == "0")) := by
  have isEqual : Builtin.ofName? "=" = some .equal := by decide
  have isSame : (text == "0") = (Expr.atom text).equals (.atom "0") := by
    simp [Expr.equals, Expr.isAtom, Expr.same]
  rw [isSame]
  exact comes_builtin isEqual rfl (Builtin.exec_equal
    (comes_standsForItself (Session.standsForItself_of_isRead isUndefined isRead))
    (comes_standsForItself (Session.standsForItself_atom isUndefined (by decide)))
    (Nat.le_add_left 1 room))

/-- At the text of zero `nth` gives the first item. -/
theorem exec_evaluate_nthBody_zero (items : List Expr) :
    (evaluate steps (room + 3) isLine isTail (nthBodyOf "0" items)).exec course =
      ((itemAt items 0).map .value, course) := by
  have isFirst : Builtin.ofName? "first" = some .first := by decide
  have isZero : Numeral.read "0" = .ok 0 := by decide
  rw [nthBodyOf, exec_evaluate_choose (comes_isZero isUndefined isZero) (by omega), ← first?_drop,
    List.drop_zero]
  exact exec_evaluate_builtin isFirst rfl
    (Builtin.exec_unary .first (comes_standsForItself rfl) (Nat.zero_le _))

omit isUndefined
include holds

/-- The call of `nth` gives its body with the numeral and the list that the operands come to in
place. -/
theorem exec_evaluate_nthCall {number list : Expr} {text : String} {x : Float} {items : List Expr}
    (isRead : Numeral.read text = .ok x)
    (isNumber : (operandsAt steps (room + 4)).Comes course number (.atom text))
    (isList : (operandsAt steps (room + 4)).Comes course list (.list items)) :
    (evaluate steps (room + 5) isLine isTail (nthCall number list)).exec course =
      (giveBody (settle (evaluate steps (room + 4) false true) steps) isTail
        (nthBodyOf text items)).exec course := by
  obtain ⟨number, isFiled⟩ := holds "nth" ["n", "xs"] nthBody (by decide)
  have fits : nthBody.callHeight ≤ room + 4 := Nat.le_add_left 4 room
  have unmarked (other : String) (isIn : .atom other ∈ [Expr.atom text, .list items]) :
      other.toList.head? ≠ some '#' := by
    obtain rfl : other = text := by simpa using isIn
    exact head?_of_isRead isRead
  exact exec_evaluate_function (by decide) isFiled (.cons isNumber (.cons isList .nil))
    (instantiate_helper (by decide) fits rfl (by simp) unmarked)

include isUndefined

/-- At any other numeral `nth` goes on with the numeral of the difference and the rest. -/
theorem exec_evaluate_nthBody_step {text : String} {x : Float} (notZero : text ≠ "0")
    (isRead : Numeral.read text = .ok x) (items : List Expr) :
    (evaluate steps (room + 6) isLine true (nthBodyOf text items)).exec course =
      (.ok (.tail (nthBodyOf (formatNumber (x - 1)) items.tail)), course) := by
  have isOne : Numeral.read "1" = .ok 1 := by decide
  have isSubtraction : Builtin.ofName? "-" = some .subtract := by decide
  have isDifference : (operandsAt steps (room + 4)).Comes course
      (.call [.atom "-", .atom text, .atom "1"]) (.atom (formatNumber (x - 1))) :=
    comes_builtin isSubtraction rfl (Builtin.exec_subtract (Nat.succ_pos _)
      (comes_standsForItself (Session.standsForItself_of_isRead isUndefined isRead)) isRead
      (comes_standsForItself (Session.standsForItself_of_isRead isUndefined isOne)) isOne)
  rw [nthBodyOf, exec_evaluate_choose (comes_isZero isUndefined isRead) (by omega),
    beq_false_of_ne notZero]
  exact exec_evaluate_nthCall holds (read_formatNumber (x - 1)) isDifference (comes_restCall items)

/-- Where the numeral counts down to zero, `nth` gives the item at the count. -/
theorem exec_settle_nthBody {text : String} {count : Nat} (counts : CountsDown text count)
    {bodies : Nat} (enough : count < bodies) (items : List Expr) :
    (settle (evaluate steps (room + 6) false true) bodies (nthBodyOf text items)).exec course =
      (itemAt items count, course) := by
  induction counts generalizing bodies items with
  | zero =>
    exact exec_settle_of_value (exec_evaluate_nthBody_zero isUndefined items) enough
  | step notZero isRead rest inductionHypothesis =>
    -- each step takes up one body, with the room of the one before
    obtain ⟨bodies, rfl⟩ := Nat.exists_eq_add_of_lt (Nat.zero_lt_of_lt enough)
    rw [Nat.zero_add, exec_settle_of_tail
      (exec_evaluate_nthBody_step holds isUndefined notZero isRead items),
      inductionHypothesis (by omega), itemAt, itemAt, List.getElem?_tail]

/-- Where the numeral does not count down to zero in fewer steps than there are, `nth` uses all of
them up. -/
theorem exec_settle_nthBody_of_not {text : String} {x : Float} (isRead : Numeral.read text = .ok x)
    {bodies : Nat} (tooFew : ∀ count < bodies, ¬CountsDown text count) (items : List Expr) :
    (settle (evaluate steps (room + 6) false true) bodies (nthBodyOf text items)).exec course =
      (.error .outOfSteps, course) := by
  induction bodies generalizing text x items with
  | zero => rfl
  | succ bodies inductionHypothesis =>
    have notZero : text ≠ "0" := by
      rintro rfl
      exact tooFew 0 (Nat.succ_pos bodies) .zero
    rw [exec_settle_of_tail (exec_evaluate_nthBody_step holds isUndefined notZero isRead items)]
    refine inductionHypothesis (read_formatNumber (x - 1)) (fun count isLess counts => ?_) _
    exact tooFew (count + 1) (Nat.succ_lt_succ isLess) (.step notZero isRead counts)

/-- With room for its body, `nth` goes on to count its numeral down. -/
theorem exec_run_nthCall {limits : Limits} {text : String} {x : Float}
    (isRead : Numeral.read text = .ok x) (hasRoom : limits.depth = room + 6) (items : List Expr) :
    (run limits isLine (nthCall (.atom text) (.list items))).exec course =
      (settle (evaluate limits.steps (room + 6) false true) limits.steps
        (nthBodyOf text items)).exec course := by
  obtain ⟨depth, steps⟩ := limits
  obtain rfl : depth = room + 6 := hasRoom
  exact exec_run_of_tail (exec_evaluate_nthCall holds isRead
    (comes_standsForItself (Session.standsForItself_of_isRead isUndefined isRead))
    (comes_standsForItself rfl))

/-- The call of `nth` gives the item at the count of its numeral if there are steps enough for it,
and goes on to the end of all steps otherwise. -/
theorem exec_run_nthCall_of_countsDown {limits : Limits} (hasRoom : 6 ≤ limits.depth)
    {text : String} {x : Float} (isRead : Numeral.read text = .ok x) (isLine : Bool)
    (items : List Expr) :
    (∀ count < limits.steps, CountsDown text count →
      (run limits isLine (nthCall (.atom text) (.list items))).exec course =
        (itemAt items count, course)) ∧
    ((∀ count < limits.steps, ¬CountsDown text count) →
      (run limits isLine (nthCall (.atom text) (.list items))).exec course =
        (.error .outOfSteps, course)) := by
  obtain ⟨room, isDepth⟩ := Nat.exists_eq_add_of_le' hasRoom
  rw [exec_run_nthCall holds isUndefined isRead isDepth]
  exact ⟨fun count enough counts => exec_settle_nthBody holds isUndefined counts enough items,
    fun tooFew => exec_settle_nthBody_of_not holds isUndefined isRead tooFew items⟩

omit isUndefined in
/-- The call of `empty?` gives whether the list has no items. -/
theorem exec_run_emptyCall {limits : Limits} (hasStep : 0 < limits.steps)
    (hasRoom : 3 ≤ limits.depth) (items : List Expr) :
    (run limits isLine (emptyCall items)).exec course = (.ok (.ofBool items.isEmpty), course) := by
  obtain ⟨depth, steps⟩ := limits
  obtain ⟨room, rfl⟩ := Nat.exists_eq_add_of_le' hasRoom
  rw [exec_run_of_tail (exec_evaluate_emptyCall holds items)]
  exact exec_settle_of_value (exec_evaluate_emptyBody items) hasStep

omit isUndefined in
/-- The call of `second` gives the item at index one. -/
theorem exec_run_secondCall {limits : Limits} (hasStep : 0 < limits.steps)
    (hasRoom : 4 ≤ limits.depth) (items : List Expr) :
    (run limits isLine (secondCall items)).exec course = (itemAt items 1, course) := by
  obtain ⟨depth, steps⟩ := limits
  obtain ⟨room, rfl⟩ := Nat.exists_eq_add_of_le' hasRoom
  rw [exec_run_of_tail (exec_evaluate_secondCall holds items)]
  exact exec_settle_of_value (exec_evaluate_secondBody items) hasStep

/-- With three levels of room for each item, `length` gives the numeral of the number of items. -/
theorem exec_run_lengthCall {limits : Limits} (hasStep : 0 < limits.steps) {items : List Expr}
    (isShort : items.length < 2 ^ 53) (hasRoom : 3 * items.length + 5 ≤ limits.depth)
    (hasMore : 6 ≤ limits.depth) :
    (run limits isLine (lengthCall (.list items))).exec course =
      (.ok (.atom (toString items.length)), course) := by
  obtain ⟨depth, steps⟩ := limits
  obtain ⟨room, rfl⟩ := Nat.exists_eq_add_of_le' hasMore
  rw [exec_run_of_tail (exec_evaluate_lengthCall holds (comes_standsForItself rfl))]
  exact exec_settle_of_value (exec_evaluate_lengthBody holds isUndefined hasStep isShort hasRoom)
    hasStep

end

/-! ## What the helpers compute -/

section

variable [OperatingSystem]

/-- The packaged prelude is evaluated to its end in a new session. Wherever its helpers are held and
no names are defined, they compute what they are named for, for lists of any items, and do nothing
else: `empty?` whether there are no items, `second` the item at index one, `length` the numeral of
the number of items, within the limits and at least with three levels of room for each item, and
`nth` the item at the index with that numeral. -/
theorem helpers_compute :
    (∀ world effects, ∃ s : Session, s.HoldsPrelude ∧ s.definitions = .empty ∧
      (Startup.evalPrelude .standard .packaged).exec ⟨⟨.fresh, world⟩, effects⟩ =
        (.ok (), ⟨⟨s, world⟩, effects⟩)) ∧
    ∀ course : Course, course.shell.session.HoldsPrelude →
      course.shell.session.definitions = .empty →
      ∀ limits : Limits, 6 ≤ limits.depth → 0 < limits.steps → ∀ isLine items,
        (run limits isLine (emptyCall items)).exec course =
          (.ok (.ofBool items.isEmpty), course) ∧
        (run limits isLine (secondCall items)).exec course = (itemAt items 1, course) ∧
        (items.length < 2 ^ 53 →
          3 * items.length + 5 ≤ limits.depth ∨
            Conclusive ((run limits isLine (lengthCall (.list items))).exec course).1 →
          (run limits isLine (lengthCall (.list items))).exec course =
            (.ok (.atom (toString items.length)), course)) ∧
        ∀ index < 2 ^ 53, index < limits.steps →
          (run limits isLine (nthCall (.atom (toString index)) (.list items))).exec course =
            (itemAt items index, course) := by
  refine ⟨fun world effects =>
    ⟨loaded, holdsPrelude_loaded, rfl, exec_evalPrelude world effects⟩, ?_⟩
  intro course holds isUndefined limits hasRoom hasStep isLine items
  refine ⟨exec_run_emptyCall holds hasStep (by omega) items,
    exec_run_secondCall holds hasStep (by omega) items, fun isShort within => ?_,
    fun index isSmall enough => ?_⟩
  · -- deep enough, `length` gives the numeral, and it comes to no other end
    let deeper : Limits := ⟨limits.depth + (3 * items.length + 5), limits.steps⟩
    have fits : 3 * items.length + 5 ≤ deeper.depth := Nat.le_add_left _ _
    have isDeeper : limits.depth ≤ deeper.depth := Nat.le_add_right _ _
    have stillHasStep : 0 < deeper.steps := hasStep
    have isCounted : (run deeper isLine (lengthCall (.list items))).exec course =
        (.ok (.atom (toString items.length)), course) :=
      exec_run_lengthCall holds isUndefined stillHasStep isShort fits (hasRoom.trans isDeeper)
    rcases within with fits | conclusive
    · exact exec_run_lengthCall holds isUndefined hasStep isShort fits hasRoom
    · exact ends_run_unique ⟨limits, rfl, conclusive⟩ ⟨deeper, isCounted, trivial⟩
  · obtain ⟨x, isRead, -, isValue⟩ := exists_read_toString isSmall
    have counts : CountsDown (toString index) index := by
      rw [countsDown_iff isRead]
      rcases Nat.eq_zero_or_pos index with rfl | isPositive
      · exact .inl ⟨rfl, rfl⟩
      · exact .inr (.inl ⟨⟨isPositive, isSmall.le⟩, isValue⟩)
    exact (exec_run_nthCall_of_countsDown holds isUndefined hasRoom isRead isLine items).1 index
      enough counts

/-- The call of `nth` gives the item at the index zero for the text of zero, at the index of any
other numeral of a whole number up to `2 ^ 53`, and at the index `2 ^ 53 + 1` for a numeral of
`2 ^ 53 + 2`. For these it takes one step more than the index. For any other numeral it goes on
without end: of a number that is negative or not whole, of an infinite one and of what is not a
number, of any other number beyond `2 ^ 53`, and of zero in any other spelling. -/
theorem nth_counts_down {course : Course} (holds : course.shell.session.HoldsPrelude)
    (isUndefined : course.shell.session.definitions = .empty) {limits : Limits}
    (hasRoom : 6 ≤ limits.depth) {text : String} {x : Float} (isRead : Numeral.read text = .ok x)
    (isLine : Bool) (items : List Expr) :
    (∀ count, CountsDown text count ↔
      text = "0" ∧ count = 0 ∨
      (0 < count ∧ count ≤ 2 ^ 53) ∧ Binary64.signedValue x = count ∨
      count = 2 ^ 53 + 1 ∧ Binary64.signedValue x = 2 ^ 53 + 2) ∧
    (∀ count < limits.steps, CountsDown text count →
      (run limits isLine (nthCall (.atom text) (.list items))).exec course =
        (itemAt items count, course)) ∧
    ((∀ count < limits.steps, ¬CountsDown text count) →
      (run limits isLine (nthCall (.atom text) (.list items))).exec course =
        (.error .outOfSteps, course)) :=
  ⟨fun _ => countsDown_iff isRead,
    exec_run_nthCall_of_countsDown holds isUndefined hasRoom isRead isLine items⟩

end

/-- A new session that has evaluated the prelude, in an empty world. -/
def loadedNowhere : Course :=
  ⟨⟨loaded, .ofFiles .empty⟩, []⟩

/-- In a new session `(length '(a b c))` gives `3`, `(nth 2 '(a b c))` gives `c`, and
`(second '(a))` fails for want of an item. -/
theorem helpers_of_three :
    loadedNowhere.shell.session.HoldsPrelude ∧
    (run .standard true (lengthCall (.list [.atom "a", .atom "b", .atom "c"]))).exec
      loadedNowhere = (.ok (.atom "3"), loadedNowhere) ∧
    (run .standard true
      (nthCall (.atom "2") (.list [.atom "a", .atom "b", .atom "c"]))).exec loadedNowhere =
        (.ok (.atom "c"), loadedNowhere) ∧
    (run .standard true (secondCall [.atom "a"])).exec loadedNowhere =
      (.error (.fault .firstOfEmptyList), loadedNowhere) := by
  have compute := helpers_compute.2 loadedNowhere holdsPrelude_loaded rfl .standard (by decide)
    (by decide) true
  have ofThree := compute [.atom "a", .atom "b", .atom "c"]
  exact ⟨holdsPrelude_loaded, ofThree.2.2.1 (by decide) (.inl (by decide)),
    ofThree.2.2.2 2 (by decide) (by decide), (compute [.atom "a"]).2.1⟩

/-- In a new session `(nth 2 '(a b c))` takes the item at index two. -/
theorem nth_takes_third :
    (6 ≤ Limits.standard.depth ∧ loadedNowhere.shell.session.HoldsPrelude ∧
      Numeral.read "2" = .ok 2) ∧
    (run .standard true
      (nthCall (.atom "2") (.list [.atom "a", .atom "b", .atom "c"]))).exec loadedNowhere =
        (.ok (.atom "c"), loadedNowhere) := by
  have isRead : Numeral.read "2" = .ok 2 := by decide
  have isOne : Numeral.read "1" = .ok 1 := by decide
  have hasRoom : 6 ≤ Limits.standard.depth := by decide
  have counts : CountsDown "2" 2 := .step (by decide) isRead (.step (by decide) isOne .zero)
  exact ⟨⟨hasRoom, holdsPrelude_loaded, isRead⟩,
    (nth_counts_down holdsPrelude_loaded rfl hasRoom isRead true _).2.1 2 (by decide) counts⟩

/-- The calls of `nth` do not all come to an end: `(nth -1 '(a b))` goes on however many steps there
are, with room to spare. -/
theorem nth_of_negative_goes_on :
    ¬ ∀ (course : Course) (text : String) (x : Float) (items : List Expr),
      course.shell.session.HoldsPrelude → course.shell.session.definitions = .empty →
      Numeral.read text = .ok x →
      ∃ steps,
        ((run ⟨Limits.standard.depth, steps⟩ true (nthCall (.atom text) (.list items))).exec
          course).1 ≠ .error .outOfSteps := by
  intro alwaysEnds
  have isRead : Numeral.read "-1" = .ok (-1) := by decide
  have tooLow (count : Nat) : ¬CountsDown "-1" count := by
    have isBelow : Binary64.signedValue (-1) ≤ 0 := Binary64.signedValue_of_negative (by decide)
    rw [countsDown_iff isRead]
    rintro (⟨isZero, -⟩ | ⟨⟨isPositive, -⟩, isValue⟩ | ⟨-, isValue⟩)
    · exact absurd isZero (by decide)
    · have isAbove : (0 : ℚ) < count := Nat.cast_pos.mpr isPositive
      linarith
    · linarith
  obtain ⟨steps, ended⟩ := alwaysEnds loadedNowhere "-1" (-1) [.atom "a", .atom "b"]
    holdsPrelude_loaded rfl isRead
  let limits : Limits := ⟨Limits.standard.depth, steps⟩
  have hasRoom : 6 ≤ limits.depth := show 6 ≤ Limits.standard.depth by decide
  have holds : loadedNowhere.shell.session.HoldsPrelude := holdsPrelude_loaded
  have goesOn := (exec_run_nthCall_of_countsDown holds rfl hasRoom isRead true
    [.atom "a", .atom "b"]).2 fun count _ => tooLow count
  exact ended (by rw [goesOn])

end Prelude

end LispShell
