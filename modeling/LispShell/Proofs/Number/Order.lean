import LispShell.Proofs.Number.Count

/-! # The order of doubles
Doubles are compared by sign, exponent and mantissa. Next to zero and to one that is to compare
their values: the doubles below zero are those with a value below zero, and one of either is equal
to what has its value. Only what is not a number has no place in the order. -/

namespace LispShell.Binary64

open Float.Model Float.Model.UnpackedFloat

variable {x : Float}

/-- A double is not a number just if its magnitude is beyond infinity. -/
theorem isNaN_iff : x.isNaN ↔ infinity < magnitude x := by
  have isModel : x.isNaN = (unpacked (isNegative x) (magnitude x)).isNaN :=
    congrArg UnpackedFloat.isNaN (unpack_toModel x)
  rw [isModel, unpacked]
  split
  next isBeyond => exact iff_of_true rfl isBeyond
  next notBeyond =>
    refine iff_of_false ?_ notBeyond
    split
    · exact Bool.false_ne_true
    · split <;> exact Bool.false_ne_true

/-- The magnitude of a number is finite or infinity. -/
theorem magnitude_le_infinity (isNumber : ¬x.isNaN) : magnitude x ≤ infinity :=
  Nat.le_of_not_lt (isNaN_iff.not.mp isNumber)

/-- Magnitudes other than zero have values above zero. -/
theorem value_pos {bits : Nat} (isPositive : 0 < bits) : 0 < value bits := by
  rw [← value_zero]
  exact value_strictMono isPositive

/-- What is beyond infinity is not a number. -/
theorem unpacked_of_infinity_lt (negative : Bool) {bits : Nat} (isBeyond : infinity < bits) :
    unpacked negative bits = .notANumber :=
  if_pos isBeyond

/-- Infinity is taken apart into its sign. -/
theorem unpacked_infinity (negative : Bool) :
    unpacked negative infinity = .infinity (signOf negative) := by
  rw [unpacked, if_neg (Nat.lt_irrefl infinity), if_pos rfl]

/-- To compare a number with zero is to compare its value. -/
theorem compare_unpacked_zero (negative : Bool) {bits : Nat} (fits : bits ≤ infinity)
    (sign : Sign) :
    (unpacked negative bits).compare (.zero sign) =
      some (compare (signed negative (value bits)) 0) := by
  rcases Nat.eq_zero_or_pos bits with rfl | isPositive
  · rw [unpacked_zero, value_zero]
    have isZero : signed negative 0 = 0 := by cases negative <;> simp [signed]
    rw [isZero, compare_eq_iff_eq.mpr rfl]
    rfl
  · have hasValue := value_pos isPositive
    have isOrder : compare (signed negative (value bits)) 0 =
        if negative then .lt else .gt := by
      cases negative with
      | false => exact compare_gt_iff_gt.mpr hasValue
      | true => exact compare_lt_iff_lt.mpr (neg_lt_zero.mpr hasValue)
    rw [isOrder]
    -- away from zero the sign alone decides, for infinity too
    rcases fits.lt_or_eq with isFinite | rfl
    · obtain ⟨mantissa, exponent, mantissaPositive, isUnpacked, -⟩ :=
        exists_unpacked isPositive isFinite
      rw [isUnpacked]
      cases negative <;> rfl
    · rw [unpacked_infinity]
      cases negative <;> rfl

/-- A double is compared with zero by its parts. -/
theorem compare_toModel_zero :
    x.toModel.unpack.compare (Float.toModel 0).unpack =
      (unpacked (isNegative x) (magnitude x)).compare (.zero .positive) := by
  rw [unpack_toModel]
  rfl

/-- A number is below zero just if its value is. -/
theorem lt_zero_iff (isNumber : ¬x.isNaN) : x < 0 ↔ signedValue x < 0 := by
  have isCompared : x < 0 ↔
      (x.toModel.unpack.compare (Float.toModel 0).unpack == some .lt) = true :=
    decide_eq_true_iff
  rw [isCompared, compare_toModel_zero, compare_unpacked_zero _ (magnitude_le_infinity isNumber),
    beq_iff_eq, Option.some.injEq, compare_lt_iff_lt]
  rfl

/-- Only zeros have the value zero. -/
theorem signedValue_eq_zero_iff : signedValue x = 0 ↔ magnitude x = 0 := by
  refine ⟨fun isZero => ?_, signedValue_of_zero⟩
  by_contra notZero
  have hasValue := value_pos (Nat.pos_of_ne_zero notZero)
  rw [signedValue, signed] at isZero
  split at isZero <;> linarith

/-- A double is equal to zero just if its value is. -/
theorem beq_zero_iff : (x == 0) = true ↔ signedValue x = 0 := by
  have isCompared : (x == 0) =
      (x.toModel.unpack.compare (Float.toModel 0).unpack == some .eq) := rfl
  rw [isCompared, compare_toModel_zero]
  by_cases isNaN : x.isNaN
  · have isBeyond := isNaN_iff.mp isNaN
    have notZero : magnitude x ≠ 0 := (Nat.zero_lt_of_lt isBeyond).ne'
    rw [unpacked_of_infinity_lt _ isBeyond]
    exact iff_of_false Bool.false_ne_true (signedValue_eq_zero_iff.not.mpr notZero)
  · rw [compare_unpacked_zero _ (magnitude_le_infinity isNaN), beq_iff_eq, Option.some.injEq,
      compare_eq_iff_eq]
    rfl

/-- Finite doubles other than zero that compare equal to one without a minus sign have none and the
same value. -/
theorem value_eq_of_compare_unpacked {negative : Bool} {bits others : Nat} (isPositive : 0 < bits)
    (isFinite : bits < infinity) (isPositiveToo : 0 < others) (isFiniteToo : others < infinity)
    (isEqual : (unpacked negative bits).compare (unpacked false others) = some .eq) :
    negative = false ∧ value bits = value others := by
  obtain ⟨mantissa, exponent, mantissaPositive, isUnpacked, isValue⟩ :=
    exists_unpacked isPositive isFinite
  obtain ⟨otherMantissa, otherExponent, otherPositive, isUnpackedToo, isValueToo⟩ :=
    exists_unpacked isPositiveToo isFiniteToo
  rw [isUnpacked, isUnpackedToo] at isEqual
  cases negative with
  | true => cases isEqual
  | false =>
    obtain ⟨sameExponent, sameMantissa⟩ := Ordering.then_eq_eq.mp (Option.some.inj isEqual)
    obtain rfl := compare_eq_iff_eq.mp sameExponent
    obtain rfl := compare_eq_iff_eq.mp sameMantissa
    exact ⟨rfl, isValue.symm.trans isValueToo⟩

/-- A double is equal to one just if its value is. -/
theorem beq_one_iff : (x == 1) = true ↔ signedValue x = 1 := by
  have isPositiveOne : isNegative 1 = false := by decide
  have isCompared : (x == 1) =
      ((unpacked (isNegative x) (magnitude x)).compare (unpacked false (magnitude 1)) ==
        some .eq) := by
    rw [← isPositiveOne, ← unpack_toModel, ← unpack_toModel]
    rfl
  constructor
  · intro isOne
    rw [isCompared, beq_iff_eq] at isOne
    -- zeros, infinities and what is not a number are taken apart into other shapes than one
    rcases Nat.lt_trichotomy (magnitude x) infinity with isFinite | isInfinite | isNaN
    · rcases Nat.eq_zero_or_pos (magnitude x) with isZero | isPositive
      · rw [isZero, unpacked_zero] at isOne
        cases isOne
      · obtain ⟨notNegative, sameValue⟩ :=
          value_eq_of_compare_unpacked isPositive isFinite (by decide) (by decide) isOne
        rw [signedValue_of_positive notNegative, sameValue, ← signedValue_of_positive isPositiveOne,
          signedValue_one]
    · rw [isInfinite, unpacked_infinity] at isOne
      cases negative : isNegative x <;> rw [negative] at isOne <;> cases isOne
    · rw [unpacked_of_infinity_lt _ isNaN] at isOne
      cases isOne
  · intro isOne
    have isPositive : isNegative x = false := isNegative_eq_false (isOne ▸ one_pos)
    obtain rfl : x = 1 := eq_of_signedValue isPositive isPositiveOne (isOne.trans signedValue_one.symm)
    decide

end LispShell.Binary64
