import LispShell.Number.Operation
import LispShell.Proofs.Number.Decimal
import LispShell.Proofs.Number.Order
import Mathlib.Analysis.SpecialFunctions.Pow.Real

/-! # Powers
Powers of finite doubles go by the power of the platform, of which only the exceptional cases are
known here. A power of doubles is not a number where an operand is none or the true value is not
real, and it is infinite with the true sign where the true value overflows. Quotients by zero are
infinite too, but not the powers at the poles of zero: those are not numbers. -/

namespace LispShell

open Binary64

namespace Number

variable {x : Float}

/-! ## Whole numbers -/

/-- Where no fraction is left over, the value of a magnitude is the quotient. -/
theorem value_eq_div {bits : Nat} (noRest : (toFraction bits).1 % (toFraction bits).2 = 0) :
    value bits = ((toFraction bits).1 / (toFraction bits).2 : ℕ) := by
  rw [Nat.cast_div_charZero (Nat.dvd_of_mod_eq_zero noRest), toFraction_value]

/-- Where the value of a magnitude is a whole number, no fraction is left over. -/
theorem mod_eq_zero_of_value_eq {bits n : Nat} (isValue : value bits = n) :
    (toFraction bits).1 % (toFraction bits).2 = 0 := by
  have isPositive : (0 : ℚ) < (toFraction bits).2 := by exact_mod_cast toFraction_pos bits
  rw [← toFraction_value, div_eq_iff isPositive.ne'] at isValue
  have isMultiple : (toFraction bits).1 = n * (toFraction bits).2 := by exact_mod_cast isValue
  rw [isMultiple, Nat.mul_mod_left]

/-- A double is a whole number if it is finite and its magnitude leaves no fraction over. -/
theorem isWhole_eq_true_iff : isWhole x = true ↔ isFinite x = true ∧
    (toFraction (magnitude x)).1 % (toFraction (magnitude x)).2 = 0 :=
  Bool.and_eq_true_iff.trans (and_congr_right fun _ => beq_iff_eq)

/-- The whole part of a double is the quotient with its sign. -/
theorem cast_truncate (x : Float) : ((truncate x : ℤ) : ℚ) =
    signed (isNegative x)
      ((toFraction (magnitude x)).1 / (toFraction (magnitude x)).2 : ℕ) := by
  have isQuotient : truncate x =
      if isNegative x then -(((toFraction (magnitude x)).1 / (toFraction (magnitude x)).2 : ℕ) : ℤ)
      else ((toFraction (magnitude x)).1 / (toFraction (magnitude x)).2 : ℕ) := rfl
  rw [isQuotient, signed]
  split
  · rw [Int.cast_neg, Int.cast_natCast]
  · exact Int.cast_natCast _

/-- A whole number has the value of its whole part. -/
theorem signedValue_of_isWhole (isWhole : isWhole x = true) : signedValue x = truncate x := by
  rw [cast_truncate, signedValue, value_eq_div (isWhole_eq_true_iff.mp isWhole).2]

/-- A finite double is a whole number just if its value is. -/
theorem isWhole_iff (isFinite : isFinite x = true) :
    isWhole x = true ↔ ∃ n : ℤ, signedValue x = n := by
  refine ⟨fun isWhole => ⟨_, signedValue_of_isWhole isWhole⟩, fun ⟨n, isValue⟩ => ?_⟩
  have isMagnitude : value (magnitude x) = n.natAbs := by
    have isAbsolute : |signedValue x| = value (magnitude x) := by
      rw [signedValue, signed]
      split
      · rw [abs_neg, abs_of_nonneg (value_nonneg _)]
      · exact abs_of_nonneg (value_nonneg _)
    rw [← isAbsolute, isValue, Nat.cast_natAbs, Int.cast_abs]
  exact isWhole_eq_true_iff.mpr ⟨isFinite, mod_eq_zero_of_value_eq isMagnitude⟩

/-- A finite double is an odd whole number just if its value is. -/
theorem isOdd_iff (isFinite : isFinite x = true) :
    isOdd x = true ↔ ∃ n : ℤ, Odd n ∧ signedValue x = n := by
  rw [isOdd, Bool.and_eq_true_iff, beq_iff_eq, ← Int.odd_iff]
  constructor
  · rintro ⟨isWhole, isOdd⟩
    exact ⟨truncate x, isOdd, signedValue_of_isWhole isWhole⟩
  · rintro ⟨n, isOdd, isValue⟩
    have isWhole := (isWhole_iff isFinite).mpr ⟨n, isValue⟩
    obtain rfl : n = truncate x := by
      exact_mod_cast isValue.symm.trans (signedValue_of_isWhole isWhole)
    exact ⟨isWhole, isOdd⟩

/-! ## True powers -/

/-- Whether the power of finite doubles is in the domain: only whole powers of negative numbers
are. -/
def InDomain (base exponent : Float) : Prop :=
  0 ≤ signedValue base ∨ ∃ n : ℤ, signedValue exponent = n

/-- The true value of the power of finite doubles in the domain. -/
noncomputable def truePower (base exponent : Float) : ℝ :=
  (signedValue base : ℝ) ^ (signedValue exponent : ℝ)

/-- Whether a real number is so far from zero that it is rounded to infinity, like a rational number
that is not farther from zero. -/
def Overflows (r : ℝ) : Prop :=
  ∃ q : ℚ, (q : ℝ) ≤ |r| ∧ IsNearest q infinity

/-- Infinity has the value that would follow the greatest double. -/
theorem value_infinity : value infinity = 2 ^ 1024 := by
  have isInfinity : infinity = 2046 * leadingBit + leadingBit := by decide
  have isLeading : (leadingBit : ℚ) = 2 ^ (52 : ℤ) := by norm_num [leadingBit]
  rw [isInfinity, value_ofMantissa (Nat.le_mul_of_pos_left _ (by decide)) (.inr le_rfl),
    isLeading, ← zpow_add₀ (by norm_num), ← zpow_natCast]
  norm_num

/-- What is at least as far from zero as infinity's own value overflows. -/
theorem overflows_of_le {r : ℝ} (isBeyond : 2 ^ 1024 ≤ |r|) : Overflows r := by
  refine ⟨value infinity, ?_, isNearest_value le_rfl⟩
  rw [value_infinity]
  exact_mod_cast isBeyond

/-- What is not farther from zero than a finite magnitude does not overflow. -/
theorem not_overflows_of_le {r : ℝ} {bits : Nat} (isFinite : bits < infinity)
    (isBelow : |r| ≤ value bits) : ¬Overflows r := by
  rintro ⟨q, isLess, isNearest⟩
  have le : q ≤ value bits := by exact_mod_cast isLess.trans isBelow
  exact isFinite.not_ge (isNearest.mono (isNearest_value isFinite.le) le)

/-- Powers of zero do not overflow: the true value at a pole counts as zero. -/
theorem not_overflows_of_zero {base : Float} (isZero : signedValue base = 0) (exponent : Float) :
    ¬Overflows (truePower base exponent) := by
  have isOne : value (magnitude 1) = 1 := by
    rw [← signedValue_of_positive (by decide), signedValue_one]
  refine not_overflows_of_le (by decide : magnitude 1 < infinity) ?_
  rw [truePower, isZero, Rat.cast_zero, abs_of_nonneg (Real.zero_rpow_nonneg _), isOne,
    Rat.cast_one]
  exact Real.zero_rpow_le_one _

/-- The odd powers of negative numbers are negative, and no others. -/
theorem truePower_neg_iff {base exponent : Float} (isFinite : isFinite exponent = true)
    (inDomain : InDomain base exponent) :
    truePower base exponent < 0 ↔ signedValue base < 0 ∧ isOdd exponent = true := by
  rcases le_or_gt 0 (signedValue base) with isAbove | isBelow
  · have isAboveToo : (0 : ℝ) ≤ signedValue base := by exact_mod_cast isAbove
    exact iff_of_false (Real.rpow_nonneg isAboveToo _).not_gt fun h => isAbove.not_gt h.1
  · obtain ⟨n, isValue⟩ := inDomain.resolve_left isBelow.not_ge
    have isBelowToo : (signedValue base : ℝ) < 0 := by exact_mod_cast isBelow
    have isPower : truePower base exponent = (signedValue base : ℝ) ^ n := by
      rw [truePower, isValue, Rat.cast_intCast, Real.rpow_intCast]
    rw [isPower, and_iff_right isBelow, isOdd_iff isFinite]
    -- in the domain a negative number has whole exponents only, so parity decides
    rcases Int.even_or_odd n with isEven | isOdd
    · refine iff_of_false (isEven.zpow_pos isBelowToo.ne).not_gt ?_
      rintro ⟨m, isOdd, isValueToo⟩
      obtain rfl : n = m := by exact_mod_cast isValue.symm.trans isValueToo
      exact (Int.not_even_iff_odd.mpr isOdd) isEven
    · exact iff_of_true (isOdd.zpow_neg isBelowToo) ⟨n, isOdd, isValue⟩

/-! ## Powers of the platform -/

/-- Whether a platform keeps to the exceptional cases of powers of finite doubles. -/
structure IsPlatformPower (platform : Float → Float → Float) : Prop where
  /-- Outside the domain, and only there, a power is not a number. -/
  isNaN_iff {base exponent : Float} : isFinite base = true → isFinite exponent = true →
    ((platform base exponent).isNaN ↔ ¬InDomain base exponent)
  /-- Zero has its poles at the negative exponents. -/
  infinite_iff_of_zero {base exponent : Float} : isFinite exponent = true →
    signedValue base = 0 →
      (magnitude (platform base exponent) = infinity ↔ signedValue exponent < 0)
  /-- A power that overflows is infinite. -/
  infinite_of_overflows {base exponent : Float} : isFinite base = true →
    isFinite exponent = true → InDomain base exponent → Overflows (truePower base exponent) →
      magnitude (platform base exponent) = infinity

/-- Infinities are numbers. -/
theorem not_isNaN_signedInfinity (negative : Bool) : ¬(signedInfinity negative).isNaN := by
  rw [Binary64.isNaN_iff, signedInfinity, (parts_ofParts negative (le_refl infinity)).1]
  exact Nat.lt_irrefl infinity

section Special

variable {base exponent : Float}

/-- Powers of infinity are numbers. -/
theorem not_isNaN_powerOfInfinity (isNumber : ¬base.isNaN) :
    ¬(powerOfInfinity base exponent).isNaN := by
  unfold powerOfInfinity
  split
  · split
    · exact isNumber
    · exact not_isNaN_signedInfinity false
  · split
    · decide
    · rw [Binary64.isNaN_iff, (parts_ofParts _ (Nat.zero_le infinity)).1]
      exact Nat.not_lt_zero _

/-- Powers to infinity are numbers. -/
theorem not_isNaN_powerToInfinity : ¬(powerToInfinity base exponent).isNaN := by
  unfold powerToInfinity
  split
  · decide
  · split
    · exact not_isNaN_signedInfinity false
    · decide

end Special

/-- What is not a number is not finite. -/
theorem not_isNaN_of_isFinite (isFinite : isFinite x = true) : ¬x.isNaN := by
  rw [Binary64.isNaN_iff]
  exact (of_decide_eq_true isFinite).le.not_gt

/-- Zeros are finite. -/
theorem isFinite_of_zero (isZero : signedValue x = 0) : isFinite x = true := by
  rw [isFinite, signedValue_eq_zero_iff.mp isZero]
  decide

/-- A number that is not finite is infinite. -/
theorem magnitude_eq_infinity (isNumber : ¬x.isNaN) (notFinite : ¬isFinite x = true) :
    magnitude x = infinity :=
  (magnitude_le_infinity isNumber).antisymm
    (Nat.le_of_not_lt fun isBelow => notFinite (decide_eq_true isBelow))

section Power

variable {platform : Float → Float → Float} {base exponent : Float}

/-! ### Powers of what is not finite -/

/-- The power of what is not a number. -/
theorem powerBy_of_isNaN (isNaN : base.isNaN) :
    powerBy platform base exponent = if exponent == 0 then 1 else base := by
  rw [powerBy, checkedPower, if_pos isNaN]

/-- The power of a number to what is not a number. -/
theorem powerBy_of_isNaN_exponent (isNumber : ¬base.isNaN) (isNaN : exponent.isNaN) :
    powerBy platform base exponent = if base == 1 then 1 else exponent := by
  rw [powerBy, checkedPower, if_neg isNumber, if_pos isNaN]

/-- What is not a number has no power but to zero. -/
theorem isNaN_powerBy_iff_of_isNaN (isNaN : base.isNaN) :
    (powerBy platform base exponent).isNaN ↔ signedValue exponent ≠ 0 := by
  rw [powerBy_of_isNaN isNaN]
  split
  next isZero => exact iff_of_false (by decide) (not_not_intro (beq_zero_iff.mp isZero))
  next notZero => exact iff_of_true isNaN (beq_zero_iff.not.mp notZero)

/-- What is not a number is no exponent but for one. -/
theorem isNaN_powerBy_iff_of_isNaN_exponent (isNumber : ¬base.isNaN) (isNaN : exponent.isNaN) :
    (powerBy platform base exponent).isNaN ↔ signedValue base ≠ 1 := by
  rw [powerBy_of_isNaN_exponent isNumber isNaN]
  split
  next isOne => exact iff_of_false (by decide) (not_not_intro (beq_one_iff.mp isOne))
  next notOne => exact iff_of_true isNaN (beq_one_iff.not.mp notOne)

/-- Powers of numbers that are not both finite are numbers. -/
theorem powerBy_of_not_isFinite (isNumber : ¬base.isNaN) (isNumberToo : ¬exponent.isNaN)
    (notFinite : ¬(isFinite base = true ∧ isFinite exponent = true)) :
    ¬(powerBy platform base exponent).isNaN := by
  rw [powerBy, checkedPower, if_neg isNumber, if_neg isNumberToo]
  cases baseFinite : isFinite base with
  | false => exact not_isNaN_powerOfInfinity isNumber
  | true =>
    cases exponentFinite : isFinite exponent with
    | false => exact not_isNaN_powerToInfinity
    | true => exact absurd ⟨baseFinite, exponentFinite⟩ notFinite

/-! ### Powers of finite doubles -/

section Finite

variable (baseFinite : isFinite base = true) (exponentFinite : isFinite exponent = true)
include baseFinite exponentFinite

/-- The power of finite doubles goes by the platform. -/
theorem powerBy_of_isFinite :
    powerBy platform base exponent =
      if (platform base exponent).isNaN then nan
      else if isFinite (platform base exponent) then platform base exponent
      else if base == 0 then nan
      else signedInfinity (base < 0 && isOdd exponent) := by
  rw [powerBy, checkedPower, if_neg (not_isNaN_of_isFinite baseFinite),
    if_neg (not_isNaN_of_isFinite exponentFinite), baseFinite, exponentFinite, finitePower]
  cases (platform base exponent).isNaN with
  | true => rfl
  | false =>
    cases isFinite (platform base exponent) with
    | true => rfl
    | false => cases base == 0 <;> rfl

variable (isPower : IsPlatformPower platform)
include isPower

/-- The power of finite doubles is not a number outside the domain and at the poles. -/
theorem isNaN_powerBy_iff_of_isFinite :
    (powerBy platform base exponent).isNaN ↔
      ¬InDomain base exponent ∨ signedValue base = 0 ∧ signedValue exponent < 0 := by
  have isNaNIff := isPower.isNaN_iff baseFinite exponentFinite
  have isPoleIff (isZero : signedValue base = 0) :=
    isPower.infinite_iff_of_zero exponentFinite isZero
  rw [powerBy_of_isFinite baseFinite exponentFinite]
  split
  next isNaN => exact iff_of_true (by decide) (.inl (isNaNIff.mp isNaN))
  next isNumber =>
    have inDomain := isNaNIff.not_left.mp isNumber
    rw [or_iff_right (not_not_intro inDomain)]
    split
    next valueFinite =>
      refine iff_of_false isNumber fun ⟨isZero, isNegative⟩ => ?_
      exact (of_decide_eq_true valueFinite).ne ((isPoleIff isZero).mpr isNegative)
    next notFinite =>
      have isInfinite := magnitude_eq_infinity isNumber notFinite
      split
      next isZero =>
        have hasZero := beq_zero_iff.mp isZero
        exact iff_of_true (by decide) ⟨hasZero, (isPoleIff hasZero).mp isInfinite⟩
      next notZero =>
        exact iff_of_false (not_isNaN_signedInfinity _) fun ⟨isZero, _⟩ =>
          notZero (beq_zero_iff.mpr isZero)

/-- A power that overflows is infinite with the sign of its true value. -/
theorem powerBy_of_overflows (inDomain : InDomain base exponent)
    (overflows : Overflows (truePower base exponent)) :
    powerBy platform base exponent = signedInfinity (decide (truePower base exponent < 0)) := by
  have isInfinite := isPower.infinite_of_overflows baseFinite exponentFinite inDomain overflows
  have isNumber : ¬(platform base exponent).isNaN := by
    rw [isPower.isNaN_iff baseFinite exponentFinite]
    exact not_not_intro inDomain
  have notFinite : ¬isFinite (platform base exponent) = true := by
    rw [isFinite, isInfinite]
    decide
  -- an infinite power of zero comes from a pole and would be no number
  have notZero : ¬(base == 0) = true := by
    rw [beq_zero_iff]
    exact fun isZero => not_overflows_of_zero isZero exponent overflows
  have sameSign : (decide (base < 0) && isOdd exponent) =
      decide (truePower base exponent < 0) := by
    rw [Bool.eq_iff_iff, Bool.and_eq_true_iff, decide_eq_true_iff, decide_eq_true_iff,
      lt_zero_iff (not_isNaN_of_isFinite baseFinite), truePower_neg_iff exponentFinite inDomain]
  rw [powerBy_of_isFinite baseFinite exponentFinite, if_neg isNumber, if_neg notFinite,
    if_neg notZero, sameSign]

end Finite

/-- To minus infinity, powers of zero are infinite. -/
theorem powerBy_zero_of_minus_infinity (isZero : signedValue base = 0) :
    powerBy platform base (signedInfinity true) = signedInfinity false := by
  have isBase : base = ofParts (isNegative base) 0 := by
    rw [← signedValue_eq_zero_iff.mp isZero, ofParts_parts]
  rw [isBase]
  cases isNegative base <;> rfl

/-- The powers that are not numbers. -/
theorem isNaN_powerBy_iff (isPower : IsPlatformPower platform) :
    (powerBy platform base exponent).isNaN ↔
      base.isNaN ∧ signedValue exponent ≠ 0 ∨
      exponent.isNaN ∧ signedValue base ≠ 1 ∨
      (isFinite base = true ∧ isFinite exponent = true) ∧
        (¬InDomain base exponent ∨ signedValue base = 0 ∧ signedValue exponent < 0) := by
  -- in the order in which the operands are looked at
  by_cases baseNaN : base.isNaN
  · rw [isNaN_powerBy_iff_of_isNaN baseNaN]
    refine ⟨fun notZero => .inl ⟨baseNaN, notZero⟩, ?_⟩
    rintro (⟨-, notZero⟩ | ⟨exponentNaN, -⟩ | ⟨⟨baseFinite, -⟩, -⟩)
    · exact notZero
    · exact fun isZero => not_isNaN_of_isFinite (isFinite_of_zero isZero) exponentNaN
    · exact absurd baseNaN (not_isNaN_of_isFinite baseFinite)
  by_cases exponentNaN : exponent.isNaN
  · rw [isNaN_powerBy_iff_of_isNaN_exponent baseNaN exponentNaN]
    refine ⟨fun notOne => .inr (.inl ⟨exponentNaN, notOne⟩), ?_⟩
    rintro (⟨isNaN, -⟩ | ⟨-, notOne⟩ | ⟨⟨-, exponentFinite⟩, -⟩)
    · exact absurd isNaN baseNaN
    · exact notOne
    · exact absurd exponentNaN (not_isNaN_of_isFinite exponentFinite)
  rw [or_iff_right fun h => baseNaN h.1, or_iff_right fun h => exponentNaN h.1]
  by_cases areFinite : isFinite base = true ∧ isFinite exponent = true
  · rw [isNaN_powerBy_iff_of_isFinite areFinite.1 areFinite.2 isPower, and_iff_right areFinite]
  · exact iff_of_false (powerBy_of_not_isFinite baseNaN exponentNaN areFinite)
      fun h => areFinite h.1

end Power

/-! ## A platform with rounded powers -/

open Classical in
/-- The true power of finite doubles, rounded towards zero unless it overflows. -/
noncomputable def roundedPower (base exponent : Float) : Float :=
  if InDomain base exponent then
    ofParts (isNegative base && isOdd exponent)
      (if signedValue base = 0 ∧ signedValue exponent < 0 ∨ Overflows (truePower base exponent)
      then infinity
      else Nat.findGreatest (fun bits => (value bits : ℝ) ≤ |truePower base exponent|)
        (infinity - 1))
  else nan

/-- The magnitude of a rounded power. -/
theorem magnitude_roundedPower {base exponent : Float} (inDomain : InDomain base exponent) :
    (magnitude (roundedPower base exponent) = infinity ↔
      signedValue base = 0 ∧ signedValue exponent < 0 ∨ Overflows (truePower base exponent)) ∧
    magnitude (roundedPower base exponent) ≤ infinity := by
  rw [roundedPower, if_pos inDomain]
  split
  next isInfinite =>
    rw [(parts_ofParts _ le_rfl).1]
    exact ⟨iff_of_true rfl isInfinite, le_rfl⟩
  next isFinite =>
    -- the search only goes up to the greatest double
    have isBelow := Nat.findGreatest_le
      (P := fun bits => (value bits : ℝ) ≤ |truePower base exponent|) (infinity - 1)
    have isLess : infinity - 1 < infinity := by decide
    rw [(parts_ofParts _ (isBelow.trans isLess.le)).1]
    exact ⟨iff_of_false (isBelow.trans_lt isLess).ne isFinite, isBelow.trans isLess.le⟩

/-- Rounded powers keep to the exceptional cases. -/
theorem isPlatformPower_roundedPower : IsPlatformPower roundedPower where
  isNaN_iff {base exponent} _ _ := by
    rw [Binary64.isNaN_iff]
    by_cases inDomain : InDomain base exponent
    · exact iff_of_false (magnitude_roundedPower inDomain).2.not_gt (not_not_intro inDomain)
    · rw [roundedPower, if_neg inDomain]
      exact iff_of_true (by decide) inDomain
  infinite_iff_of_zero {base exponent} _ isZero := by
    rw [(magnitude_roundedPower (.inl isZero.ge)).1,
      or_iff_left (not_overflows_of_zero isZero exponent), and_iff_right isZero]
  infinite_of_overflows _ _ inDomain overflows :=
    (magnitude_roundedPower inDomain).1.mpr (.inr overflows)

/-! ## The exceptional cases -/

/-- Powers keep to the exceptional cases, save at the poles of zero. A power is not a number just in
these cases: the base is not a number, but the exponent is not zero; the exponent is not a number,
but the base is not one; or both are finite, and the base is negative and the exponent is no whole
number, or the base is zero and the exponent is negative. To minus infinity, powers of zero are
infinite. And a power of finite doubles that overflows is infinite with the sign of its true
value, which is negative just for odd powers of negative numbers. -/
theorem power_is_exceptional_save_at_poles {platform : Float → Float → Float}
    (isPower : IsPlatformPower platform) (base exponent : Float) :
    ((powerBy platform base exponent).isNaN ↔
      base.isNaN ∧ signedValue exponent ≠ 0 ∨
      exponent.isNaN ∧ signedValue base ≠ 1 ∨
      (isFinite base = true ∧ isFinite exponent = true) ∧
        ((signedValue base < 0 ∧ ¬∃ n : ℤ, signedValue exponent = n) ∨
          signedValue base = 0 ∧ signedValue exponent < 0)) ∧
    (signedValue base = 0 →
      powerBy platform base (signedInfinity true) = signedInfinity false) ∧
    (isFinite base = true → isFinite exponent = true → InDomain base exponent →
      Overflows (truePower base exponent) →
        powerBy platform base exponent = signedInfinity (decide (truePower base exponent < 0)) ∧
        (truePower base exponent < 0 ↔
          signedValue base < 0 ∧ ∃ n : ℤ, Odd n ∧ signedValue exponent = n)) := by
  refine ⟨?notNumber, powerBy_zero_of_minus_infinity, fun baseFinite exponentFinite inDomain
    overflows => ⟨powerBy_of_overflows baseFinite exponentFinite isPower inDomain overflows, ?_⟩⟩
  case notNumber =>
    rw [isNaN_powerBy_iff isPower, InDomain, not_or, not_le]
  · rw [truePower_neg_iff exponentFinite inDomain, isOdd_iff exponentFinite]

/-- A power of minus two overflows to minus infinity, and zero has an infinite power to minus
infinity. -/
theorem power_of_minus_two_overflows :
    IsPlatformPower roundedPower ∧
      powerBy roundedPower (-2) 1025 = signedInfinity true ∧
      powerBy roundedPower 0 (signedInfinity true) = signedInfinity false := by
  have isBase : signedValue (-2) = -2 := by
    have isNegativeBase : isNegative (-2) = true := by decide
    have isMagnitude : magnitude (-2) = 1023 * leadingBit + leadingBit := by decide
    rw [signedValue, isNegativeBase, isMagnitude,
      value_ofMantissa (Nat.le_mul_of_pos_left _ (by decide)) (.inr le_rfl)]
    norm_num [signed, leadingBit]
  have isExponent : signedValue 1025 = (1025 : ℕ) := by
    have isPositive : isNegative 1025 = false := by decide
    have isMagnitude : magnitude 1025 = 1032 * leadingBit + 1025 * 2 ^ 42 := by decide
    rw [signedValue_of_positive isPositive, isMagnitude,
      value_ofMantissa (by decide) (.inr (by decide))]
    norm_num
  have inDomain : InDomain (-2) 1025 := .inr ⟨1025, isExponent⟩
  have isPower : |truePower (-2) 1025| = 2 ^ 1025 := by
    rw [truePower, isBase, isExponent, Rat.cast_natCast, Real.rpow_natCast, abs_pow]
    norm_num
  have overflows : Overflows (truePower (-2) 1025) := by
    refine overflows_of_le ?_
    rw [isPower]
    exact pow_le_pow_right₀ one_le_two (Nat.le_succ 1024)
  have keeps := power_is_exceptional_save_at_poles isPlatformPower_roundedPower
  obtain ⟨isInfinite, hasSign⟩ := (keeps (-2) 1025).2.2 (by decide) (by decide) inDomain overflows
  have isNegativePower : truePower (-2) 1025 < 0 :=
    hasSign.mpr ⟨isBase ▸ by norm_num, 1025, by decide, isExponent⟩
  refine ⟨isPlatformPower_roundedPower, ?_, (keeps 0 0).2.1 (signedValue_of_zero (by decide))⟩
  rw [isInfinite, decide_eq_true isNegativePower]

/-- Powers of zero are not all infinite where the exponent is negative: at finite exponents zero has
poles, and there its power is not a number. -/
theorem power_of_zero_is_not_infinite :
    ¬ ∀ platform, IsPlatformPower platform → ∀ base exponent,
      signedValue base = 0 → signedValue exponent < 0 →
        magnitude (powerBy platform base exponent) = infinity := by
  intro isInfinite
  have isZero : signedValue 0 = 0 := signedValue_of_zero (by decide)
  have isNegative : signedValue (-1) < 0 := (lt_zero_iff (by decide)).mp (by decide)
  have isNaN : (powerBy roundedPower 0 (-1)).isNaN :=
    (isNaN_powerBy_iff isPlatformPower_roundedPower).mpr
      (.inr (.inr ⟨⟨by decide, by decide⟩, .inr ⟨isZero, isNegative⟩⟩))
  have isPole := isInfinite roundedPower isPlatformPower_roundedPower 0 (-1) isZero isNegative
  exact (Binary64.isNaN_iff.mp isNaN).ne isPole.symm

end Number

end LispShell
