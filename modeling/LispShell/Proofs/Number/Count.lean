import LispShell.Proofs.Number.RoundTrip
import LispShell.Proofs.Number.Sum

/-! # Counting down
Taking one away is exact between one and `2 ^ 53`, and what is below one stays below zero ever
after. Beyond, where the doubles are two and more apart, it is rounded: `2 ^ 53 + 2` comes down to
`2 ^ 53`, and nothing above comes down at all. So the count reaches zero from the whole numbers up
to `2 ^ 53` and from `2 ^ 53 + 2`, and from no other double. -/

namespace LispShell.Binary64

open Float.Model Float.Model.UnpackedFloat

/-! ## Whole numbers -/

/-- Every mantissa that fits has a finite magnitude at every place up to the one of whole
numbers. -/
theorem exists_value_eq {place mantissa : Nat} (fits : mantissa ≤ 2 * leadingBit)
    (isFraction : place ≤ 1074) :
    ∃ bits < infinity, value bits = mantissa * 2 ^ ((place : ℤ) - 1074) := by
  induction place generalizing mantissa with
  | zero => exact ⟨mantissa, by simp only [infinity, leadingBit] at *; omega,
      by simpa using value_ofMantissa fits (.inl rfl)⟩
  | succ place inductionHypothesis =>
    rcases Nat.lt_or_ge mantissa leadingBit with isSmall | isLeading
    · obtain ⟨bits, isFinite, isValue⟩ :=
        inductionHypothesis (by omega : 2 * mantissa ≤ 2 * leadingBit) (by omega)
      refine ⟨bits, isFinite, isValue.trans ?_⟩
      have isNext : ((place + 1 : ℕ) : ℤ) - 1074 = (place : ℤ) - 1074 + 1 := by
        push_cast
        ring
      rw [isNext, zpow_add_one₀ (by norm_num)]
      push_cast
      ring
    · refine ⟨(place + 1) * leadingBit + mantissa, ?_, value_ofMantissa fits (.inr isLeading)⟩
      simp only [infinity, leadingBit] at *
      omega

/-- A whole number up to `2 ^ 53` has a finite magnitude. -/
theorem exists_value_natCast {n : Nat} (fits : n ≤ 2 ^ 53) :
    ∃ bits < infinity, value bits = n := by
  obtain ⟨bits, isFinite, isValue⟩ := exists_value_eq (fits : n ≤ 2 * leadingBit) (le_refl 1074)
  exact ⟨bits, isFinite, by simpa using isValue⟩

/-- From `2 ^ 53` on the magnitudes are two apart. -/
theorem value_limit :
    value (1076 * leadingBit) = 2 ^ 53 ∧ value (1076 * leadingBit + 1) = 2 ^ 53 + 2 ∧
      value (1076 * leadingBit + 2) = 2 ^ 53 + 4 := by
  have isValue (rest : Nat) (fits : rest ≤ 2) :
      value (1076 * leadingBit + rest) = (leadingBit + rest) * 2 := by
    have isSplit : 1076 * leadingBit + rest = 1075 * leadingBit + (leadingBit + rest) := by
      rw [← Nat.add_assoc, ← Nat.succ_mul]
    have isMantissa : leadingBit + rest ≤ 2 * leadingBit := by
      simp only [leadingBit]
      omega
    rw [isSplit, value_ofMantissa isMantissa (.inr (Nat.le_add_right _ _))]
    norm_num
  refine ⟨(isValue 0 (by omega)).trans ?_, (isValue 1 (by omega)).trans ?_,
    (isValue 2 (by omega)).trans ?_⟩
  · norm_num [leadingBit]
  · norm_num [leadingBit]
  · norm_num [leadingBit]

/-! ## Exact roundings -/

/-- What a double can represent is not rounded. -/
theorem IsRounded.exact {q : ℚ} {x : Float} {bits : Nat} (isRounded : IsRounded q x)
    (fits : bits ≤ infinity) (isValue : value bits = |q|) :
    magnitude x = bits ∧ signedValue x = q := by
  have isMagnitude : magnitude x = bits :=
    isRounded.nearest.unique (isValue ▸ isNearest_value fits)
  refine ⟨isMagnitude, ?_⟩
  rw [signedValue, isRounded.sign, isMagnitude, isValue]
  rcases lt_or_ge q 0 with isBelow | isAbove
  · rw [decide_eq_true isBelow, abs_of_neg isBelow]
    exact neg_neg q
  · rw [decide_eq_false isAbove.not_gt, abs_of_nonneg isAbove]
    rfl

/-- A double without a minus sign has the value of its magnitude. -/
theorem signedValue_of_positive {x : Float} (isPositive : isNegative x = false) :
    signedValue x = value (magnitude x) := by
  rw [signedValue, isPositive]
  rfl

/-- A double with a minus sign has no value above zero. -/
theorem signedValue_of_negative {x : Float} (isBelow : isNegative x = true) :
    signedValue x ≤ 0 := by
  rw [signedValue, isBelow]
  exact neg_nonpos.mpr (value_nonneg _)

/-- A double with a value above zero has no minus sign. -/
theorem isNegative_eq_false {x : Float} (isAbove : 0 < signedValue x) : isNegative x = false := by
  rw [← Bool.not_eq_true]
  intro isBelow
  exact absurd isAbove (signedValue_of_negative isBelow).not_gt

/-- A double without a minus sign is given by its value. -/
theorem eq_of_signedValue {x y : Float} (isPositive : isNegative x = false)
    (isPositiveToo : isNegative y = false) (same : signedValue x = signedValue y) : x = y := by
  rw [signedValue_of_positive isPositive, signedValue_of_positive isPositiveToo] at same
  exact eq_of_parts (isPositive.trans isPositiveToo.symm) (value_strictMono.injective same)

/-- A double without a minus sign is finite if its value is not far beyond `2 ^ 53`. -/
theorem magnitude_lt_infinity {x : Float} (isPositive : isNegative x = false)
    (isBelow : signedValue x < 2 ^ 53 + 4) : magnitude x < infinity := by
  rw [signedValue_of_positive isPositive, ← value_limit.2.2] at isBelow
  exact (value_strictMono.lt_iff_lt.mp isBelow).trans (by decide)

/-- Between `2 ^ 53` and `2 ^ 53 + 4` there is one double. -/
theorem signedValue_between {x : Float} (isPositive : isNegative x = false)
    (isAbove : 2 ^ 53 < signedValue x) (isBelow : signedValue x < 2 ^ 53 + 4) :
    signedValue x = 2 ^ 53 + 2 := by
  rw [signedValue_of_positive isPositive] at *
  rw [← value_limit.1] at isAbove
  rw [← value_limit.2.2] at isBelow
  have isGreater := value_strictMono.lt_iff_lt.mp isAbove
  have isLess := value_strictMono.lt_iff_lt.mp isBelow
  have isBits : magnitude x = 1076 * leadingBit + 1 := by omega
  rw [isBits]
  exact value_limit.2.1

/-! ## One step down -/

section Step

variable {x : Float}

/-- One has the value one. -/
theorem signedValue_one : signedValue 1 = 1 := by
  have isNegativeOne : isNegative 1 = false := by decide
  have isMagnitude : magnitude 1 = 1022 * leadingBit + leadingBit := by decide
  rw [signedValue_of_positive isNegativeOne, isMagnitude,
    value_ofMantissa (Nat.le_mul_of_pos_left _ (by decide)) (.inr (le_refl _))]
  norm_num [leadingBit]

/-- The difference to one is rounded. -/
theorem isRounded_sub_one (isFinite : magnitude x < infinity) :
    IsRounded (signedValue x - 1) (x - 1) := by
  rw [← signedValue_one]
  exact isRounded_sub isFinite (by decide) (by decide)

/-- Infinities and what is not a number stay under the difference to one. -/
theorem sub_one_of_infinite (isInfinite : infinity ≤ magnitude x) : x - 1 = x := by
  have isModel : x - 1 = .ofModel (.pack (UnpackedFloat.sub Format.binary64
      (unpacked (isNegative x) (magnitude x)) (Float.toModel 1).unpack)) := by
    rw [← unpack_toModel]
    rfl
  rcases Nat.lt_or_eq_of_le isInfinite with isNaN | same
  · have isNone : unpacked (isNegative x) (magnitude x) = .notANumber := if_pos isNaN
    rw [isModel, isNone]
    exact (eq_nan_of_infinity_lt isNaN).symm
  · have isUnpacked :
        unpacked (isNegative x) (magnitude x) = .infinity (signOf (isNegative x)) := by
      rw [unpacked, if_neg (Nat.not_lt_of_le same.ge), if_pos same.symm]
    have isKept : UnpackedFloat.sub Format.binary64 (unpacked (isNegative x) (magnitude x))
        (Float.toModel 1).unpack = unpacked (isNegative x) (magnitude x) := by
      rw [isUnpacked]
      rfl
    rw [isModel, isKept, ← unpack_toModel]
    exact Float.ofBits_toBits x

/-- Below one the difference to one is negative. -/
theorem isNegative_sub_one (isFinite : magnitude x < infinity) (isBelow : signedValue x < 1) :
    isNegative (x - 1) = true := by
  rw [(isRounded_sub_one isFinite).sign]
  exact decide_eq_true (sub_neg.mpr isBelow)

/-- From one to `2 ^ 53` the difference to one is exact. -/
theorem signedValue_sub_one (isAbove : 1 ≤ signedValue x) (isBelow : signedValue x ≤ 2 ^ 53) :
    isNegative (x - 1) = false ∧ signedValue (x - 1) = signedValue x - 1 := by
  have isPositive : isNegative x = false := isNegative_eq_false (by linarith)
  have isFinite := magnitude_lt_infinity isPositive (by linarith)
  have isRounded := isRounded_sub_one isFinite
  have isDifference : 0 ≤ signedValue x - 1 := by linarith
  refine ⟨isRounded.sign.trans (decide_eq_false isDifference.not_gt), ?_⟩
  suffices isExact : ∃ bits < infinity, value bits = signedValue x - 1 by
    obtain ⟨bits, fits, isValue⟩ := isExact
    exact (isRounded.exact fits.le (isValue.trans (abs_of_nonneg isDifference).symm)).2
  rcases lt_or_eq_of_le isBelow with below | isLimit
  · -- the last place of the double is a fraction of one, so the difference keeps the place
    obtain ⟨place, mantissa, isSplit, fits, isLeading, -⟩ := exists_mantissa (magnitude x)
    have isValue := value_ofMantissa fits.le isLeading
    rw [← isSplit, ← signedValue_of_positive isPositive] at isValue
    have isFraction : place ≤ 1074 := by
      rw [signedValue_of_positive isPositive, ← value_limit.1] at below
      have isLess := value_strictMono.lt_iff_lt.mp below
      simp only [leadingBit] at *
      omega
    obtain ⟨rest, isRest⟩ := Nat.exists_eq_add_of_le isFraction
    have isPlace : (2 : ℚ) ^ ((place : ℤ) - 1074) * 2 ^ rest = 1 := by
      rw [← zpow_natCast, ← zpow_add₀ (by norm_num)]
      have isZero : (place : ℤ) - 1074 + rest = 0 := by omega
      rw [isZero, zpow_zero]
    have placePositive : (0 : ℚ) < 2 ^ ((place : ℤ) - 1074) := by positivity
    have isOne : 2 ^ rest ≤ mantissa := by
      have le : (2 : ℚ) ^ ((place : ℤ) - 1074) * 2 ^ rest ≤
          2 ^ ((place : ℤ) - 1074) * mantissa := by
        rw [isPlace, mul_comm, ← isValue]
        exact isAbove
      exact_mod_cast le_of_mul_le_mul_left le placePositive
    obtain ⟨bits, bitsFinite, isDifferenceValue⟩ :=
      exists_value_eq ((Nat.sub_le mantissa (2 ^ rest)).trans fits.le) isFraction
    refine ⟨bits, bitsFinite, ?_⟩
    rw [isDifferenceValue, Nat.cast_sub isOne, isValue, ← isPlace]
    push_cast
    ring
  · obtain ⟨bits, bitsFinite, isValue⟩ := exists_value_natCast (by omega : 2 ^ 53 - 1 ≤ 2 ^ 53)
    exact ⟨bits, bitsFinite, isValue.trans (by rw [isLimit]; norm_num)⟩

/-- The double `2 ^ 53 + 2` comes down by two. -/
theorem signedValue_sub_one_limit (isNext : signedValue x = 2 ^ 53 + 2) :
    isNegative (x - 1) = false ∧ signedValue (x - 1) = 2 ^ 53 := by
  have isPositive : isNegative x = false := isNegative_eq_false (by linarith)
  have isRounded := isRounded_sub_one (magnitude_lt_infinity isPositive (by linarith))
  have isDifference : 0 ≤ signedValue x - 1 := by linarith
  have isSign := isRounded.sign.trans (decide_eq_false isDifference.not_gt)
  have isNearest := Decimal.isNearest_toBits ⟨2 ^ 53 + 1, 0⟩
  have isBits : Decimal.toBits ⟨2 ^ 53 + 1, 0⟩ = 1076 * leadingBit := by decide
  have isValue : Decimal.value ⟨2 ^ 53 + 1, 0⟩ = |signedValue x - 1| := by
    rw [abs_of_nonneg isDifference, isNext]
    norm_num [Decimal.value]
  rw [isBits, isValue] at isNearest
  refine ⟨isSign, ?_⟩
  rw [signedValue_of_positive isSign, isRounded.nearest.unique isNearest]
  exact value_limit.1

end Step

/-! ## Coming down to zero -/

/-- Whether a double is out of reach of zero: negative, or too great to come down. -/
def Stays (x : Float) : Prop :=
  isNegative x = true ∨ 2 ^ 53 + 4 ≤ signedValue x

/-- What is out of reach of zero stays so. -/
theorem Stays.sub_one {x : Float} (stays : Stays x) : Stays (x - 1) := by
  rcases Nat.lt_or_ge (magnitude x) infinity with isFinite | isInfinite
  · rcases stays with isBelow | isGreat
    · have le := signedValue_of_negative isBelow
      exact .inl (isNegative_sub_one isFinite (by linarith))
    · have isRounded := isRounded_sub_one isFinite
      have isDifference : 0 ≤ signedValue x - 1 := by linarith
      have isSign := isRounded.sign.trans (decide_eq_false isDifference.not_gt)
      -- what is between the last two of these doubles is rounded to the greater
      have isNearest := Decimal.isNearest_toBits ⟨2 ^ 53 + 3, 0⟩
      have isBits : Decimal.toBits ⟨2 ^ 53 + 3, 0⟩ = 1076 * leadingBit + 2 := by decide
      have le : Decimal.value ⟨2 ^ 53 + 3, 0⟩ ≤ |signedValue x - 1| := by
        rw [abs_of_nonneg isDifference]
        norm_num [Decimal.value]
        linarith
      rw [isBits] at isNearest
      right
      rw [signedValue_of_positive isSign, ← value_limit.2.2]
      exact value_strictMono.monotone (isNearest.mono isRounded.nearest le)
  · rw [sub_one_of_infinite isInfinite]
    exact stays

/-- The differences to one, taken one after the other. -/
def down (x : Float) : Nat → Float
  | 0 => x
  | count + 1 => down (x - 1) count

/-- Nothing out of reach of zero comes down to it. -/
theorem Stays.down_ne {x : Float} (stays : Stays x) (count : Nat) : down x count ≠ 0 := by
  induction count generalizing x with
  | zero =>
    rintro rfl
    rcases stays with isBelow | isGreat
    · exact absurd isBelow (by decide)
    · rw [signedValue_of_zero (by decide)] at isGreat
      linarith
  | succ count inductionHypothesis => exact inductionHypothesis stays.sub_one

/-- A whole number up to `2 ^ 53` comes down to zero in as many steps. -/
theorem down_of_natCast {x : Float} {n : Nat} (fits : n ≤ 2 ^ 53)
    (isPositive : isNegative x = false) (isValue : signedValue x = n) : down x n = 0 := by
  induction n generalizing x with
  | zero =>
    refine eq_of_signedValue isPositive (by decide) (isValue.trans ?_)
    rw [signedValue_of_zero (by decide), Nat.cast_zero]
  | succ n inductionHypothesis =>
    have isAbove : 1 ≤ signedValue x := by
      rw [isValue]
      push_cast
      linarith [Nat.cast_nonneg (α := ℚ) n]
    have isBelow : signedValue x ≤ 2 ^ 53 := by
      rw [isValue]
      exact_mod_cast fits
    obtain ⟨stillPositive, isNext⟩ := signedValue_sub_one isAbove isBelow
    refine inductionHypothesis (by omega) stillPositive ?_
    rw [isNext, isValue]
    push_cast
    ring

/-- Just the whole numbers up to `2 ^ 53` and `2 ^ 53 + 2` come down to zero, the last one in one
step less than its value. -/
theorem down_eq_zero_iff {x : Float} {count : Nat} :
    down x count = 0 ↔ isNegative x = false ∧
      (count ≤ 2 ^ 53 ∧ signedValue x = count ∨
        count = 2 ^ 53 + 1 ∧ signedValue x = 2 ^ 53 + 2) := by
  constructor
  · intro isZero
    induction count generalizing x with
    | zero =>
      obtain rfl : x = 0 := isZero
      have isValue : signedValue 0 = (0 : ℕ) := by
        rw [signedValue_of_zero (by decide), Nat.cast_zero]
      exact ⟨by decide, .inl ⟨Nat.zero_le _, isValue⟩⟩
    | succ count inductionHypothesis =>
      -- the first step comes from within reach, and what it leaves is known from the others
      obtain ⟨stillPositive, isNext⟩ := inductionHypothesis isZero
      have inReach : ¬Stays x := fun stays => stays.down_ne _ isZero
      have isPositive : isNegative x = false :=
        Bool.eq_false_iff.mpr fun isBelow => inReach (.inl isBelow)
      have isBelow : signedValue x < 2 ^ 53 + 4 :=
        lt_of_not_ge fun isGreat => inReach (.inr isGreat)
      have isFinite := magnitude_lt_infinity isPositive isBelow
      have isAbove : 1 ≤ signedValue x := by
        by_contra isSmall
        have isNegativeToo := isNegative_sub_one isFinite (lt_of_not_ge isSmall)
        rw [stillPositive] at isNegativeToo
        exact Bool.false_ne_true isNegativeToo
      refine ⟨isPositive, ?_⟩
      rcases le_or_gt (signedValue x) (2 ^ 53) with isExact | isBeyond
      · have isValue := (signedValue_sub_one isAbove isExact).2
        rcases isNext with ⟨-, isCount⟩ | ⟨-, isLimit⟩
        · have isSuccessor : signedValue x = (count + 1 : ℕ) := by
            push_cast
            linarith
          rw [isSuccessor] at isExact
          exact .inl ⟨by exact_mod_cast isExact, isSuccessor⟩
        · linarith
      · have isLimit := signedValue_between isPositive isBeyond isBelow
        have isValue := (signedValue_sub_one_limit isLimit).2
        rcases isNext with ⟨-, isCount⟩ | ⟨-, isLimitToo⟩
        · rw [isValue] at isCount
          exact .inr ⟨congrArg (· + 1) (by exact_mod_cast isCount.symm), isLimit⟩
        · linarith
  · rintro ⟨isPositive, ⟨fits, isValue⟩ | ⟨rfl, isValue⟩⟩
    · exact down_of_natCast fits isPositive isValue
    · obtain ⟨stillPositive, isNext⟩ := signedValue_sub_one_limit isValue
      rw [down]
      exact down_of_natCast (le_refl (2 ^ 53)) stillPositive (isNext.trans (by norm_num))

end LispShell.Binary64
