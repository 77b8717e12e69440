import LispShell.Number.Binary64
import Mathlib.Algebra.Order.Field.Power
import Mathlib.Data.Rat.Cast.Order
import Mathlib.Tactic.FieldSimp
import Mathlib.Tactic.Linarith
import Mathlib.Tactic.Ring

/-! # The nearest magnitude
The value of a magnitude is a rational number, and greater magnitudes have greater values. A
magnitude is nearest to a number if none is nearer and if it is even wherever another is as near;
no two magnitudes are nearest to one number, and greater numbers have greater nearest magnitudes.
`nearest` gives the nearest magnitude. -/

namespace LispShell.Binary64

/-- The value of a magnitude. Infinity has the value that would follow the greatest finite one. -/
def value (bits : Nat) : ℚ :=
  (decode bits).1 * 2 ^ (decode bits).2

/-- Whether a magnitude is nearest to a number: no magnitude is nearer, and it is even if another
one is as near. -/
structure IsNearest (q : ℚ) (bits : Nat) : Prop where
  /-- The magnitude is finite or infinity. -/
  le_infinity : bits ≤ infinity
  /-- No magnitude is nearer. -/
  nearest : ∀ other ≤ infinity, |q - value bits| ≤ |q - value other|
  /-- A tie goes to the even magnitude. -/
  even_of_tie : ∀ other ≤ infinity, other ≠ bits → |q - value bits| = |q - value other| →
    bits % 2 = 0

/-! ## Values -/

/-- A mantissa and the place of its last bit, counted from the last place of the least doubles, are
put together to a magnitude. A carry out of the mantissa goes to the place. -/
theorem value_ofMantissa {place mantissa : Nat} (fits : mantissa ≤ 2 * leadingBit)
    (isLeading : place = 0 ∨ leadingBit ≤ mantissa) :
    value (place * leadingBit + mantissa) = mantissa * 2 ^ ((place : ℤ) - 1074) := by
  have isPositive : 0 < leadingBit := by decide
  rcases Nat.lt_or_ge mantissa leadingBit with isSmall | isLarge
  · obtain rfl : place = 0 := by omega
    have noField : mantissa / leadingBit = 0 := Nat.div_eq_of_lt isSmall
    rw [Nat.zero_mul, Nat.zero_add, value, decode, noField]
    simp
  rcases Nat.lt_or_ge mantissa (2 * leadingBit) with isBelow | isCarry
  · have field : (place * leadingBit + mantissa) / leadingBit = place + 1 := by
      rw [Nat.div_eq_iff isPositive, Nat.succ_mul]
      omega
    have rest : (place * leadingBit + mantissa) % leadingBit + leadingBit = mantissa := by
      have split := Nat.div_add_mod (place * leadingBit + mantissa) leadingBit
      rw [field, Nat.mul_succ, Nat.mul_comm] at split
      omega
    have exponent : ((place + 1 : ℕ) : ℤ) - 1075 = place - 1074 := by
      push_cast
      ring
    simp only [value, decode, field, rest, exponent, Nat.add_eq_zero_iff, one_ne_zero, and_false,
      if_false]
  · obtain rfl : mantissa = 2 * leadingBit := by omega
    have field : (place * leadingBit + 2 * leadingBit) / leadingBit = place + 2 := by
      rw [← Nat.add_mul, Nat.mul_div_cancel _ isPositive]
    have rest : (place * leadingBit + 2 * leadingBit) % leadingBit = 0 := by
      rw [← Nat.add_mul, Nat.mul_mod_left]
    have exponent : ((place + 2 : ℕ) : ℤ) - 1075 = (place - 1074) + 1 := by
      push_cast
      ring
    simp only [value, decode, field, rest, exponent, Nat.add_eq_zero_iff, OfNat.ofNat_ne_zero,
      and_false, if_false]
    rw [zpow_add_one₀ (by norm_num)]
    push_cast
    ring

/-- Every magnitude is put together from a mantissa and a place. -/
theorem exists_mantissa (bits : Nat) :
    ∃ place mantissa, bits = place * leadingBit + mantissa ∧ mantissa < 2 * leadingBit ∧
      (place = 0 ∨ leadingBit ≤ mantissa) ∧ decode bits = (mantissa, (place : ℤ) - 1074) := by
  have isPositive : 0 < leadingBit := by decide
  have split := Nat.div_add_mod bits leadingBit
  have below := Nat.mod_lt bits isPositive
  by_cases field : bits / leadingBit = 0
  · rw [field, Nat.mul_zero, Nat.zero_add] at split
    exact ⟨0, bits, by omega, by omega, .inl rfl, by simp [decode, field]⟩
  · obtain ⟨place, isNext⟩ := Nat.exists_eq_succ_of_ne_zero field
    rw [isNext, Nat.mul_succ, Nat.mul_comm] at split
    refine ⟨place, bits % leadingBit + leadingBit, by omega, by omega, .inr (by omega), ?_⟩
    simp only [decode, isNext, Nat.succ_eq_add_one, Nat.add_eq_zero_iff, one_ne_zero, and_false,
      if_false, Prod.mk.injEq, true_and]
    push_cast
    ring

/-- A greater magnitude has a greater value. -/
theorem value_strictMono : StrictMono value := by
  refine strictMono_nat_of_lt_succ fun bits => ?_
  obtain ⟨place, mantissa, rfl, fits, isLeading, -⟩ := exists_mantissa bits
  rw [Nat.add_assoc, value_ofMantissa fits.le isLeading,
    value_ofMantissa (by omega) (by omega)]
  have isPositive : (0 : ℚ) < 2 ^ ((place : ℤ) - 1074) := by positivity
  push_cast
  nlinarith

/-- Zero has the value zero. -/
@[simp] theorem value_zero : value 0 = 0 := by
  simp [value, decode]

/-- No value is negative. -/
theorem value_nonneg (bits : Nat) : 0 ≤ value bits := by
  rw [← value_zero]
  exact value_strictMono.monotone (Nat.zero_le bits)

/-! ## Nearness -/

section Nearness

variable {q a b : ℚ}

/-- The greater of two numbers is no farther off just if the number is not below their middle. -/
theorem abs_sub_le_abs_sub_iff (lt : a < b) : |q - b| ≤ |q - a| ↔ a + b ≤ 2 * q := by
  rw [← sq_le_sq]
  constructor
  · intro isNear
    nlinarith
  · intro above
    nlinarith

/-- The less of two numbers is no farther off just if the number is not above their middle. -/
theorem abs_sub_le_abs_sub_iff' (lt : a < b) : |q - a| ≤ |q - b| ↔ 2 * q ≤ a + b := by
  rw [← sq_le_sq]
  constructor
  · intro isNear
    nlinarith
  · intro below
    nlinarith

end Nearness

variable {q r : ℚ} {bits other : Nat}

/-- A magnitude is nearest if the number lies between the middles to its two neighbours, and on one
of these only if the magnitude is even. -/
theorem isNearest_of_middles (fits : bits ≤ infinity)
    (below : ∀ lower, lower + 1 = bits → value lower + value bits ≤ 2 * q)
    (above : bits < infinity → 2 * q ≤ value bits + value (bits + 1))
    (tieBelow : ∀ lower, lower + 1 = bits → value lower + value bits = 2 * q → bits % 2 = 0)
    (tieAbove : 2 * q = value bits + value (bits + 1) → bits % 2 = 0) : IsNearest q bits := by
  -- farther magnitudes have farther middles, so only the neighbours count
  have lowerMiddle {other : Nat} (lt : other < bits) :
      ∃ lower, lower + 1 = bits ∧ value other ≤ value lower :=
    ⟨bits - 1, by omega, value_strictMono.monotone (by omega)⟩
  have upperMiddle {other : Nat} (lt : bits < other) : value (bits + 1) ≤ value other :=
    value_strictMono.monotone lt
  refine ⟨fits, fun other fitsOther => ?_, fun other fitsOther differs tie => ?_⟩
  · rcases Nat.lt_trichotomy other bits with lt | rfl | lt
    · obtain ⟨lower, isLower, le⟩ := lowerMiddle lt
      rw [abs_sub_le_abs_sub_iff (value_strictMono lt)]
      linarith [below lower isLower]
    · exact le_refl _
    · rw [abs_sub_le_abs_sub_iff' (value_strictMono lt)]
      linarith [above (by omega), upperMiddle lt]
  · rcases Nat.lt_or_gt_of_ne differs with lt | lt
    · obtain ⟨lower, isLower, le⟩ := lowerMiddle lt
      have onMiddle := (abs_sub_le_abs_sub_iff' (value_strictMono lt)).mp tie.ge
      refine tieBelow lower isLower (le_antisymm (below lower isLower) ?_)
      linarith
    · have onMiddle := (abs_sub_le_abs_sub_iff (value_strictMono lt)).mp tie.ge
      refine tieAbove (le_antisymm (above (by omega)) ?_)
      linarith [upperMiddle lt]

/-- A magnitude is nearest to its own value. -/
theorem isNearest_value (fits : bits ≤ infinity) : IsNearest (value bits) bits := by
  refine ⟨fits, fun other _ => ?_, fun other _ differs tie => ?_⟩
  · rw [sub_self, abs_zero]
    exact abs_nonneg _
  · rw [sub_self, abs_zero, eq_comm, abs_eq_zero, sub_eq_zero] at tie
    exact absurd (value_strictMono.injective tie).symm differs

namespace IsNearest

/-- Magnitudes that are nearest to one number are the same. -/
theorem unique (isNearest : IsNearest q bits) (isNearestToo : IsNearest q other) :
    bits = other := by
  wlog lt : bits < other generalizing bits other
  · rcases Nat.lt_or_eq_of_le (Nat.le_of_not_lt lt) with gt | same
    · exact (this isNearestToo isNearest gt).symm
    · exact same.symm
  exfalso
  have tie : |q - value bits| = |q - value other| :=
    le_antisymm (isNearest.nearest other isNearestToo.le_infinity)
      (isNearestToo.nearest bits isNearest.le_infinity)
  have isEven := isNearest.even_of_tie other isNearestToo.le_infinity (by omega) tie
  have isEvenToo := isNearestToo.even_of_tie bits isNearest.le_infinity (by omega) tie.symm
  -- between two even magnitudes lies an odd one, which is nearer than both
  have between : bits < bits + 1 := by omega
  have between' : bits + 1 < other := by omega
  have fits : bits + 1 ≤ infinity := by
    have := isNearestToo.le_infinity
    omega
  have notAbove := (abs_sub_le_abs_sub_iff' (value_strictMono between)).mp
    (isNearest.nearest (bits + 1) fits)
  have notBelow := (abs_sub_le_abs_sub_iff (value_strictMono between')).mp
    (isNearestToo.nearest (bits + 1) fits)
  linarith [value_strictMono between, value_strictMono between']

/-- A greater number has no lesser nearest magnitude. -/
theorem mono (isNearest : IsNearest q bits) (isNearestToo : IsNearest r other) (le : q ≤ r) :
    bits ≤ other := by
  by_contra notLe
  have lt : other < bits := by omega
  have above := (abs_sub_le_abs_sub_iff (value_strictMono lt)).mp
    (isNearest.nearest other isNearestToo.le_infinity)
  have below := (abs_sub_le_abs_sub_iff' (value_strictMono lt)).mp
    (isNearestToo.nearest bits isNearest.le_infinity)
  obtain rfl : q = r := by linarith
  exact absurd (isNearest.unique isNearestToo) (by omega)

/-- What lies between two numbers with one nearest magnitude has the same nearest magnitude. -/
theorem between {p : ℚ} (isNearest : IsNearest q bits) (isNearestToo : IsNearest r bits)
    (isNearestOther : IsNearest p other) (above : q ≤ p) (below : p ≤ r) : other = bits :=
  le_antisymm (isNearestOther.mono isNearestToo below) (isNearest.mono isNearestOther above)

end IsNearest

/-! ## Rounding -/

/-- Rounding to a whole number goes to the nearest one, and to the even one of two that are as
near. -/
theorem roundHalfEven_spec (numerator : Nat) {denominator : Nat} (isPositive : 0 < denominator) :
    let rounded := roundHalfEven numerator denominator
    2 * (rounded * denominator) ≤ 2 * numerator + denominator ∧
      2 * numerator ≤ 2 * (rounded * denominator) + denominator ∧
      (2 * (rounded * denominator) = 2 * numerator + denominator → rounded % 2 = 0) ∧
      (2 * numerator = 2 * (rounded * denominator) + denominator → rounded % 2 = 0) := by
  have split := Nat.div_add_mod' numerator denominator
  have below := Nat.mod_lt numerator isPositive
  have next : (numerator / denominator + 1) * denominator =
      numerator / denominator * denominator + denominator := by ring
  simp only [roundHalfEven]
  split
  · refine ⟨?_, ?_, ?_, ?_⟩ <;> omega
  split
  · rw [next]
    refine ⟨?_, ?_, ?_, ?_⟩ <;> omega
  · rcases Nat.mod_two_eq_zero_or_one (numerator / denominator) with isEven | isOdd
    · rw [isEven, Nat.add_zero]
      refine ⟨?_, ?_, ?_, ?_⟩ <;> omega
    · rw [isOdd, next]
      refine ⟨?_, ?_, ?_, ?_⟩ <;> omega

/-- A fraction below a whole number is not rounded beyond it. -/
theorem roundHalfEven_le {numerator denominator bound : Nat} (isPositive : 0 < denominator)
    (lt : numerator < bound * denominator) : roundHalfEven numerator denominator ≤ bound := by
  obtain ⟨notOver, -, -, -⟩ := roundHalfEven_spec numerator isPositive
  by_contra notFits
  have atLeast : (bound + 1) * denominator ≤ roundHalfEven numerator denominator * denominator :=
    Nat.mul_le_mul_right _ (by omega)
  rw [Nat.add_mul, Nat.one_mul] at atLeast
  omega

/-- A fraction that is not below a whole number is not rounded below it. -/
theorem le_roundHalfEven {numerator denominator bound : Nat} (isPositive : 0 < denominator)
    (le : bound * denominator ≤ numerator) : bound ≤ roundHalfEven numerator denominator := by
  obtain ⟨-, notUnder, -, -⟩ := roundHalfEven_spec numerator isPositive
  by_contra notAbove
  have atMost : (roundHalfEven numerator denominator + 1) * denominator ≤ bound * denominator :=
    Nat.mul_le_mul_right _ (by omega)
  rw [Nat.add_mul, Nat.one_mul] at atMost
  omega

/-- A rounded fraction is at most a half off, and even if it is that. -/
theorem roundHalfEven_half (numerator : Nat) {denominator : Nat} (isPositive : 0 < denominator) :
    let rounded : ℚ := roundHalfEven numerator denominator
    let exact : ℚ := numerator / denominator
    2 * rounded ≤ 2 * exact + 1 ∧ 2 * exact ≤ 2 * rounded + 1 ∧
      (2 * rounded = 2 * exact + 1 → roundHalfEven numerator denominator % 2 = 0) ∧
      (2 * exact = 2 * rounded + 1 → roundHalfEven numerator denominator % 2 = 0) := by
  intro rounded exact
  obtain ⟨notOver, notUnder, tieOver, tieUnder⟩ := roundHalfEven_spec numerator isPositive
  have isPositive' : (0 : ℚ) < denominator := by exact_mod_cast isPositive
  -- each bound on the fraction is one on whole numbers, divided by the denominator
  have scaled : 2 * exact = 2 * numerator / denominator := by
    simp only [exact]
    ring
  have isRounded : rounded = roundHalfEven numerator denominator := rfl
  rw [scaled, div_add_one isPositive'.ne', le_div_iff₀ isPositive', eq_div_iff isPositive'.ne',
    div_le_iff₀ isPositive', div_eq_iff isPositive'.ne', add_mul, one_mul, mul_assoc, isRounded]
  refine ⟨?_, ?_, fun tie => tieOver ?_, fun tie => tieUnder ?_⟩
  · exact_mod_cast notOver
  · exact_mod_cast notUnder
  · exact_mod_cast tie
  · exact_mod_cast tie

/-- A scaled fraction is the fraction times the power. -/
theorem scale_value {base : Nat} (isPositive : 0 < base) (exponent : ℤ) (fraction : Nat × Nat) :
    ((scale base exponent fraction).1 : ℚ) / (scale base exponent fraction).2 =
      fraction.1 / fraction.2 * (base : ℚ) ^ exponent := by
  have basePositive : (0 : ℚ) < base := by exact_mod_cast isPositive
  unfold scale
  split
  next nonneg =>
    obtain ⟨power, rfl⟩ := Int.eq_ofNat_of_zero_le nonneg
    simp only [Int.toNat_natCast, Nat.pow_eq, Nat.cast_mul, Nat.cast_pow, zpow_natCast]
    ring
  next negative =>
    obtain ⟨power, isPower⟩ := Int.eq_ofNat_of_zero_le (a := -exponent) (by omega)
    obtain rfl : exponent = -power := by omega
    simp only [neg_neg, Int.toNat_natCast, Nat.pow_eq, Nat.cast_mul, Nat.cast_pow, zpow_neg,
      zpow_natCast]
    rw [div_mul_eq_div_div, div_eq_mul_inv _ ((base : ℚ) ^ power)]

/-- A scaled fraction has a positive denominator. -/
theorem scale_pos {base : Nat} (isPositive : 0 < base) (exponent : ℤ) (fraction : Nat × Nat)
    (positive : 0 < fraction.2) : 0 < (scale base exponent fraction).2 := by
  unfold scale
  split
  · exact positive
  · exact Nat.mul_pos positive (Nat.pow_pos isPositive)

/-- A finite magnitude as a fraction has the value of the magnitude. -/
theorem toFraction_value (bits : Nat) :
    ((toFraction bits).1 : ℚ) / (toFraction bits).2 = value bits := by
  simp [toFraction, scale_value, value]

/-- A finite magnitude as a fraction has a positive denominator. -/
theorem toFraction_pos (bits : Nat) : 0 < (toFraction bits).2 :=
  scale_pos Nat.two_pos _ _ Nat.one_pos

/-- Beyond infinity a magnitude between its middles stands for infinity. -/
theorem isNearest_min_of_middles
    (below : ∀ lower, lower + 1 = bits → value lower + value bits ≤ 2 * q)
    (above : 2 * q ≤ value bits + value (bits + 1))
    (tieBelow : ∀ lower, lower + 1 = bits → value lower + value bits = 2 * q → bits % 2 = 0)
    (tieAbove : 2 * q = value bits + value (bits + 1) → bits % 2 = 0) :
    IsNearest q (min bits infinity) := by
  rcases Nat.le_total bits infinity with fits | beyond
  · rw [Nat.min_eq_left fits]
    exact isNearest_of_middles fits below (fun _ => above) tieBelow tieAbove
  · have isEven : infinity % 2 = 0 := by decide
    rw [Nat.min_eq_right beyond]
    refine isNearest_of_middles (le_refl _) (fun lower isLower => ?_)
      (fun lt => absurd lt (lt_irrefl _)) (fun _ _ _ => isEven) (fun _ => isEven)
    obtain ⟨previous, isPrevious⟩ : ∃ previous, previous + 1 = bits := ⟨bits - 1, by omega⟩
    have lowerLe : value lower ≤ value previous := value_strictMono.monotone (by omega)
    have infinityLe : value infinity ≤ value bits := value_strictMono.monotone beyond
    linarith [below previous isPrevious]

section Place

variable {place rounded numerator denominator : Nat} {x : ℚ}

/-- The middle to the next magnitude is half a unit off, or more after a carry. -/
theorem le_value_add_value_succ (fits : rounded ≤ 2 * leadingBit)
    (isLeading : place = 0 ∨ leadingBit ≤ rounded) :
    (2 * rounded + 1) * 2 ^ ((place : ℤ) - 1074) ≤
      value (place * leadingBit + rounded) + value (place * leadingBit + rounded + 1) := by
  have unitPositive : (0 : ℚ) < 2 ^ ((place : ℤ) - 1074) := by positivity
  rw [value_ofMantissa fits isLeading]
  rcases Nat.lt_or_eq_of_le fits with isBelow | rfl
  · rw [Nat.add_assoc, value_ofMantissa (by omega) (by omega)]
    push_cast
    linarith
  · have carried : place * leadingBit + 2 * leadingBit + 1 =
        (place + 1) * leadingBit + (leadingBit + 1) := by ring
    have exponent : ((place + 1 : ℕ) : ℤ) - 1074 = (place - 1074) + 1 := by
      push_cast
      ring
    rw [carried, value_ofMantissa (by decide) (by omega), exponent, zpow_add_one₀ (by norm_num)]
    push_cast
    linarith

/-- The middle to the magnitude before is half a unit off, or a quarter of one where the leading bit
is given up. -/
theorem value_pred_add_value (fits : rounded ≤ 2 * leadingBit)
    (isLeading : place = 0 ∨ leadingBit ≤ rounded) {lower : Nat}
    (isLower : lower + 1 = place * leadingBit + rounded) :
    value lower + value (place * leadingBit + rounded) =
        (2 * rounded - 1) * 2 ^ ((place : ℤ) - 1074) ∨
      (place ≠ 0 ∧ rounded = leadingBit ∧
        value lower + value (place * leadingBit + rounded) =
          (2 * leadingBit - 1 / 2) * 2 ^ ((place : ℤ) - 1074)) := by
  have isPositive : 0 < leadingBit := by decide
  have unitPositive : (0 : ℚ) < 2 ^ ((place : ℤ) - 1074) := by positivity
  rw [value_ofMantissa fits isLeading]
  by_cases keeps : rounded ≠ 0 ∧ (place = 0 ∨ leadingBit < rounded)
  · obtain ⟨previous, rfl⟩ : ∃ previous, rounded = previous + 1 := ⟨rounded - 1, by omega⟩
    obtain rfl : lower = place * leadingBit + previous := by omega
    rw [value_ofMantissa (by omega) (by omega)]
    refine .inl ?_
    push_cast
    ring
  · obtain ⟨before, rfl⟩ : ∃ before, place = before + 1 := ⟨place - 1, by
      rcases Nat.eq_zero_or_pos place with rfl | positive
      · omega
      · omega⟩
    obtain rfl : rounded = leadingBit := by omega
    rw [Nat.succ_mul] at isLower
    obtain rfl : lower = before * leadingBit + (2 * leadingBit - 1) := by omega
    have exponent : ((before + 1 : ℕ) : ℤ) - 1074 = (before - 1074) + 1 := by
      push_cast
      ring
    refine .inr ⟨by omega, rfl, ?_⟩
    rw [value_ofMantissa (by omega) (by omega), exponent, zpow_add_one₀ (by norm_num),
      Nat.cast_sub (by omega)]
    push_cast
    ring

/-- A number of units that is rounded to a mantissa gives the nearest magnitude, if the mantissa
fits and has its leading bit wherever the place is not the last one. Beyond the greatest finite
magnitude that is infinity. -/
theorem isNearest_ofMantissa (fits : rounded ≤ 2 * leadingBit)
    (isLeading : place = 0 ∨ leadingBit ≤ rounded) (isLeadingExact : place = 0 ∨ leadingBit ≤ x)
    (notOver : 2 * (rounded : ℚ) ≤ 2 * x + 1) (notUnder : 2 * x ≤ 2 * rounded + 1)
    (tieOver : 2 * (rounded : ℚ) = 2 * x + 1 → rounded % 2 = 0)
    (tieUnder : 2 * x = 2 * rounded + 1 → rounded % 2 = 0) :
    IsNearest (x * 2 ^ ((place : ℤ) - 1074)) (min (place * leadingBit + rounded) infinity) := by
  have unitPositive : (0 : ℚ) < 2 ^ ((place : ℤ) - 1074) := by positivity
  have parity : rounded % 2 = 0 → (place * leadingBit + rounded) % 2 = 0 := by
    have isEven : place * leadingBit % 2 = 0 := by
      rw [Nat.mul_mod, show leadingBit % 2 = 0 from by decide, Nat.mul_zero, Nat.zero_mod]
    omega
  have next := le_value_add_value_succ fits isLeading
  set unit : ℚ := 2 ^ ((place : ℤ) - 1074)
  apply isNearest_min_of_middles
  case below =>
    intro lower isLower
    rcases value_pred_add_value fits isLeading isLower with half | ⟨notLast, -, quarter⟩
    · nlinarith
    · have := isLeadingExact.resolve_left notLast
      nlinarith
  case above => nlinarith
  case tieBelow =>
    intro lower isLower tie
    rcases value_pred_add_value fits isLeading isLower with half | ⟨notLast, -, quarter⟩
    · refine parity (tieOver (le_antisymm notOver ?_))
      nlinarith
    · have := isLeadingExact.resolve_left notLast
      nlinarith
  case tieAbove =>
    intro tie
    refine parity (tieUnder (le_antisymm notUnder ?_))
    nlinarith

/-- A fraction of units is rounded to the nearest magnitude. -/
theorem isNearest_of_place (isPositive : 0 < denominator)
    (fits : numerator < 2 * leadingBit * denominator)
    (isLeading : place = 0 ∨ leadingBit * denominator ≤ numerator) :
    IsNearest (numerator / denominator * 2 ^ ((place : ℤ) - 1074))
      (min (place * leadingBit + roundHalfEven numerator denominator) infinity) := by
  have fitsRounded := roundHalfEven_le isPositive fits
  have isLeadingRounded := isLeading.imp_right (le_roundHalfEven isPositive)
  have denominatorPositive : (0 : ℚ) < denominator := by exact_mod_cast isPositive
  obtain ⟨notOver, notUnder, tieOver, tieUnder⟩ := roundHalfEven_half numerator isPositive
  refine isNearest_ofMantissa fitsRounded isLeadingRounded (isLeading.imp_right fun atLeast => ?_)
    notOver notUnder tieOver tieUnder
  rw [le_div_iff₀ denominatorPositive]
  exact_mod_cast atLeast

end Place

/-! ## The nearest magnitude of a fraction -/

variable {numerator denominator : Nat}

/-- The quotient of two numbers lies around the difference of their binary lengths. -/
theorem log2_quotient (numeratorPositive : 0 < numerator) (denominatorPositive : 0 < denominator) :
    (numerator : ℚ) / denominator <
        2 ^ ((Nat.log2 numerator : ℤ) - Nat.log2 denominator + 1) ∧
      (2 : ℚ) ^ ((Nat.log2 numerator : ℤ) - Nat.log2 denominator - 1) <
        numerator / denominator := by
  have denominatorPositive' : (0 : ℚ) < denominator := by exact_mod_cast denominatorPositive
  have two : (2 : ℚ) ≠ 0 := by norm_num
  have numeratorAbove : (2 : ℚ) ^ Nat.log2 numerator ≤ numerator := by
    exact_mod_cast Nat.log2_self_le numeratorPositive.ne'
  have numeratorBelow : (numerator : ℚ) < 2 ^ (Nat.log2 numerator + 1) := by
    exact_mod_cast Nat.lt_log2_self
  have denominatorAbove : (2 : ℚ) ^ Nat.log2 denominator ≤ denominator := by
    exact_mod_cast Nat.log2_self_le denominatorPositive.ne'
  have denominatorBelow : (denominator : ℚ) < 2 ^ (Nat.log2 denominator + 1) := by
    exact_mod_cast Nat.lt_log2_self
  constructor
  · rw [div_lt_iff₀ denominatorPositive']
    calc (numerator : ℚ) < 2 ^ (Nat.log2 numerator + 1) := numeratorBelow
      _ = 2 ^ ((Nat.log2 numerator : ℤ) - Nat.log2 denominator + 1) *
            2 ^ Nat.log2 denominator := by
          rw [← zpow_natCast, ← zpow_natCast, ← zpow_add₀ two]
          congr 1
          push_cast
          ring
      _ ≤ 2 ^ ((Nat.log2 numerator : ℤ) - Nat.log2 denominator + 1) * denominator := by
          gcongr
  · rw [lt_div_iff₀ denominatorPositive']
    calc (2 : ℚ) ^ ((Nat.log2 numerator : ℤ) - Nat.log2 denominator - 1) * denominator
        < 2 ^ ((Nat.log2 numerator : ℤ) - Nat.log2 denominator - 1) *
            2 ^ (Nat.log2 denominator + 1) := by
          gcongr
      _ = 2 ^ Nat.log2 numerator := by
          rw [← zpow_natCast, ← zpow_natCast, ← zpow_add₀ two]
          congr 1
          push_cast
          ring
      _ ≤ numerator := numeratorAbove

/-- In units of its last place a fraction has a mantissa that fits, and a leading bit wherever the
place is not the last one of all. -/
theorem lastPlace_spec (numeratorPositive : 0 < numerator)
    (denominatorPositive : 0 < denominator) :
    -1074 ≤ lastPlace numerator denominator ∧
      (numerator : ℚ) / denominator <
        2 * leadingBit * 2 ^ lastPlace numerator denominator ∧
      (lastPlace numerator denominator = -1074 ∨
        leadingBit * (2 : ℚ) ^ lastPlace numerator denominator ≤ numerator / denominator) := by
  obtain ⟨less, greater⟩ := log2_quotient numeratorPositive denominatorPositive
  have two : (2 : ℚ) ≠ 0 := by norm_num
  have leading : (leadingBit : ℚ) = 2 ^ (52 : ℤ) := by norm_num [leadingBit]
  have leadingTwice : 2 * (leadingBit : ℚ) = 2 ^ (53 : ℤ) := by norm_num [leadingBit]
  set length : ℤ := (Nat.log2 numerator : ℤ) - Nat.log2 denominator with isLength
  set q : ℚ := numerator / denominator with isQuotient
  -- the units of the guess are too small by one bit at most
  set low : ℤ := max (length - 53) (-1074) with isLow
  have isPlace : lastPlace numerator denominator =
      if 2 * leadingBit * (2 : ℚ) ^ low ≤ q then low + 1 else low := by
    have scaledPositive := scale_pos Nat.two_pos (-low) (numerator, denominator)
      denominatorPositive
    have scaled := scale_value Nat.two_pos (-low) (numerator, denominator)
    change (if 2 * leadingBit ≤ (scale 2 (-low) (numerator, denominator)).1 /
      (scale 2 (-low) (numerator, denominator)).2 then low + 1 else low) = _
    refine if_congr ?_ rfl rfl
    rw [Nat.le_div_iff_mul_le scaledPositive, ← Nat.cast_le (α := ℚ), Nat.cast_mul,
      ← le_div_iff₀ (by exact_mod_cast scaledPositive), scaled, zpow_neg, ← div_eq_mul_inv,
      le_div_iff₀ (by positivity), isQuotient]
    norm_num
  have lengthLe : length - 53 ≤ low := le_max_left _ _
  rw [isPlace]
  split
  next isCarry =>
    -- a bit too many shows that the guess is not the last place of all
    have notLast : low = length - 53 := by
      by_contra isLast
      have lengthLe' : length + 1 ≤ 53 + low := by omega
      have le : (2 : ℚ) ^ (length + 1) ≤ 2 ^ (53 + low) :=
        zpow_le_zpow_right₀ (by norm_num) lengthLe'
      rw [leadingTwice, ← zpow_add₀ two] at isCarry
      linarith
    refine ⟨by omega, ?_, .inr ?_⟩
    · rw [leadingTwice, ← zpow_add₀ two]
      refine less.trans_eq ?_
      congr 1
      omega
    · rw [zpow_add_one₀ two]
      linarith
  next noCarry =>
    refine ⟨by omega, not_le.mp noCarry, ?_⟩
    rcases max_choice (length - 53) (-1074) with isGuess | isLast
    · right
      rw [leading, ← zpow_add₀ two]
      refine le_of_eq_of_le ?_ greater.le
      congr 1
      omega
    · exact .inl isLast

/-- The nearest magnitude of a fraction is nearest to it. -/
theorem isNearest_nearest (numerator : Nat) (isPositive : 0 < denominator) :
    IsNearest (numerator / denominator) (nearest numerator denominator) := by
  rcases Nat.eq_zero_or_pos numerator with rfl | numeratorPositive
  · simpa [nearest] using isNearest_value (Nat.zero_le infinity)
  · obtain ⟨atLeast, fits, isLeading⟩ := lastPlace_spec numeratorPositive isPositive
    set place := lastPlace numerator denominator
    set scaled := scale 2 (-place) (numerator, denominator) with isScaled
    have scaledPositive : 0 < scaled.2 := scale_pos Nat.two_pos _ _ isPositive
    have scaledPositive' : (0 : ℚ) < scaled.2 := by exact_mod_cast scaledPositive
    have isValue : (scaled.1 : ℚ) / scaled.2 * 2 ^ place = numerator / denominator := by
      rw [isScaled, scale_value Nat.two_pos, Nat.cast_ofNat, mul_assoc,
        ← zpow_add₀ (by norm_num), neg_add_cancel, zpow_zero, mul_one]
    have unitPositive : (0 : ℚ) < 2 ^ place := by positivity
    have isOffset : (((place + 1074).toNat : ℕ) : ℤ) - 1074 = place := by omega
    have fits' : scaled.1 < 2 * leadingBit * scaled.2 := by
      rw [← isValue, mul_lt_mul_iff_of_pos_right unitPositive, div_lt_iff₀ scaledPositive'] at fits
      exact_mod_cast fits
    have isLeading' : (place + 1074).toNat = 0 ∨ leadingBit * scaled.2 ≤ scaled.1 := by
      refine isLeading.imp (fun isLast => by omega) fun atLeast => ?_
      rw [← isValue, mul_le_mul_iff_of_pos_right unitPositive, le_div_iff₀ scaledPositive']
        at atLeast
      exact_mod_cast atLeast
    have isNearest := isNearest_of_place scaledPositive fits' isLeading'
    rw [isOffset, isValue] at isNearest
    rw [nearest, if_neg numeratorPositive.ne']
    exact isNearest

end LispShell.Binary64
