import LispShell.Proofs.Number.Decimal

/-! # The shortest decimal
Of all decimals that read as a magnitude the shortest one has the fewest digits, is the nearest to
the magnitude among those with as few, and ends in an even digit if two of them are as near. There
is one such number for each finite magnitude, and `shortest` writes it down: a decimal with fewer
digits than the grid of the search would have been found on a coarser grid. -/

namespace LispShell.Decimal

open Binary64

/-- Whether a decimal is the shortest one that reads as a magnitude. -/
structure IsShortest (bits : Nat) (d : Decimal) : Prop where
  /-- It reads as the magnitude. -/
  reads : d.toBits = bits
  /-- No decimal that reads as the magnitude has fewer digits. -/
  fewest : ∀ other : Decimal, other.toBits = bits → length d.digits ≤ length other.digits
  /-- None with as few digits is nearer. -/
  nearest : ∀ other : Decimal, other.toBits = bits → length other.digits = length d.digits →
    |Binary64.value bits - d.value| ≤ |Binary64.value bits - other.value|
  /-- A tie goes to the even digit. -/
  even_of_tie : ∀ other : Decimal, other.toBits = bits → length other.digits = length d.digits →
    other.value ≠ d.value →
    |Binary64.value bits - d.value| = |Binary64.value bits - other.value| → d.digits % 2 = 0

variable {bits numerator denominator : Nat} {exponent : ℤ}

/-! ## The first place -/

/-- A positive number lies between the powers of ten of its length. -/
theorem length_spec {n : Nat} (isPositive : 0 < n) :
    (10 : ℚ) ^ ((length n : ℤ) - 1) ≤ n ∧ (n : ℚ) < 10 ^ (length n : ℤ) := by
  have hasDigit := length_pos n
  constructor
  · have isOffset : (length n : ℤ) - 1 = (length n - 1 : ℕ) := by omega
    rw [isOffset, zpow_natCast]
    exact_mod_cast pow_length_le isPositive
  · rw [zpow_natCast]
    exact_mod_cast lt_pow_length n

/-- A positive fraction lies between the power of ten of its first place and the next one. -/
theorem firstPlace_spec (numeratorPositive : 0 < numerator)
    (denominatorPositive : 0 < denominator) :
    (10 : ℚ) ^ firstPlace numerator denominator ≤ numerator / denominator ∧
      (numerator : ℚ) / denominator < 10 ^ (firstPlace numerator denominator + 1) := by
  have ten : (10 : ℚ) ≠ 0 := by norm_num
  have denominatorPositive' : (0 : ℚ) < denominator := by exact_mod_cast denominatorPositive
  obtain ⟨numeratorAbove, numeratorBelow⟩ := length_spec numeratorPositive
  obtain ⟨denominatorAbove, denominatorBelow⟩ := length_spec denominatorPositive
  set guess : ℤ := (length numerator : ℤ) - length denominator with isGuess
  set q : ℚ := numerator / denominator with isQuotient
  have less : q < 10 ^ (guess + 1) := by
    rw [isQuotient, div_lt_iff₀ denominatorPositive']
    calc (numerator : ℚ) < 10 ^ (length numerator : ℤ) := numeratorBelow
      _ = 10 ^ (guess + 1) * 10 ^ ((length denominator : ℤ) - 1) := by
          rw [← zpow_add₀ ten]
          congr 1
          omega
      _ ≤ 10 ^ (guess + 1) * denominator := by gcongr
  have greater : (10 : ℚ) ^ (guess - 1) ≤ q := by
    rw [isQuotient, le_div_iff₀ denominatorPositive']
    calc (10 : ℚ) ^ (guess - 1) * denominator
        ≤ 10 ^ (guess - 1) * 10 ^ (length denominator : ℤ) := by gcongr
      _ = 10 ^ ((length numerator : ℤ) - 1) := by
          rw [← zpow_add₀ ten]
          congr 1
          omega
      _ ≤ numerator := numeratorAbove
  have isPlace : firstPlace numerator denominator =
      if (10 : ℚ) ^ guess ≤ q then guess else guess - 1 := by
    have scaledPositive := scale_pos (by omega : 0 < 10) (-guess) (numerator, denominator)
      denominatorPositive
    have scaled := scale_value (by omega : 0 < 10) (-guess) (numerator, denominator)
    change (if (scale 10 (-guess) (numerator, denominator)).2 ≤
      (scale 10 (-guess) (numerator, denominator)).1 then guess else guess - 1) = _
    refine if_congr ?_ rfl rfl
    rw [← Nat.cast_le (α := ℚ), ← one_le_div₀ (by exact_mod_cast scaledPositive), scaled,
      zpow_neg, ← div_eq_mul_inv, le_div_iff₀ (by positivity), isQuotient]
    norm_num
  rw [isPlace]
  split
  next isFirst => exact ⟨isFirst, less⟩
  next isBefore =>
    rw [sub_add_cancel]
    exact ⟨greater, not_le.mp isBefore⟩

/-! ## One grid -/

/-- Whether a decimal is the best one on its grid: it reads as the magnitude, none on the grid that
does is nearer, and a tie goes to the even digit. -/
structure IsBestOnGrid (bits : Nat) (d : Decimal) : Prop where
  /-- It reads as the magnitude. -/
  reads : d.toBits = bits
  /-- None on the grid is nearer. -/
  nearest : ∀ k, toBits ⟨k, d.exponent⟩ = bits →
    |Binary64.value bits - d.value| ≤ |Binary64.value bits - value ⟨k, d.exponent⟩|
  /-- A tie goes to the even digit. -/
  even_of_tie : ∀ k, toBits ⟨k, d.exponent⟩ = bits → k ≠ d.digits →
    |Binary64.value bits - d.value| = |Binary64.value bits - value ⟨k, d.exponent⟩| →
    d.digits % 2 = 0

section Grid

variable {digits : Nat}

/-- More digits have a greater value. -/
theorem value_lt_value_iff {a b : Nat} : value ⟨a, exponent⟩ < value ⟨b, exponent⟩ ↔ a < b := by
  rw [← not_le, value_le_value_iff, not_le]

/-- The greatest number that reads as the magnitude is the best one if it is not above it. -/
theorem isBestOnGrid_of_le (reads : toBits ⟨digits, exponent⟩ = bits)
    (le : value ⟨digits, exponent⟩ ≤ Binary64.value bits)
    (isGreatest : ∀ k, toBits ⟨k, exponent⟩ = bits → k ≤ digits) :
    IsBestOnGrid bits ⟨digits, exponent⟩ := by
  have farther {k : Nat} (lt : k < digits) : |Binary64.value bits - value ⟨digits, exponent⟩| <
      |Binary64.value bits - value ⟨k, exponent⟩| := by
    have less : value ⟨k, exponent⟩ < value ⟨digits, exponent⟩ := value_lt_value_iff.mpr lt
    rw [abs_of_nonneg (by linarith), abs_of_nonneg (by linarith)]
    linarith
  refine ⟨reads, fun k readsToo => ?_, fun k readsToo differs tie => ?_⟩
  · rcases Nat.lt_or_eq_of_le (isGreatest k readsToo) with lt | rfl
    · exact (farther lt).le
    · exact le_refl _
  · exact absurd tie (farther (Nat.lt_of_le_of_ne (isGreatest k readsToo) differs)).ne

/-- The least number that reads as the magnitude is the best one if it is not below it. -/
theorem isBestOnGrid_of_ge (reads : toBits ⟨digits, exponent⟩ = bits)
    (ge : Binary64.value bits ≤ value ⟨digits, exponent⟩)
    (isLeast : ∀ k, toBits ⟨k, exponent⟩ = bits → digits ≤ k) :
    IsBestOnGrid bits ⟨digits, exponent⟩ := by
  have farther {k : Nat} (lt : digits < k) : |Binary64.value bits - value ⟨digits, exponent⟩| <
      |Binary64.value bits - value ⟨k, exponent⟩| := by
    have less : value ⟨digits, exponent⟩ < value ⟨k, exponent⟩ := value_lt_value_iff.mpr lt
    rw [abs_of_nonpos (by linarith), abs_of_nonpos (by linarith)]
    linarith
  refine ⟨reads, fun k readsToo => ?_, fun k readsToo differs tie => ?_⟩
  · rcases Nat.lt_or_eq_of_le (isLeast k readsToo) with lt | rfl
    · exact (farther lt).le
    · exact le_refl _
  · exact absurd tie
      (farther (Nat.lt_of_le_of_ne (isLeast k readsToo) (Ne.symm differs))).ne

/-- A rounded number of grid units is the best one if it reads as the magnitude. -/
theorem isBestOnGrid_of_half {t : ℚ} (isValue : Binary64.value bits = t * 10 ^ exponent)
    (reads : toBits ⟨digits, exponent⟩ = bits)
    (notOver : 2 * (digits : ℚ) ≤ 2 * t + 1) (notUnder : 2 * t ≤ 2 * digits + 1)
    (tieOver : 2 * (digits : ℚ) = 2 * t + 1 → digits % 2 = 0)
    (tieUnder : 2 * t = 2 * digits + 1 → digits % 2 = 0) :
    IsBestOnGrid bits ⟨digits, exponent⟩ := by
  have unitPositive : (0 : ℚ) < 10 ^ exponent := by positivity
  refine ⟨reads, fun k _ => ?_, fun k _ differs tie => ?_⟩
  · rcases Nat.lt_trichotomy k digits with lt | rfl | lt
    · have step : (k : ℚ) + 1 ≤ digits := by exact_mod_cast lt
      rw [abs_sub_le_abs_sub_iff (value_lt_value_iff.mpr lt), isValue]
      simp only [value]
      nlinarith
    · exact le_refl _
    · have step : (digits : ℚ) + 1 ≤ k := by exact_mod_cast lt
      rw [abs_sub_le_abs_sub_iff' (value_lt_value_iff.mpr lt), isValue]
      simp only [value]
      nlinarith
  · rcases Nat.lt_or_gt_of_ne differs with lt | lt
    · have step : (k : ℚ) + 1 ≤ digits := by exact_mod_cast lt
      have onMiddle := (abs_sub_le_abs_sub_iff' (value_lt_value_iff.mpr lt)).mp tie.ge
      rw [isValue] at onMiddle
      simp only [value] at onMiddle
      refine tieOver (le_antisymm notOver ?_)
      nlinarith
    · have step : (digits : ℚ) + 1 ≤ k := by exact_mod_cast lt
      have onMiddle := (abs_sub_le_abs_sub_iff (value_lt_value_iff.mpr lt)).mp tie.ge
      rw [isValue] at onMiddle
      simp only [value] at onMiddle
      refine tieUnder (le_antisymm notUnder ?_)
      nlinarith

end Grid

section Search

/-- A decimal that is off by less than a part in `2 ^ 54` reads as the magnitude. -/
theorem toBits_of_close {d : Decimal} (fits : bits ≤ infinity)
    (close : 2 ^ 54 * |Binary64.value bits - d.value| < Binary64.value bits) : d.toBits = bits := by
  rw [toBits_eq_iff]
  obtain ⟨place, mantissa, rfl, lt, isLeading, -⟩ := exists_mantissa bits
  have isValue := value_ofMantissa lt.le isLeading
  have next := le_value_add_value_succ lt.le isLeading
  have isLeadingBit : (leadingBit : ℚ) = 2 ^ 52 := by norm_num [leadingBit]
  have mantissaBelow : (mantissa : ℚ) < 2 ^ 53 := by
    calc (mantissa : ℚ) < (2 * leadingBit : ℕ) := by exact_mod_cast lt
      _ = 2 ^ 53 := by norm_num [leadingBit]
  set x := Binary64.value (place * leadingBit + mantissa)
  have unitPositive : (0 : ℚ) < 2 ^ ((place : ℤ) - 1074) := by positivity
  set unit : ℚ := 2 ^ ((place : ℤ) - 1074)
  obtain ⟨notBelow, notAbove⟩ := abs_le.mp (le_refl |x - d.value|)
  have less (lower : Nat) (isLower : lower + 1 = place * leadingBit + mantissa) :
      Binary64.value lower + x < 2 * d.value := by
    rcases value_pred_add_value lt.le isLeading isLower with half | ⟨-, isFirst, quarter⟩
    · nlinarith
    · rw [isFirst] at isValue
      rw [isLeadingBit] at quarter isValue
      nlinarith
  have greater : 2 * d.value < x + Binary64.value (place * leadingBit + mantissa + 1) := by
    nlinarith
  exact isNearest_of_middles fits (fun lower isLower => (less lower isLower).le)
    (fun _ => greater.le) (fun lower isLower tie => absurd tie (less lower isLower).ne)
    (fun tie => absurd tie greater.ne)

/-- Rounding to a whole number goes to one of the two neighbours. -/
theorem roundHalfEven_eq_or (numerator denominator : Nat) :
    roundHalfEven numerator denominator = numerator / denominator ∨
      roundHalfEven numerator denominator = numerator / denominator + 1 := by
  simp only [roundHalfEven]
  split
  · exact .inl rfl
  split
  · exact .inr rfl
  · rcases Nat.mod_two_eq_zero_or_one (numerator / denominator) with isEven | isOdd
    · exact .inl (by rw [isEven, Nat.add_zero])
    · exact .inr (by rw [isOdd])

variable {d : Decimal} (fits : bits ≤ infinity) (isPositive : 0 < denominator)
  (isValue : (numerator : ℚ) / denominator = Binary64.value bits)
include fits isPositive isValue

/-- The magnitude lies between two neighbours on a grid, and a number that reads as the magnitude
shows that the neighbour on its side does. -/
theorem exists_neighbours (exponent : ℤ) :
    let scaled := scale 10 (-exponent) (numerator, denominator)
    let below := scaled.1 / scaled.2
    value ⟨below, exponent⟩ ≤ Binary64.value bits ∧
      Binary64.value bits < value ⟨below + 1, exponent⟩ ∧
      Binary64.value bits = scaled.1 / scaled.2 * 10 ^ exponent ∧
      ∀ k, toBits ⟨k, exponent⟩ = bits →
        (k ≤ below → toBits ⟨below, exponent⟩ = bits) ∧
          (below + 1 ≤ k → toBits ⟨below + 1, exponent⟩ = bits) := by
  intro scaled below
  have scaledPositive : 0 < scaled.2 := scale_pos (by omega : 0 < 10) _ _ isPositive
  have scaledPositive' : (0 : ℚ) < scaled.2 := by exact_mod_cast scaledPositive
  have unitPositive : (0 : ℚ) < 10 ^ exponent := by positivity
  have isScaled : Binary64.value bits = scaled.1 / scaled.2 * 10 ^ exponent := by
    have scaledValue := scale_value (by omega : 0 < 10) (-exponent) (numerator, denominator)
    rw [isValue] at scaledValue
    rw [scaledValue, mul_assoc, Nat.cast_ofNat, ← zpow_add₀ (by norm_num), neg_add_cancel,
      zpow_zero, mul_one]
  have isBelow : value ⟨below, exponent⟩ ≤ Binary64.value bits := by
    rw [isScaled, value, mul_le_mul_iff_of_pos_right unitPositive, le_div_iff₀ scaledPositive']
    exact_mod_cast Nat.div_mul_le_self scaled.1 scaled.2
  have isAbove : Binary64.value bits < value ⟨below + 1, exponent⟩ := by
    rw [isScaled, value, mul_lt_mul_iff_of_pos_right unitPositive, div_lt_iff₀ scaledPositive']
    exact_mod_cast Nat.lt_mul_of_div_lt (Nat.lt_succ_self below) scaledPositive
  refine ⟨isBelow, isAbove, isScaled, fun k reads => ⟨fun le => ?_, fun le => ?_⟩⟩
  · exact toBits_between fits reads (.inl ⟨value_le_value_iff.mpr le, isBelow⟩)
  · exact toBits_between fits reads (.inr ⟨isAbove.le, value_le_value_iff.mpr le⟩)

/-- What is found on a grid is the best decimal on it, and less than a unit off. -/
theorem onGrid?_eq_some (found : onGrid? bits numerator denominator exponent = some d) :
    d.exponent = exponent ∧ IsBestOnGrid bits d ∧
      Binary64.value bits < d.value + 10 ^ exponent ∧
      d.value ≤ Binary64.value bits + 10 ^ exponent := by
  obtain ⟨isBelow, isAbove, isScaled, neighbours⟩ :=
    exists_neighbours fits isPositive isValue exponent
  have scaledPositive := scale_pos (by omega : 0 < 10) (-exponent) (numerator, denominator)
    isPositive
  rw [onGrid?] at found
  set scaled := scale 10 (-exponent) (numerator, denominator)
  set below := scaled.1 / scaled.2
  have step (k : Nat) : value ⟨k + 1, exponent⟩ = value ⟨k, exponent⟩ + 10 ^ exponent := by
    simp only [value]
    push_cast
    ring
  rw [step] at isAbove
  have unitPositive : (0 : ℚ) < 10 ^ exponent := by positivity
  simp only at found
  split at found
  next readsBelow =>
    split at found
    next readsAbove =>
      obtain rfl := Option.some.inj found
      obtain ⟨notOver, notUnder, tieOver, tieUnder⟩ := roundHalfEven_half scaled.1 scaledPositive
      rcases roundHalfEven_eq_or scaled.1 scaled.2 with isRounded | isRounded
      · refine ⟨rfl, isBestOnGrid_of_half isScaled ?_ notOver notUnder tieOver tieUnder, ?_⟩
        · rw [isRounded]
          exact readsBelow
        · rw [isRounded]
          constructor <;> linarith
      · refine ⟨rfl, isBestOnGrid_of_half isScaled ?_ notOver notUnder tieOver tieUnder, ?_⟩
        · rw [isRounded]
          exact readsAbove
        · rw [isRounded, step]
          constructor <;> linarith
    next notAbove =>
      obtain rfl := Option.some.inj found
      refine ⟨rfl, isBestOnGrid_of_le readsBelow isBelow fun k reads => ?_, ?_⟩
      · by_contra above
        exact notAbove ((neighbours k reads).2 (by omega))
      · constructor <;> linarith
  next notBelow =>
    split at found
    next readsAbove =>
      obtain rfl := Option.some.inj found
      have isAbove' : Binary64.value bits ≤ value ⟨below + 1, exponent⟩ := by
        rw [step]
        exact isAbove.le
      refine ⟨rfl, isBestOnGrid_of_ge readsAbove isAbove' fun k reads => ?_, ?_⟩
      · by_contra notAbove
        exact notBelow ((neighbours k reads).1 (by omega))
      · rw [step]
        constructor <;> linarith
    next => exact absurd found (by simp)

/-- Where nothing is found on a grid, no number on it reads as the magnitude. -/
theorem onGrid?_eq_none (notFound : onGrid? bits numerator denominator exponent = none) (k : Nat) :
    toBits ⟨k, exponent⟩ ≠ bits := by
  intro reads
  obtain ⟨-, -, -, neighbours⟩ := exists_neighbours fits isPositive isValue exponent
  obtain ⟨readsBelow, readsAbove⟩ := neighbours k reads
  rw [onGrid?] at notFound
  simp only at notFound
  split at notFound
  next => split at notFound <;> exact absurd notFound (by simp)
  next notBelow =>
    split at notFound
    next => exact absurd notFound (by simp)
    next notAbove =>
      rcases Nat.lt_or_ge k ((scale 10 (-exponent) (numerator, denominator)).1 /
          (scale 10 (-exponent) (numerator, denominator)).2 + 1) with below | above
      · exact notBelow (readsBelow (by omega))
      · exact notAbove (readsAbove above)

/-- On a grid of seventeen digits a number reads as the magnitude. -/
theorem exists_on_fine_grid (fine : 10 ^ 16 * (10 : ℚ) ^ exponent ≤ Binary64.value bits) :
    ∃ k, toBits ⟨k, exponent⟩ = bits := by
  obtain ⟨-, -, isScaled, -⟩ := exists_neighbours fits isPositive isValue exponent
  have scaledPositive := scale_pos (by omega : 0 < 10) (-exponent) (numerator, denominator)
    isPositive
  set scaled := scale 10 (-exponent) (numerator, denominator)
  obtain ⟨notOver, notUnder, -, -⟩ := roundHalfEven_half scaled.1 scaledPositive
  have unitPositive : (0 : ℚ) < 10 ^ exponent := by positivity
  refine ⟨roundHalfEven scaled.1 scaled.2, toBits_of_close fits ?_⟩
  have halfUnit : 2 * |Binary64.value bits - value ⟨roundHalfEven scaled.1 scaled.2, exponent⟩| ≤
      10 ^ exponent := by
    rw [isScaled, value, ← sub_mul, abs_mul, abs_of_pos unitPositive]
    have half : 2 * |(scaled.1 : ℚ) / scaled.2 - roundHalfEven scaled.1 scaled.2| ≤ 1 := by
      rw [← le_div_iff₀' (by norm_num), abs_le]
      constructor <;> linarith
    nlinarith
  linarith

end Search

/-- A first success of a search over the first numbers. -/
theorem findSome?_range_spec {α : Type} (f : Nat → Option α) (count : Nat) :
    (∃ i < count, ∃ found, f i = some found ∧ (List.range count).findSome? f = some found ∧
      ∀ j < i, f j = none) ∨ ∀ j < count, f j = none := by
  induction count with
  | zero => exact .inr fun j lt => absurd lt (Nat.not_lt_zero j)
  | succ count inductionHypothesis =>
    rw [List.range_succ, List.findSome?_append]
    rcases inductionHypothesis with ⟨i, lt, found, isFound, isFirst, noneBefore⟩ | allNone
    · refine .inl ⟨i, by omega, found, isFound, ?_, noneBefore⟩
      rw [isFirst, Option.some_or]
    · have noneSo : (List.range count).findSome? f = none :=
        List.findSome?_eq_none_iff.mpr fun j isIn => allNone j (List.mem_range.mp isIn)
      rcases isLast : f count with - | found
      · exact .inr fun j lt => (Nat.lt_succ_iff_lt_or_eq.mp lt).elim (allNone j) (· ▸ isLast)
      · refine .inl ⟨count, by omega, found, isLast, ?_, allNone⟩
        rw [noneSo, Option.none_or, List.findSome?_singleton, isLast]

/-- The search ends on the coarsest grid that has a number which reads as the magnitude, with the
best one on it. -/
theorem shortest_spec (isPositive : 0 < bits) (isFinite : bits < infinity) :
    ∃ (first : ℤ) (later : Nat),
      10 ^ first ≤ Binary64.value bits ∧ Binary64.value bits < 10 ^ (first + 1) ∧
      (shortest bits).exponent = first - later ∧ IsBestOnGrid bits (shortest bits) ∧
      Binary64.value bits < (shortest bits).value + 10 ^ (first - later) ∧
      (shortest bits).value ≤ Binary64.value bits + 10 ^ (first - later) ∧
      ∀ earlier : Nat, earlier < later → ∀ k, toBits ⟨k, first - earlier⟩ ≠ bits := by
  have isValue := toFraction_value bits
  have denominatorPositive := toFraction_pos bits
  have valuePositive : 0 < Binary64.value bits := by
    rw [← Binary64.value_zero]
    exact value_strictMono isPositive
  have numeratorPositive : 0 < (toFraction bits).1 := by
    by_contra notPositive
    rw [Nat.eq_zero_of_not_pos notPositive, Nat.cast_zero, zero_div] at isValue
    exact valuePositive.ne isValue
  obtain ⟨firstLe, ltNext⟩ := firstPlace_spec numeratorPositive denominatorPositive
  rw [isValue] at firstLe ltNext
  set first := firstPlace (toFraction bits).1 (toFraction bits).2 with isFirst
  have isShortest : shortest bits = ((List.range 17).findSome? fun (later : Nat) =>
      onGrid? bits (toFraction bits).1 (toFraction bits).2 (first - later)).getD (exact bits) := rfl
  rcases findSome?_range_spec (fun (later : Nat) =>
      onGrid? bits (toFraction bits).1 (toFraction bits).2 (first - later)) 17 with
    ⟨later, -, found, onGrid, isFound, noneBefore⟩ | allNone
  · rw [isFound, Option.getD_some] at isShortest
    obtain ⟨isExponent, isBest, above, below⟩ :=
      onGrid?_eq_some isFinite.le denominatorPositive isValue onGrid
    rw [isShortest]
    refine ⟨first, later, firstLe, ltNext, isExponent, isBest, above, below, ?_⟩
    intro earlier lt
    exact onGrid?_eq_none isFinite.le denominatorPositive isValue (noneBefore earlier lt)
  · have fine : 10 ^ 16 * (10 : ℚ) ^ (first - (16 : ℕ)) ≤ Binary64.value bits := by
      refine le_of_eq_of_le ?_ firstLe
      rw [← zpow_natCast, ← zpow_add₀ (by norm_num)]
      congr 1
      omega
    obtain ⟨k, reads⟩ := exists_on_fine_grid isFinite.le denominatorPositive isValue fine
    exact absurd reads
      (onGrid?_eq_none isFinite.le denominatorPositive isValue (allNone 16 (by omega)) k)

/-! ## The shortest decimal of a magnitude -/

section Found

variable {first : ℤ} {later : Nat} {d other : Decimal}

/-- A decimal is less than the power of ten before its first digit. -/
theorem value_lt_pow (d : Decimal) : d.value < (10 : ℚ) ^ (d.exponent + length d.digits) := by
  rw [zpow_add₀ (by norm_num), zpow_natCast, mul_comm, value]
  have digitsBelow : (d.digits : ℚ) < 10 ^ length d.digits := by
    exact_mod_cast lt_pow_length d.digits
  gcongr

/-- A decimal with its first digit at a place has all its digits on a grid that much finer. -/
theorem first_lt_add_length (firstLe : (10 : ℚ) ^ first ≤ d.value) :
    first < d.exponent + length d.digits := by
  exact (zpow_lt_zpow_iff_right₀ (by norm_num)).mp (firstLe.trans_lt (value_lt_pow d))

/-- A decimal has its value on every finer grid. -/
theorem exists_on_grid (d : Decimal) (le : exponent ≤ d.exponent) :
    ∃ k, value ⟨k, exponent⟩ = d.value := by
  obtain ⟨places, isOffset⟩ := Int.eq_ofNat_of_zero_le (sub_nonneg.mpr le)
  refine ⟨d.digits * 10 ^ places, ?_⟩
  rw [value_shift]
  congr
  omega

variable (fits : bits ≤ infinity) (firstLe : (10 : ℚ) ^ first ≤ Binary64.value bits)
  (noneBefore : ∀ earlier : Nat, earlier < later → ∀ k, toBits ⟨k, first - earlier⟩ ≠ bits)
include fits firstLe noneBefore

/-- What reads as the magnitude from below its first place shows that the first grid does. -/
theorem later_eq_zero (reads : other.toBits = bits) (less : other.value < 10 ^ first) :
    later = 0 := by
  by_contra isLater
  have isPower : value ⟨1, first - (0 : ℕ)⟩ = 10 ^ first := by
    rw [value, Nat.cast_one, one_mul, Nat.cast_zero, sub_zero]
  refine noneBefore 0 (Nat.pos_of_ne_zero isLater) 1 (toBits_between fits reads (.inl ?_))
  rw [isPower]
  exact ⟨less.le, firstLe⟩

/-- A decimal that reads as the magnitude has more digits than the grids that were searched in
vain. -/
theorem later_lt_length (reads : other.toBits = bits) : later < length other.digits := by
  by_contra notLess
  have hasDigit := length_pos other.digits
  rcases lt_or_ge other.value (10 ^ first) with less | atLeast
  · have := later_eq_zero fits firstLe noneBefore reads less
    omega
  · have onGrid := first_lt_add_length atLeast
    obtain ⟨k, same⟩ := exists_on_grid other
      (by omega : first - (length other.digits - 1 : ℕ) ≤ other.exponent)
    exact noneBefore (length other.digits - 1) (by omega) k ((toBits_congr same).trans reads)

/-- A competitor with no more digits than the best decimal of the last grid is on its grid or
farther off. -/
theorem onGrid_or_farther (isExponent : d.exponent = first - later) (isBest : IsBestOnGrid bits d)
    (reads : other.toBits = bits) (isShort : length other.digits ≤ later + 1) :
    (∃ k, toBits ⟨k, d.exponent⟩ = bits ∧ value ⟨k, d.exponent⟩ = other.value) ∨
      |Binary64.value bits - d.value| < |Binary64.value bits - other.value| := by
  rcases lt_or_ge other.value (10 ^ first) with less | atLeast
  · right
    obtain rfl := later_eq_zero fits firstLe noneBefore reads less
    rw [Nat.cast_zero, sub_zero] at isExponent
    have isPower : value ⟨1, d.exponent⟩ = 10 ^ first := by
      rw [value, Nat.cast_one, one_mul, isExponent]
    have readsPower : toBits ⟨1, d.exponent⟩ = bits := by
      refine toBits_between fits reads (.inl ?_)
      rw [isPower]
      exact ⟨less.le, firstLe⟩
    refine (isBest.nearest 1 readsPower).trans_lt ?_
    rw [isPower, abs_of_nonneg (by linarith), abs_of_nonneg (by linarith)]
    linarith
  · left
    have onGrid := first_lt_add_length atLeast
    obtain ⟨k, same⟩ := exists_on_grid other (by omega : d.exponent ≤ other.exponent)
    exact ⟨k, (toBits_congr same).trans reads, same⟩

/-- The best decimal of the last grid is the shortest one if all its digits are on the grid. -/
theorem isShortest_of_lt (isExponent : d.exponent = first - later) (isBest : IsBestOnGrid bits d)
    (isBelow : d.digits < 10 ^ (later + 1)) : IsShortest bits d := by
  have isLength : length d.digits = later + 1 :=
    le_antisymm ((length_le_iff (by omega)).mpr isBelow)
      (later_lt_length fits firstLe noneBefore isBest.reads)
  have competitor {other : Decimal} (reads : other.toBits = bits)
      (sameLength : length other.digits = length d.digits) :=
    onGrid_or_farther fits firstLe noneBefore isExponent isBest reads
      (sameLength.trans isLength).le
  refine ⟨isBest.reads, fun other reads => ?_, fun other reads sameLength => ?_,
    fun other reads sameLength differs tie => ?_⟩
  · rw [isLength]
    exact later_lt_length fits firstLe noneBefore reads
  · rcases competitor reads sameLength with ⟨k, readsToo, same⟩ | farther
    · rw [← same]
      exact isBest.nearest k readsToo
    · exact farther.le
  · rcases competitor reads sameLength with ⟨k, readsToo, same⟩ | farther
    · refine isBest.even_of_tie k readsToo ?_ (same ▸ tie)
      rintro rfl
      exact differs same.symm
    · exact absurd tie farther.ne

end Found

/-- No magnitude lies halfway between nine and ten units of a grid on which nine units read as
it. -/
theorem not_halfway_to_ten {first : ℤ} (reads : toBits ⟨9, first⟩ = bits)
    (isHalfway : 2 * Binary64.value bits = 19 * 10 ^ first) : False := by
  have isNearest := toBits_eq_iff.mp reads
  have unitPositive : (0 : ℚ) < 10 ^ first := by positivity
  obtain ⟨place, mantissa, rfl, lt, isLeading, -⟩ := exists_mantissa bits
  have isValue := value_ofMantissa lt.le isLeading
  rcases isLeading with rfl | atLeast
  · -- the power of five in the unit does not divide a multiple of the least double
    rw [isValue, Nat.cast_zero, zero_sub, zpow_neg, ← div_eq_mul_inv, mul_div_assoc',
      div_eq_iff (by positivity), zpow_ofNat] at isHalfway
    have isTiny : 2 * mantissa < 2 ^ 1074 := by
      have fits : 4 * leadingBit < 2 ^ 1074 := by decide +kernel
      omega
    have notFifth : 19 * 2 ^ 1074 % 5 ≠ 0 := by decide +kernel
    rcases lt_or_ge first 0 with negative | nonneg
    · obtain ⟨places, rfl⟩ : ∃ places : Nat, first = -(places + 1 : ℕ) :=
        ⟨(-first).toNat - 1, by omega⟩
      rw [zpow_neg, zpow_natCast, mul_right_comm, ← div_eq_mul_inv, eq_div_iff (by positivity)]
        at isHalfway
      have isWhole : 2 * mantissa * 10 ^ (places + 1) = 19 * 2 ^ 1074 := by
        rw [← Nat.cast_inj (R := ℚ)]
        simpa only [Nat.cast_mul, Nat.cast_pow, Nat.cast_ofNat] using isHalfway
      have isFifth : 2 * mantissa * 10 ^ (places + 1) % 5 = 0 := by
        rw [Nat.pow_succ, ← Nat.mul_assoc]
        omega
      exact notFifth (isWhole ▸ isFifth)
    · obtain ⟨places, rfl⟩ := Int.eq_ofNat_of_zero_le nonneg
      have isWhole : 2 * mantissa = 19 * 10 ^ places * 2 ^ 1074 := by
        rw [zpow_natCast] at isHalfway
        rw [← Nat.cast_inj (R := ℚ)]
        simpa only [Nat.cast_mul, Nat.cast_pow, Nat.cast_ofNat] using isHalfway
      have atLeastOne : 2 ^ 1074 ≤ 19 * 10 ^ places * 2 ^ 1074 :=
        Nat.le_mul_of_pos_left _ (Nat.mul_pos (by omega) (Nat.pow_pos (by omega)))
      rw [← isWhole] at atLeastOne
      exact Nat.not_le_of_lt isTiny atLeastOne
  · -- half a unit is too much next to a mantissa with its leading bit
    have isLarge : (2 : ℚ) ^ 52 ≤ mantissa := by
      have isLeadingBit : (leadingBit : ℚ) = 2 ^ 52 := by norm_num [leadingBit]
      rw [← isLeadingBit]
      exact_mod_cast atLeast
    obtain ⟨lower, isLower⟩ : ∃ lower, lower + 1 = place * leadingBit + mantissa :=
      ⟨place * leadingBit + mantissa - 1, by
        have : 0 < leadingBit := by decide
        omega⟩
    have notBelow := (abs_sub_le_abs_sub_iff (value_strictMono (by omega))).mp
      (isNearest.nearest lower (by have := isNearest.le_infinity; omega))
    have binaryPositive : (0 : ℚ) < 2 ^ ((place : ℤ) - 1074) := by positivity
    rw [isValue] at isHalfway
    simp only [value, Nat.cast_ofNat] at notBelow
    rcases value_pred_add_value lt.le (.inr atLeast) isLower with half | ⟨-, isFirst, quarter⟩
    · nlinarith
    · rw [isFirst] at isHalfway isLarge
      nlinarith

/-- If ten units of the first grid are the best decimal on it, the next power of ten is the shortest
decimal. -/
theorem isShortest_of_ten {first : ℤ} (fits : bits ≤ infinity)
    (ltNext : Binary64.value bits < 10 ^ (first + 1))
    (below : value ⟨10, first⟩ ≤ Binary64.value bits + 10 ^ first)
    (isBest : IsBestOnGrid bits ⟨10, first⟩) : IsShortest bits ⟨1, first + 1⟩ := by
  have unitPositive : (0 : ℚ) < 10 ^ first := by positivity
  have tenUnits : value ⟨10, first⟩ = 10 * 10 ^ first := rfl
  have nineUnits : value ⟨9, first⟩ = 9 * 10 ^ first := rfl
  have isNext : value ⟨1, first + 1⟩ = 10 * 10 ^ first := by
    rw [value, Nat.cast_one, one_mul, zpow_add_one₀ (by norm_num), mul_comm]
  rw [zpow_add_one₀ (by norm_num)] at ltNext
  rw [tenUnits] at below
  have competitor {other : Decimal} (reads : other.toBits = bits)
      (sameLength : length other.digits = length 1) :=
    onGrid_or_farther fits (by linarith)
      (fun earlier (lt : earlier < 0) => absurd lt (Nat.not_lt_zero earlier)) (by simp) isBest reads
      sameLength.le
  refine ⟨(toBits_congr (isNext.trans tenUnits.symm)).trans isBest.reads, fun other _ => ?_,
    fun other reads sameLength => ?_, fun other reads sameLength differs tie => ?_⟩
  · exact length_digit_le (by omega : 1 < 10) other.digits
  · rw [isNext, ← tenUnits]
    rcases competitor reads sameLength with ⟨k, readsToo, same⟩ | farther
    · rw [← same]
      exact isBest.nearest k readsToo
    · exact farther.le
  · exfalso
    rw [isNext, ← tenUnits] at differs tie
    rcases competitor reads sameLength with ⟨k, readsToo, same⟩ | farther
    · -- then nine units are as near, and the magnitude is halfway between them and ten
      have otherUnits : other.value = k * 10 ^ first := same.symm
      have isBelowTen : k ≤ 9 := by
        by_contra above
        have isAbove : 10 < k := by
          refine Nat.lt_of_le_of_ne (by omega) ?_
          rintro rfl
          exact differs same.symm
        have isFarther : (10 : ℚ) + 1 ≤ k := by exact_mod_cast isAbove
        rw [tenUnits, otherUnits, abs_of_nonpos (by linarith), abs_of_nonpos (by nlinarith)] at tie
        nlinarith
      have notAboveNine : (k : ℚ) ≤ 9 := by exact_mod_cast isBelowTen
      have readsNine : toBits ⟨9, first⟩ = bits := by
        refine toBits_between fits readsToo (.inl ⟨value_le_value_iff.mpr isBelowTen, ?_⟩)
        rw [nineUnits]
        linarith
      have notNearer := isBest.nearest 9 readsNine
      simp only [tenUnits, nineUnits] at notNearer
      rw [abs_of_nonpos (by linarith), abs_of_nonneg (by linarith)] at notNearer
      rw [tenUnits, otherUnits, abs_of_nonpos (by linarith), abs_of_nonneg (by nlinarith)] at tie
      refine not_halfway_to_ten readsNine (le_antisymm ?_ ?_) <;> nlinarith
    · exact absurd tie farther.ne

/-- The number that the search finds is that of the shortest decimal. -/
theorem exists_isShortest (isPositive : 0 < bits) (isFinite : bits < infinity) :
    ∃ d, IsShortest bits d ∧ d.value = (shortest bits).value := by
  obtain ⟨first, later, firstLe, ltNext, isExponent, isBest, above, below, noneBefore⟩ :=
    shortest_spec isPositive isFinite
  set d := shortest bits
  have unitPositive : (0 : ℚ) < 10 ^ (first - later : ℤ) := by positivity
  have nextPower : (10 : ℚ) ^ (first + 1) = 10 ^ (later + 1) * 10 ^ (first - later : ℤ) := by
    rw [← zpow_natCast, ← zpow_add₀ (by norm_num)]
    congr 1
    push_cast
    ring
  have digitsLe : d.digits ≤ 10 ^ (later + 1) := by
    have less : (d.digits : ℚ) < 10 ^ (later + 1) + 1 := by
      rw [← mul_lt_mul_iff_of_pos_right unitPositive, add_mul, one_mul, ← nextPower]
      rw [value, isExponent] at below
      linarith
    exact Nat.lt_succ_iff.mp (by exact_mod_cast less)
  rcases Nat.lt_or_eq_of_le digitsLe with isBelow | isPower
  · exact ⟨d, isShortest_of_lt isFinite.le firstLe noneBefore isExponent isBest isBelow, rfl⟩
  · -- a power of ten is on the first grid already
    have isNext : value ⟨10, first - (0 : ℕ)⟩ = d.value := by
      rw [Nat.cast_zero, sub_zero, value, value, isPower, isExponent, Nat.cast_pow, Nat.cast_ofNat,
        ← nextPower, zpow_add_one₀ (by norm_num), mul_comm]
    obtain rfl : later = 0 := by
      by_contra isLater
      exact noneBefore 0 (Nat.pos_of_ne_zero isLater) 10 ((toBits_congr isNext).trans isBest.reads)
    have isTen : d = ⟨10, first⟩ := by
      rw [Nat.cast_zero, sub_zero] at isExponent
      rw [← isExponent]
      exact congrArg (fun digits => (⟨digits, d.exponent⟩ : Decimal)) isPower
    rw [Nat.cast_zero, sub_zero] at below isNext
    rw [isTen] at isBest below ⊢
    refine ⟨⟨1, first + 1⟩, isShortest_of_ten isFinite.le ltNext below isBest, ?_⟩
    exact (value_shift 1 first 1).symm

/-- Zero is its own shortest decimal. -/
theorem isShortest_zero (exponent : ℤ) : IsShortest 0 ⟨0, exponent⟩ := by
  have noValue : value ⟨0, exponent⟩ = Binary64.value 0 := by
    rw [value, Nat.cast_zero, zero_mul, Binary64.value_zero]
  refine ⟨rfl, fun other _ => length_digit_le (by omega : 0 < 10) other.digits, fun other _ _ => ?_,
    fun _ _ _ _ _ => rfl⟩
  · rw [noValue, sub_self, abs_zero]
    exact abs_nonneg _

/-! ## Uniqueness -/

/-- A number has no more digits than a greater one. -/
theorem length_mono {a b : Nat} (le : a ≤ b) : length a ≤ length b :=
  (length_le_iff (length_pos b)).mpr (le.trans_lt (lt_pow_length b))

/-- A decimal other than zero is at least the power of ten of its first digit. -/
theorem pow_le_value {d : Decimal} (isPositive : 0 < d.digits) :
    (10 : ℚ) ^ (d.exponent + length d.digits - 1) ≤ d.value := by
  have digitsAbove : (10 : ℚ) ^ ((length d.digits : ℤ) - 1) ≤ d.digits :=
    (length_spec isPositive).1
  calc (10 : ℚ) ^ (d.exponent + length d.digits - 1)
      = 10 ^ ((length d.digits : ℤ) - 1) * 10 ^ d.exponent := by
        rw [← zpow_add₀ (by norm_num)]
        congr 1
        ring
    _ ≤ d.digits * 10 ^ d.exponent := by gcongr

/-- All shortest decimals of a magnitude are the same number. -/
theorem IsShortest.value_unique {d e : Decimal} (fits : bits ≤ infinity)
    (isShortest : IsShortest bits d) (isShortestToo : IsShortest bits e) : d.value = e.value := by
  by_contra differ
  wlog less : d.value < e.value generalizing d e
  · exact this isShortestToo isShortest (Ne.symm differ)
      (lt_of_le_of_ne (not_lt.mp less) (Ne.symm differ))
  have sameLength : length d.digits = length e.digits :=
    le_antisymm (isShortest.fewest e isShortestToo.reads)
      (isShortestToo.fewest d isShortest.reads)
  have tie : |Binary64.value bits - d.value| = |Binary64.value bits - e.value| :=
    le_antisymm (isShortest.nearest e isShortestToo.reads sameLength.symm)
      (isShortestToo.nearest d isShortest.reads sameLength)
  have isEven := isShortest.even_of_tie e isShortestToo.reads sameLength.symm (Ne.symm differ) tie
  have isEvenToo := isShortestToo.even_of_tie d isShortest.reads sameLength differ tie.symm
  have isMiddle : d.value + e.value = 2 * Binary64.value bits :=
    le_antisymm ((abs_sub_le_abs_sub_iff less).mp tie.ge) ((abs_sub_le_abs_sub_iff' less).mp tie.le)
  have isPositive : 0 < e.digits := by
    by_contra isZero
    have noValue : e.value = 0 := by
      rw [value, Nat.eq_zero_of_not_pos isZero, Nat.cast_zero, zero_mul]
    linarith [value_nonneg d]
  -- a decimal between the two would read as the magnitude and be nearer
  have noneBetween (p : Decimal) (isShort : length p.digits ≤ length d.digits)
      (above : d.value < p.value) (below : p.value < e.value) : False := by
    have reads : p.toBits = bits := by
      rcases le_total p.value (Binary64.value bits) with le | ge
      · exact toBits_between fits isShortest.reads (.inl ⟨above.le, le⟩)
      · exact toBits_between fits isShortestToo.reads (.inr ⟨ge, below.le⟩)
    have isShortToo : length p.digits = length d.digits :=
      le_antisymm isShort (isShortest.fewest p reads)
    have fromBelow := (abs_sub_le_abs_sub_iff' above).mp (isShortest.nearest p reads isShortToo)
    have fromAbove := (abs_sub_le_abs_sub_iff below).mp
      (isShortestToo.nearest p reads (isShortToo.trans sameLength))
    linarith
  rcases Nat.eq_zero_or_pos d.digits with isZero | isPositiveToo
  · have noValue : d.value = 0 := by rw [value, isZero, Nat.cast_zero, zero_mul]
    refine noneBetween ⟨1, e.exponent⟩ (length_digit_le (by omega : 1 < 10) _) ?_ ?_
    · rw [noValue, value]
      positivity
    · exact value_lt_value_iff.mpr (by omega : 1 < e.digits)
  rcases lt_trichotomy d.exponent e.exponent with lt | same | gt
  · -- the next power of ten after the lesser one lies between them or is the greater one
    have hasDigit := length_pos d.digits
    have isPower : value ⟨1, d.exponent + length d.digits⟩ =
        10 ^ (d.exponent + length d.digits) := by
      rw [value, Nat.cast_one, one_mul]
    have above : d.value < value ⟨1, d.exponent + length d.digits⟩ := by
      rw [isPower]
      exact value_lt_pow d
    have powerLe : value ⟨1, d.exponent + length d.digits⟩ ≤ e.value := by
      rw [isPower]
      exact (zpow_le_zpow_right₀ (by norm_num) (by omega)).trans (pow_le_value isPositive)
    rcases lt_or_eq_of_le powerLe with below | isNext
    · exact noneBetween _ (length_digit_le (by omega : 1 < 10) _) above below
    · have isShort : length d.digits ≤ 1 :=
        (isShortest.fewest _ ((toBits_congr isNext).trans isShortestToo.reads)).trans
          ((length_le_iff Nat.one_pos).mpr (by omega : 1 < 10 ^ 1))
      have digitsLe : e.digits ≤ 1 := by
        have notAbove : value ⟨e.digits, e.exponent⟩ ≤ value ⟨1, e.exponent⟩ := by
          calc value ⟨e.digits, e.exponent⟩ = 10 ^ (d.exponent + length d.digits) :=
                isNext.symm.trans isPower
            _ ≤ 10 ^ e.exponent := zpow_le_zpow_right₀ (by norm_num) (by omega)
            _ = value ⟨1, e.exponent⟩ := by rw [value, Nat.cast_one, one_mul]
        exact value_le_value_iff.mp notAbove
      omega
  · have lessDigits : d.digits < e.digits := by
      have onGrid : value ⟨d.digits, e.exponent⟩ < value ⟨e.digits, e.exponent⟩ := by
        simpa only [value, same] using less
      exact value_lt_value_iff.mp onGrid
    refine noneBetween ⟨d.digits + 1, e.exponent⟩ ?_ ?_ ?_
    · rw [sameLength]
      exact length_mono lessDigits
    · have step : value ⟨d.digits, e.exponent⟩ < value ⟨d.digits + 1, e.exponent⟩ :=
        value_lt_value_iff.mpr (Nat.lt_succ_self _)
      simpa only [value, same] using step
    · exact value_lt_value_iff.mpr (by omega : d.digits + 1 < e.digits)
  · have below := value_lt_pow e
    have above := pow_le_value isPositiveToo
    have powers : (10 : ℚ) ^ (e.exponent + length e.digits) ≤
        10 ^ (d.exponent + length d.digits - 1) :=
      zpow_le_zpow_right₀ (by norm_num) (by omega)
    linarith

end LispShell.Decimal
