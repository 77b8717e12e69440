import LispShell.Number.Decimal
import LispShell.Proofs.Number.Nearest

/-! # Reading decimals
A decimal reads as the magnitude that is nearest to its value, whichever of the two bounds on the
exponent it is beyond. So the decimals that read as one magnitude lie in one interval, and the
value of the magnitude lies among them. -/

namespace LispShell.Decimal

open Binary64

/-- The value of a decimal. -/
def value (d : Decimal) : ℚ :=
  d.digits * 10 ^ d.exponent

variable {d other : Decimal} {bits : Nat}

/-- No value is negative. -/
theorem value_nonneg (d : Decimal) : 0 ≤ d.value := by
  unfold value
  positivity

/-- On one grid more digits have a greater value. -/
theorem value_le_value_iff {a b : Nat} {exponent : ℤ} :
    value ⟨a, exponent⟩ ≤ value ⟨b, exponent⟩ ↔ a ≤ b := by
  have isPositive : (0 : ℚ) < 10 ^ exponent := by positivity
  simp only [value, mul_le_mul_iff_of_pos_right isPositive, Nat.cast_le]

/-- A decimal written on a finer grid. -/
theorem value_shift (digits : Nat) (exponent : ℤ) (places : Nat) :
    value ⟨digits * 10 ^ places, exponent⟩ = value ⟨digits, exponent + places⟩ := by
  simp only [value]
  rw [zpow_add₀ (by norm_num), zpow_natCast]
  push_cast
  ring

/-! ## Lengths -/

/-- A number has no more decimal digits than the powers of ten above it. -/
theorem length_le_iff {n count : Nat} (isPositive : 0 < count) :
    length n ≤ count ↔ n < 10 ^ count :=
  Nat.length_toDigits_le_iff (by omega) isPositive

/-- Every number has a digit. -/
theorem length_pos (n : Nat) : 0 < length n :=
  Nat.length_toDigits_pos

/-- No number has fewer digits than a single digit. -/
theorem length_digit_le {digit : Nat} (isDigit : digit < 10) (n : Nat) :
    length digit ≤ length n :=
  ((length_le_iff Nat.one_pos).mpr isDigit).trans (length_pos n)

/-- A number is less than the power of ten of its length. -/
theorem lt_pow_length (n : Nat) : n < 10 ^ length n :=
  (length_le_iff (length_pos n)).mp (le_refl _)

/-- A positive number is at least the power of ten before its first digit. -/
theorem pow_length_le {n : Nat} (isPositive : 0 < n) : 10 ^ (length n - 1) ≤ n := by
  rcases Nat.lt_or_ge 1 (length n) with isLong | isShort
  · by_contra less
    have := (length_le_iff (by omega)).mpr (Nat.lt_of_not_le less)
    omega
  · have isOne : length n - 1 = 0 := by omega
    rw [isOne, pow_zero]
    exact isPositive

/-! ## The nearest magnitude -/

/-- A number that is not below the value of infinity is nearest to it. -/
theorem isNearest_infinity {q : ℚ} (le : Binary64.value infinity ≤ q) : IsNearest q infinity := by
  have isEven : infinity % 2 = 0 := by decide
  refine isNearest_of_middles (le_refl _) (fun lower isLower => ?_)
    (fun lt => absurd lt (lt_irrefl _)) (fun _ _ _ => isEven) (fun _ => isEven)
  have lowerLe : Binary64.value lower ≤ Binary64.value infinity :=
    value_strictMono.monotone (by omega)
  linarith

/-- A number that is not above half of the least double is nearest to zero. -/
theorem isNearest_zero {q : ℚ} (le : 2 * q ≤ Binary64.value 1) : IsNearest q 0 := by
  refine isNearest_of_middles (Nat.zero_le _) (fun lower isLower => absurd isLower (by omega))
    (fun _ => ?_) (fun _ _ _ => rfl) (fun _ => rfl)
  rw [Binary64.value_zero, zero_add]
  exact le

/-- A number is less than the power of ten of a third of its binary length, and one. -/
theorem lt_pow_log2 (n : Nat) : n < 10 ^ (Nat.log2 n / 3 + 1) := by
  calc n < 2 ^ (Nat.log2 n + 1) := Nat.lt_log2_self
    _ ≤ 2 ^ (3 * (Nat.log2 n / 3 + 1)) := Nat.pow_le_pow_right (by omega) (by omega)
    _ = 8 ^ (Nat.log2 n / 3 + 1) := by rw [Nat.pow_mul]
    _ ≤ 10 ^ (Nat.log2 n / 3 + 1) := Nat.pow_le_pow_left (by omega) _

/-- A decimal reads as the nearest magnitude. -/
theorem isNearest_toBits (d : Decimal) : IsNearest d.value d.toBits := by
  unfold toBits
  split
  next isZero =>
    have noValue : d.value = 0 := by rw [value, isZero, Nat.cast_zero, zero_mul]
    rw [noValue]
    exact Binary64.value_zero ▸ isNearest_value (Nat.zero_le infinity)
  next notZero =>
  have atLeastOne : (1 : ℚ) ≤ d.digits := by exact_mod_cast Nat.one_le_iff_ne_zero.mpr notZero
  split
  next isHuge =>
    apply isNearest_infinity
    have isDecoded : decode infinity = (leadingBit, 972) := by decide
    have greatest : leadingBit * 2 ^ 972 ≤ 10 ^ 309 := by decide +kernel
    calc Binary64.value infinity = (leadingBit * 2 ^ 972 : ℕ) := by
          rw [Binary64.value, isDecoded, Nat.cast_mul, Nat.cast_pow, Nat.cast_ofNat]
          exact congrArg _ (zpow_natCast 2 972)
      _ ≤ 10 ^ (309 : ℤ) := by exact_mod_cast greatest
      _ ≤ 10 ^ d.exponent := zpow_le_zpow_right₀ (by norm_num) (by omega)
      _ ≤ d.value := le_mul_of_one_le_left (by positivity) atLeastOne
  split
  next isTiny =>
    apply isNearest_zero
    have digitsBelow : (d.digits : ℚ) ≤ 10 ^ (Nat.log2 d.digits / 3 + 1) := by
      exact_mod_cast (lt_pow_log2 d.digits).le
    have valueBelow : d.value ≤ 10 ^ (-324 : ℤ) := by
      calc d.value ≤ 10 ^ (Nat.log2 d.digits / 3 + 1) * 10 ^ d.exponent :=
            mul_le_mul_of_nonneg_right digitsBelow (by positivity)
        _ = 10 ^ (((Nat.log2 d.digits / 3 + 1 : ℕ) : ℤ) + d.exponent) := by
            rw [zpow_add₀ (by norm_num), zpow_natCast]
        _ ≤ 10 ^ (-324 : ℤ) := zpow_le_zpow_right₀ (by norm_num) (by push_cast; omega)
    have least : 2 * 2 ^ 1074 ≤ 10 ^ 324 := by decide +kernel
    have halfLeast : 2 * (10 : ℚ) ^ (-324 : ℤ) ≤ Binary64.value 1 := by
      have isValue : Binary64.value 1 = 1 / 2 ^ 1074 := by simp [Binary64.value, decode, leadingBit]
      rw [isValue, zpow_neg, ← div_eq_mul_inv, div_le_div_iff₀ (by positivity) (by positivity),
        one_mul]
      exact_mod_cast least
    linarith
  next =>
    have isValue := scale_value (by omega : 0 < 10) d.exponent (d.digits, 1)
    rw [Nat.cast_one, div_one] at isValue
    have isNearest := isNearest_nearest (scale 10 d.exponent (d.digits, 1)).1
      (scale_pos (by omega : 0 < 10) d.exponent (d.digits, 1) Nat.one_pos)
    rw [isValue] at isNearest
    exact isNearest

/-- A decimal reads as a magnitude just if that is nearest to its value. -/
theorem toBits_eq_iff : d.toBits = bits ↔ IsNearest d.value bits := by
  constructor
  · rintro rfl
    exact isNearest_toBits d
  · exact (isNearest_toBits d).unique

/-- Decimals of one value read alike. -/
theorem toBits_congr (same : d.value = other.value) : d.toBits = other.toBits := by
  rw [toBits_eq_iff, same]
  exact isNearest_toBits other

/-- A decimal between the value of a magnitude and a decimal that reads as it reads as it too. -/
theorem toBits_between (fits : bits ≤ infinity) (reads : other.toBits = bits)
    (isBetween : other.value ≤ d.value ∧ d.value ≤ Binary64.value bits ∨
      Binary64.value bits ≤ d.value ∧ d.value ≤ other.value) : d.toBits = bits := by
  have isNearestOther := toBits_eq_iff.mp reads
  have isNearest := isNearest_value fits
  rcases isBetween with ⟨above, below⟩ | ⟨above, below⟩
  · exact isNearestOther.between isNearest (isNearest_toBits d) above below
  · exact isNearest.between isNearestOther (isNearest_toBits d) above below

end LispShell.Decimal
