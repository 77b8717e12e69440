import LispShell.Proofs.Number.Bits

/-! # Rounding in arithmetic
Arithmetic takes a mantissa and an exponent of any size to a double in two moves: the mantissa is
shifted to the last place of the doubles around it, keeping a bit for the half and one for what is
left below it, and a carry out of the rounded mantissa is shifted once more. What comes out is the
nearest magnitude. -/

namespace LispShell.Binary64

open Float.Model Float.Model.UnpackedFloat

/-! ## Shifts -/

/-- A shifted mantissa is the quotient by the power; the two bits below it tell on which side of the
half the remainder lies, and whether it is neither nothing nor the half. -/
theorem shift_spec (mantissa shift : Nat) :
    let shifted := ExtendedMantissa.ofMantissaAndAccuracy mantissa .exact >>> shift
    let rest := mantissa % 2 ^ shift
    shifted.mantissa = mantissa / 2 ^ shift ∧
      (shifted.roundBit = true ↔ 2 ^ shift ≤ 2 * rest) ∧
      (shifted.stickyBit = true ↔ rest ≠ 0 ∧ 2 * rest ≠ 2 ^ shift) := by
  induction shift with
  | zero =>
    refine ⟨(Nat.div_one mantissa).symm, ?_, ?_⟩
    · simp [HShiftRight.hShiftRight, Nat.repeat, ExtendedMantissa.ofMantissaAndAccuracy,
        Nat.mod_one]
    · simp [HShiftRight.hShiftRight, Nat.repeat, ExtendedMantissa.ofMantissaAndAccuracy,
        Nat.mod_one]
  | succ shift inductionHypothesis =>
    obtain ⟨isQuotient, isHalf, isRest⟩ := inductionHypothesis
    set shifted := ExtendedMantissa.ofMantissaAndAccuracy mantissa .exact >>> shift
    have isNext : ExtendedMantissa.ofMantissaAndAccuracy mantissa .exact >>> (shift + 1) =
        shifted.shiftRightOne := rfl
    have isPositive : 0 < 2 ^ shift := Nat.two_pow_pos shift
    have below : mantissa % 2 ^ shift < 2 ^ shift := Nat.mod_lt _ isPositive
    -- one more shift takes the round bit into the sticky one
    have restNext : mantissa % 2 ^ (shift + 1) =
        mantissa % 2 ^ shift + 2 ^ shift * (mantissa / 2 ^ shift % 2) := by
      rw [Nat.pow_succ, Nat.mod_mul]
    simp only [isNext, ExtendedMantissa.shiftRightOne, isQuotient, restNext]
    refine ⟨?_, ?_, ?_⟩
    · rw [Nat.pow_succ, Nat.div_div_eq_div_mul]
    · rw [bne_iff_ne, Nat.pow_succ]
      rcases Nat.mod_two_eq_zero_or_one (mantissa / 2 ^ shift) with isEven | isOdd
      · rw [isEven]
        omega
      · rw [isOdd]
        omega
    · rw [Bool.or_eq_true, isHalf, isRest, Nat.pow_succ]
      rcases Nat.mod_two_eq_zero_or_one (mantissa / 2 ^ shift) with isEven | isOdd
      · rw [isEven]
        omega
      · rw [isOdd]
        omega

/-- The mantissa that is shifted out and rounded is the rounded quotient. -/
theorem roundedMantissa_shift (mantissa shift : Nat) :
    (ExtendedMantissa.ofMantissaAndAccuracy mantissa .exact >>> shift).roundedMantissa =
      roundHalfEven mantissa (2 ^ shift) := by
  obtain ⟨isQuotient, isHalf, isRest⟩ := shift_spec mantissa shift
  generalize ExtendedMantissa.ofMantissaAndAccuracy mantissa .exact >>> shift = shifted at *
  obtain ⟨quotient, roundBit, stickyBit⟩ := shifted
  obtain rfl : quotient = mantissa / 2 ^ shift := isQuotient
  rw [ExtendedMantissa.roundedMantissa, roundHalfEven]
  cases roundBit with
  | false =>
    have isBelow : 2 * (mantissa % 2 ^ shift) < 2 ^ shift := by simpa using isHalf
    rw [if_pos isBelow]
    cases stickyBit <;> rfl
  | true =>
    have atLeast : 2 ^ shift ≤ 2 * (mantissa % 2 ^ shift) := isHalf.mp rfl
    rw [if_neg (Nat.not_lt_of_le atLeast)]
    cases stickyBit with
    | false =>
      have isTie : ¬2 ^ shift < 2 * (mantissa % 2 ^ shift) := by
        have notSticky := isRest.not.mp Bool.false_ne_true
        omega
      rw [if_neg isTie]
      rfl
    | true =>
      have isAbove : 2 ^ shift < 2 * (mantissa % 2 ^ shift) := by
        have := isRest.mp rfl
        omega
      rw [if_pos isAbove]
      rfl

/-! ## The last place -/

/-- The exponent of the last place of the doubles around a number is the least one or the one that
leaves the mantissa its leading bit. -/
theorem targetExponent_eq (total : ℤ) :
    Format.targetExponent Format.binary64 total = max (total - 53) (-1074) := rfl

/-- A mantissa that is shifted to the left keeps its value and its first place. -/
theorem decreaseExponent_spec {mantissa : Nat} (isPositive : 0 < mantissa)
    (exponent target : ℤ) :
    let moved := decreaseExponent mantissa exponent target
    moved.2 = min exponent target ∧ 0 < moved.1 ∧
      (moved.1 : ℚ) * 2 ^ moved.2 = mantissa * 2 ^ exponent ∧
      totalExponent moved.1 moved.2 = totalExponent mantissa exponent := by
  intro moved
  have isMoved : moved = (mantissa <<< (exponent - target).toNat,
      exponent - (exponent - target).toNat) := rfl
  rw [isMoved]
  refine ⟨by omega, ?_, ?_, ?_⟩
  · rw [Nat.shiftLeft_eq]
    exact Nat.mul_pos isPositive (Nat.two_pow_pos _)
  · rw [Nat.shiftLeft_eq, Nat.cast_mul, Nat.cast_pow, Nat.cast_ofNat, ← zpow_natCast, mul_assoc,
      ← zpow_add₀ (by norm_num)]
    congr 2
    omega
  · have isLog : Nat.log2 (mantissa <<< (exponent - target).toNat) =
        Nat.log2 mantissa + (exponent - target).toNat := by
      have stillPositive := Nat.mul_pos isPositive (Nat.two_pow_pos (exponent - target).toNat)
      rw [Nat.shiftLeft_eq, Nat.log2_eq_iff stillPositive.ne', Nat.add_right_comm, Nat.pow_add,
        Nat.pow_add]
      exact ⟨Nat.mul_le_mul_right _ (Nat.log2_self_le isPositive.ne'),
        Nat.mul_lt_mul_of_pos_right Nat.lt_log2_self (Nat.two_pow_pos _)⟩
    rw [totalExponent, totalExponent, isLog]
    push_cast
    ring

/-- A rounded mantissa is shifted once more just if it carries, and its magnitude stays. -/
theorem exists_shift_rounded {place rounded : Nat} (fits : rounded ≤ 2 * leadingBit)
    (isLeading : place = 0 ∨ leadingBit ≤ rounded) :
    ∃ final finalPlace : Nat,
      shiftToTargetExponent Format.binary64 rounded ((place : ℤ) - 1074) .exact =
        (⟨final, false, false⟩, (finalPlace : ℤ) - 1074) ∧
      final < 2 * leadingBit ∧ (finalPlace = 0 ∨ leadingBit ≤ final) ∧
      finalPlace * leadingBit + final = place * leadingBit + rounded := by
  rw [shiftToTargetExponent, totalExponent, targetExponent_eq, shiftToExponent]
  rcases Nat.lt_or_eq_of_le fits with isBelow | rfl
  · have isLog : Nat.log2 rounded ≤ 52 := by
      rcases Nat.eq_zero_or_pos rounded with rfl | isPositive
      · decide
      · have below : rounded < 2 ^ 53 := by
          simp only [leadingBit] at *
          omega
        exact Nat.lt_succ_iff.mp ((Nat.log2_lt isPositive.ne').mpr below)
    have isNone : (max ((Nat.log2 rounded : ℤ) + 1 + ((place : ℤ) - 1074) - 53) (-1074) -
        ((place : ℤ) - 1074)).toNat = 0 := by omega
    rw [isNone]
    exact ⟨rounded, place, Prod.ext rfl (by simp), isBelow, isLeading, rfl⟩
  · -- a carry leaves a mantissa of one bit, whose last one is zero
    have isLog : Nat.log2 (2 * leadingBit) = 53 := by decide
    have isOne : (max ((Nat.log2 (2 * leadingBit) : ℤ) + 1 + ((place : ℤ) - 1074) - 53) (-1074) -
        ((place : ℤ) - 1074)).toNat = 1 := by
      rw [isLog]
      omega
    rw [isOne]
    refine ⟨leadingBit, place + 1, Prod.ext rfl ?_, by decide, .inr (le_refl _), by ring⟩
    push_cast
    ring

/-- Whatever is rounded to fit is packed with the magnitude of mantissa and place, a carry out of
the mantissa included. -/
theorem toNat_pack_roundWithAccuracy (negative : Bool) {mantissa place shift : Nat} {exponent : ℤ}
    (isPlace : max (totalExponent mantissa exponent - 53) (-1074) = (place : ℤ) - 1074)
    (isShift : exponent + shift = (place : ℤ) - 1074)
    (fits : roundHalfEven mantissa (2 ^ shift) ≤ 2 * leadingBit)
    (isLeading : place = 0 ∨ leadingBit ≤ roundHalfEven mantissa (2 ^ shift)) :
    (UnpackedFloat.pack Format.binary64
        (roundWithAccuracy Format.binary64 (signOf negative) mantissa exponent .exact)).toNat =
      (if negative then signBit else 0) +
        min (place * leadingBit + roundHalfEven mantissa (2 ^ shift)) infinity := by
  have isAmount : (((place : ℤ) - 1074) - exponent).toNat = shift := by omega
  have isFirst : shiftToTargetExponent Format.binary64 mantissa exponent .exact =
      (ExtendedMantissa.ofMantissaAndAccuracy mantissa .exact >>> shift, (place : ℤ) - 1074) := by
    rw [shiftToTargetExponent, targetExponent_eq, isPlace, shiftToExponent, isAmount, isShift]
  obtain ⟨final, finalPlace, isSecond, finalFits, finalLeading, same⟩ :=
    exists_shift_rounded fits isLeading
  rw [roundWithAccuracy, isFirst]
  simp only [roundedMantissa_shift, isSecond]
  split
  next isZero =>
    have isLeast : finalPlace * leadingBit + final = 0 := by
      have isPositive : 0 < leadingBit := by decide
      obtain rfl : finalPlace = 0 := by omega
      omega
    rw [← same, isLeast]
    exact toNat_pack_unpacked (Nat.zero_le infinity)
  next notZero =>
    rw [← same]
    exact toNat_pack_finite (Nat.pos_of_ne_zero notZero) finalFits finalLeading

/-- A mantissa and an exponent are rounded to the nearest magnitude, and the sign stays. -/
theorem isNearest_round {mantissa : Nat} (isPositive : 0 < mantissa) (exponent : ℤ)
    (negative : Bool) :
    let rounded : Float :=
      .ofModel (.pack (UnpackedFloat.round Format.binary64 (signOf negative) mantissa exponent))
    IsNearest (mantissa * 2 ^ exponent) (magnitude rounded) ∧ isNegative rounded = negative := by
  obtain ⟨isExponent, stillPositive, sameValue, sameTotal⟩ := decreaseExponent_spec isPositive
    exponent (Format.targetExponent Format.binary64 (totalExponent mantissa exponent))
  rw [UnpackedFloat.round]
  -- the mantissa is first moved up to the last place, so that what is left is a shift to the right
  set moved := decreaseExponent mantissa exponent
    (Format.targetExponent Format.binary64 (totalExponent mantissa exponent))
  rw [targetExponent_eq] at isExponent
  set target : ℤ := max (totalExponent mantissa exponent - 53) (-1074) with isTarget
  obtain ⟨place, isPlace⟩ : ∃ place : Nat, target = (place : ℤ) - 1074 :=
    ⟨(target + 1074).toNat, by omega⟩
  obtain ⟨shift, isShift⟩ : ∃ shift : Nat, moved.2 + shift = target :=
    ⟨(target - moved.2).toNat, by omega⟩
  have isTotal : totalExponent mantissa exponent = (Nat.log2 moved.1 : ℤ) + 1 + moved.2 :=
    sameTotal.symm
  have leading : leadingBit = 2 ^ 52 := by decide
  have fits : moved.1 < 2 * leadingBit * 2 ^ shift := by
    calc moved.1 < 2 ^ (Nat.log2 moved.1 + 1) := Nat.lt_log2_self
      _ ≤ 2 ^ (53 + shift) := Nat.pow_le_pow_right (by omega) (by omega)
      _ = 2 * leadingBit * 2 ^ shift := by
          rw [leading, ← Nat.pow_succ', ← Nat.pow_add]
  have isLeading : place = 0 ∨ leadingBit * 2 ^ shift ≤ moved.1 := by
    rcases Nat.eq_zero_or_pos place with isLast | notLast
    · exact .inl isLast
    · right
      calc leadingBit * 2 ^ shift = 2 ^ (52 + shift) := by rw [leading, ← Nat.pow_add]
        _ = 2 ^ Nat.log2 moved.1 := by
            congr 1
            omega
        _ ≤ moved.1 := Nat.log2_self_le stillPositive.ne'
  have scalePositive : 0 < 2 ^ shift := Nat.two_pow_pos shift
  have isTargetToo : max (totalExponent moved.1 moved.2 - 53) (-1074) = (place : ℤ) - 1074 := by
    rw [sameTotal]
    exact isPlace
  have isPacked := toNat_pack_roundWithAccuracy negative isTargetToo (isShift.trans isPlace)
    (roundHalfEven_le scalePositive fits) (isLeading.imp_right (le_roundHalfEven scalePositive))
  obtain ⟨isMagnitude, isSign⟩ :=
    parts_of_toNat_pack ((Nat.min_le_right _ _).trans_lt (by decide)) isPacked
  refine ⟨?_, isSign⟩
  have isValue : (moved.1 : ℚ) / (2 ^ shift : ℕ) * 2 ^ ((place : ℤ) - 1074) =
      mantissa * 2 ^ exponent := by
    rw [← sameValue, ← isPlace, ← isShift, zpow_add₀ (by norm_num), zpow_natCast, Nat.cast_pow,
      Nat.cast_ofNat, div_mul_eq_mul_div, ← mul_assoc, mul_div_assoc, div_self (by positivity),
      mul_one]
  have isNearest := isNearest_of_place scalePositive fits isLeading
  rw [isValue] at isNearest
  exact isMagnitude ▸ isNearest

end LispShell.Binary64
