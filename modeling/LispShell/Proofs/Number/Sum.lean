import LispShell.Proofs.Number.Rounding

/-! # Sums and differences
A double is the rounding of a number if its magnitude is nearest to that of the number and its sign
is that of the number, and a positive zero for zero. Sums and differences of finite doubles are the
roundings of the exact ones. Whole numbers up to `2 ^ 53` are counted up and down by one without
rounding, and only the number one is left as zero by the count. -/

namespace LispShell.Binary64

open Float.Model Float.Model.UnpackedFloat

/-- A number with a sign. -/
def signed (negative : Bool) (q : ℚ) : ℚ :=
  if negative then -q else q

/-- The value of a double. Infinities and what is not a number have values beyond all finite
ones. -/
def signedValue (x : Float) : ℚ :=
  signed (isNegative x) (value (magnitude x))

/-- Whether a double is the rounding of a number. -/
structure IsRounded (q : ℚ) (x : Float) : Prop where
  /-- The magnitude is nearest to that of the number. -/
  nearest : IsNearest |q| (magnitude x)
  /-- The sign is that of the number, and zero is positive. -/
  sign : isNegative x = decide (q < 0)

/-- A number has one rounding. -/
theorem IsRounded.unique {q : ℚ} {x y : Float} (isRounded : IsRounded q x)
    (isRoundedToo : IsRounded q y) : x = y :=
  eq_of_parts (isRounded.sign.trans isRoundedToo.sign.symm)
    (isRounded.nearest.unique isRoundedToo.nearest)

/-- What is packed with the magnitude nearest to a number and with its sign is its rounding. -/
theorem isRounded_of_toNat_pack {f : UnpackedFloat} {q : ℚ} {bits : Nat}
    (isNearest : IsNearest |q| bits)
    (isPacked : (UnpackedFloat.pack Format.binary64 f).toNat =
      (if decide (q < 0) then signBit else 0) + bits) :
    IsRounded q (.ofModel (.pack f)) := by
  obtain ⟨isMagnitude, isSign⟩ :=
    parts_of_toNat_pack (isNearest.le_infinity.trans_lt (by decide)) isPacked
  exact ⟨isMagnitude.symm ▸ isNearest, isSign⟩

/-- A signed mantissa and an exponent are normalized to the rounding of their value. -/
theorem isRounded_normalize (mantissa exponent : ℤ) :
    IsRounded (mantissa * 2 ^ exponent)
      (.ofModel (.pack (UnpackedFloat.normalize Format.binary64 mantissa exponent .positive))) := by
  have isPositive : (0 : ℚ) < 2 ^ exponent := by positivity
  rcases Int.lt_trichotomy mantissa 0 with isBelow | rfl | isAbove
  · have isRound : UnpackedFloat.normalize Format.binary64 mantissa exponent .positive =
        UnpackedFloat.round Format.binary64 (signOf true) (-mantissa).toNat exponent := by
      rw [UnpackedFloat.normalize, Int.compare_eq_lt.mpr isBelow]
      rfl
    obtain ⟨isNearest, isSign⟩ := isNearest_round (by omega : 0 < (-mantissa).toNat) exponent true
    have isWhole : (((-mantissa).toNat : ℤ) : ℚ) = -mantissa := by
      rw [Int.toNat_of_nonneg (by omega), Int.cast_neg]
    have isMantissa : (mantissa : ℚ) < 0 := Int.cast_lt_zero.mpr isBelow
    have isValue : |(mantissa : ℚ) * 2 ^ exponent| = (-mantissa).toNat * 2 ^ exponent := by
      rw [abs_mul, abs_of_neg isMantissa, abs_of_pos isPositive, ← isWhole, Int.cast_natCast]
    rw [isRound]
    exact ⟨isValue ▸ isNearest, isSign.trans (decide_eq_true
      (mul_neg_of_neg_of_pos isMantissa isPositive)).symm⟩
  · have isNearest : IsNearest |(0 : ℚ)| 0 := by
      rw [abs_zero, ← value_zero]
      exact isNearest_value (Nat.zero_le infinity)
    have isZero : UnpackedFloat.normalize Format.binary64 0 exponent .positive =
        .zero .positive := rfl
    rw [Int.cast_zero, zero_mul, isZero]
    exact isRounded_of_toNat_pack isNearest (by decide)
  · have isRound : UnpackedFloat.normalize Format.binary64 mantissa exponent .positive =
        UnpackedFloat.round Format.binary64 (signOf false) mantissa.toNat exponent := by
      rw [UnpackedFloat.normalize, Int.compare_eq_gt.mpr isAbove]
      rfl
    obtain ⟨isNearest, isSign⟩ := isNearest_round (by omega : 0 < mantissa.toNat) exponent false
    have isWhole : ((mantissa.toNat : ℤ) : ℚ) = mantissa := by
      rw [Int.toNat_of_nonneg (by omega)]
    have isMantissa : 0 < (mantissa : ℚ) := Int.cast_pos.mpr isAbove
    have isValue : |(mantissa : ℚ) * 2 ^ exponent| = mantissa.toNat * 2 ^ exponent := by
      rw [abs_of_pos (mul_pos isMantissa isPositive), ← isWhole, Int.cast_natCast]
    rw [isRound]
    exact ⟨isValue ▸ isNearest, isSign.trans (decide_eq_false
      (mul_pos isMantissa isPositive).not_gt).symm⟩

/-! ## Taking doubles apart -/

/-- A finite magnitude other than zero is taken apart into a mantissa and an exponent of its
value. -/
theorem exists_unpacked {bits : Nat} (isPositive : 0 < bits) (isFinite : bits < infinity) :
    ∃ mantissa exponent, ∃ mantissaPositive : 0 < mantissa,
      (∀ negative, unpacked negative bits =
        .finite (signOf negative) mantissa exponent mantissaPositive) ∧
      (mantissa : ℚ) * 2 ^ exponent = value bits := by
  have hasValue : 0 < value bits := by
    rw [← value_zero]
    exact value_strictMono isPositive
  have mantissaPositive : 0 < (decode bits).1 := by
    rcases Nat.eq_zero_or_pos (decode bits).1 with isZero | mantissaPositive
    · rw [value, isZero, Nat.cast_zero, zero_mul] at hasValue
      exact absurd hasValue (lt_irrefl 0)
    · exact mantissaPositive
  refine ⟨(decode bits).1, (decode bits).2, mantissaPositive, fun negative => ?_, rfl⟩
  rw [unpacked, if_neg isFinite.not_gt, if_neg isFinite.ne, dif_pos mantissaPositive]

/-- A zero is taken apart into its sign. -/
theorem unpacked_zero (negative : Bool) : unpacked negative 0 = .zero (signOf negative) := by
  cases negative <;> rfl

/-- A sign of a mantissa that is shifted to a lower exponent keeps the signed value. -/
theorem apply_decreaseExponent (negative : Bool) {mantissa : Nat} (isPositive : 0 < mantissa)
    {exponent target : ℤ} (le : target ≤ exponent) :
    (((signOf negative).apply (decreaseExponent mantissa exponent target).1 : ℤ) : ℚ) *
      2 ^ target = signed negative (mantissa * 2 ^ exponent) := by
  obtain ⟨isExponent, -, sameValue, -⟩ := decreaseExponent_spec isPositive exponent target
  rw [isExponent, min_eq_right le] at sameValue
  cases negative
  · simp only [signOf, Sign.apply, signed, Bool.false_eq_true, if_false, Int.cast_natCast,
      sameValue]
  · simp only [signOf, Sign.apply, signed, if_true, Int.cast_neg, Int.cast_natCast, neg_mul,
      sameValue]

/-- A magnitude other than zero that is taken apart and packed again is the rounding of its
value. -/
theorem isRounded_unpacked {bits : Nat} (negative : Bool) (isPositive : 0 < bits)
    (fits : bits ≤ infinity) :
    IsRounded (signed negative (value bits)) (.ofModel (.pack (unpacked negative bits))) := by
  have hasValue : 0 < value bits := by
    rw [← value_zero]
    exact value_strictMono isPositive
  have isNearest : IsNearest |signed negative (value bits)| bits := by
    have isMagnitude : |signed negative (value bits)| = value bits := by
      cases negative
      · exact abs_of_pos hasValue
      · exact (abs_neg _).trans (abs_of_pos hasValue)
    exact isMagnitude.symm ▸ isNearest_value fits
  have isSign : decide (signed negative (value bits) < 0) = negative := by
    cases negative
    · exact decide_eq_false hasValue.not_gt
    · exact decide_eq_true (neg_lt_zero.mpr hasValue)
  refine isRounded_of_toNat_pack isNearest ?_
  rw [toNat_pack_unpacked fits, isSign]

/-! ## Sums and differences -/

section Operations

variable {x y : Float}

/-- Zero has the value zero. -/
theorem signedValue_of_zero (isZero : magnitude x = 0) : signedValue x = 0 := by
  rw [signedValue, isZero, value_zero]
  cases isNegative x
  · rfl
  · exact neg_zero

/-- The difference of a finite double and one other than zero is the rounding of the exact one. -/
theorem isRounded_sub (isFinite : magnitude x < infinity) (isFiniteToo : magnitude y < infinity)
    (notZero : 0 < magnitude y) : IsRounded (signedValue x - signedValue y) (x - y) := by
  have isModel : x - y = .ofModel (.pack (UnpackedFloat.sub Format.binary64
      (unpacked (isNegative x) (magnitude x)) (unpacked (isNegative y) (magnitude y)))) := by
    rw [← unpack_toModel, ← unpack_toModel]
    rfl
  obtain ⟨mantissa, exponent, isPositive, isUnpacked, isValue⟩ :=
    exists_unpacked notZero isFiniteToo
  rcases Nat.eq_zero_or_pos (magnitude x) with isZero | notZeroToo
  · -- zero less a double is the double with the other sign
    have isFlipped : UnpackedFloat.sub Format.binary64 (unpacked (isNegative x) (magnitude x))
        (unpacked (isNegative y) (magnitude y)) = unpacked (!isNegative y) (magnitude y) := by
      rw [isZero, unpacked_zero, isUnpacked, isUnpacked]
      cases isNegative y
      · rfl
      · rfl
    have isNegated : signedValue x - signedValue y =
        signed (!isNegative y) (value (magnitude y)) := by
      rw [signedValue_of_zero isZero, zero_sub, signedValue]
      cases isNegative y
      · rfl
      · exact neg_neg _
    rw [isModel, isFlipped, isNegated]
    exact isRounded_unpacked _ notZero isFiniteToo.le
  · obtain ⟨mantissaToo, exponentToo, isPositiveToo, isUnpackedToo, isValueToo⟩ :=
      exists_unpacked notZeroToo isFinite
    -- at the lower of the two exponents the difference of the mantissas is exact
    have isRounded := isRounded_normalize
      ((signOf (isNegative x)).apply
          (decreaseExponent mantissaToo exponentToo (min exponentToo exponent)).1 -
        (signOf (isNegative y)).apply
          (decreaseExponent mantissa exponent (min exponentToo exponent)).1)
      (min exponentToo exponent)
    rw [Int.cast_sub, sub_mul, apply_decreaseExponent _ isPositiveToo (min_le_left _ _),
      apply_decreaseExponent _ isPositive (min_le_right _ _), isValue, isValueToo] at isRounded
    rw [isModel, isUnpacked, isUnpackedToo]
    exact isRounded

/-- The sum of a finite double other than zero and another one is the rounding of the exact one. -/
theorem isRounded_add (isFinite : magnitude x < infinity) (isFiniteToo : magnitude y < infinity)
    (notZero : 0 < magnitude x) : IsRounded (signedValue x + signedValue y) (x + y) := by
  have isModel : x + y = .ofModel (.pack (UnpackedFloat.add Format.binary64
      (unpacked (isNegative x) (magnitude x)) (unpacked (isNegative y) (magnitude y)))) := by
    rw [← unpack_toModel, ← unpack_toModel]
    rfl
  obtain ⟨mantissa, exponent, isPositive, isUnpacked, isValue⟩ :=
    exists_unpacked notZero isFinite
  rcases Nat.eq_zero_or_pos (magnitude y) with isZero | notZeroToo
  · have isKept : UnpackedFloat.add Format.binary64 (unpacked (isNegative x) (magnitude x))
        (unpacked (isNegative y) (magnitude y)) = unpacked (isNegative x) (magnitude x) := by
      rw [isZero, unpacked_zero, isUnpacked]
      rfl
    rw [isModel, isKept, signedValue_of_zero isZero, add_zero]
    exact isRounded_unpacked _ notZero isFinite.le
  · obtain ⟨mantissaToo, exponentToo, isPositiveToo, isUnpackedToo, isValueToo⟩ :=
      exists_unpacked notZeroToo isFiniteToo
    -- at the lower of the two exponents the sum of the mantissas is exact
    have isRounded := isRounded_normalize
      ((signOf (isNegative x)).apply
          (decreaseExponent mantissa exponent (min exponent exponentToo)).1 +
        (signOf (isNegative y)).apply
          (decreaseExponent mantissaToo exponentToo (min exponent exponentToo)).1)
      (min exponent exponentToo)
    rw [Int.cast_add, add_mul, apply_decreaseExponent _ isPositive (min_le_left _ _),
      apply_decreaseExponent _ isPositiveToo (min_le_right _ _), isValue, isValueToo] at isRounded
    rw [isModel, isUnpacked, isUnpackedToo]
    exact isRounded

end Operations

end LispShell.Binary64
