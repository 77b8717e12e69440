import LispShell.Proofs.Number.Count

/-! # Whole numbers and their texts
Below `2 ^ 53` the text of a whole number is its decimal numeral: no shorter decimal reads as the
number, as the doubles next to it are no more than one apart. So a count that goes on from the text
of a difference to the next one, until the text is that of zero, is a count of doubles, save that it
takes no other text of zero for the end. -/

namespace LispShell

open Binary64

namespace Decimal

/-- What reads as a whole number below `2 ^ 53` is less than one off. -/
theorem lt_one_of_reads {d : Decimal} {bits n : Nat} (reads : d.toBits = bits)
    (isValue : Binary64.value bits = n) (isSmall : n < 2 ^ 53) : |(n : ℚ) - d.value| < 1 := by
  have isNearest := toBits_eq_iff.mp reads
  obtain ⟨next, nextFinite, isNext⟩ := exists_value_natCast (Nat.succ_le_of_lt isSmall)
  have notBeyond := isNearest.nearest next nextFinite.le
  rw [isValue, isNext] at notBeyond
  push_cast at notBeyond
  have isAbove : d.value < n + 1 := by
    by_contra isGreat
    rw [abs_of_nonneg (by linarith), abs_of_nonneg (by linarith)] at notBeyond
    linarith
  have isBelow : (n : ℚ) - 1 < d.value := by
    rcases Nat.eq_zero_or_pos n with rfl | isPositive
    · rw [Nat.cast_zero]
      linarith [d.value_nonneg]
    · obtain ⟨before, beforeFinite, isBefore⟩ :=
        exists_value_natCast ((Nat.sub_le n 1).trans isSmall.le)
      have notBefore := isNearest.nearest before beforeFinite.le
      rw [isValue, isBefore, Nat.cast_sub isPositive] at notBefore
      push_cast at notBefore
      by_contra isLess
      rw [abs_of_nonpos (by linarith), abs_of_nonpos (by linarith)] at notBefore
      linarith
  rw [abs_lt]
  constructor <;> linarith

/-- The shortest decimal of a whole number below `2 ^ 53` is the number. -/
theorem IsShortest.value_natCast {d : Decimal} {bits n : Nat} (isShortest : IsShortest bits d)
    (isFinite : bits ≤ infinity) (isValue : Binary64.value bits = n) (isSmall : n < 2 ^ 53) :
    d.value = n := by
  have isClose := lt_one_of_reads isShortest.reads isValue isSmall
  have isItself : value ⟨n, 0⟩ = n := by simp [value]
  have reads : toBits ⟨n, 0⟩ = bits := by
    rw [toBits_eq_iff, isItself, ← isValue]
    exact isNearest_value isFinite
  obtain ⟨digits, exponent⟩ := d
  rcases lt_or_ge exponent 0 with isFraction | isWhole
  · rcases Nat.lt_or_eq_of_le (isShortest.fewest _ reads) with isShorter | sameLength
    · -- fewer digits, the last of them after the point, are too few for the number
      replace isShorter : length digits < length n := isShorter
      have isPositive : 0 < n := by
        by_contra isZero
        obtain rfl : n = 0 := by omega
        exact absurd (length_pos digits) (Nat.not_lt_of_le (Nat.le_of_lt_succ isShorter))
      have hasDigit := length_pos digits
      have isLess : digits < 10 ^ (length n - 1) :=
        (lt_pow_length digits).trans_le (Nat.pow_le_pow_right (by decide) (by omega))
      have isLong : 10 ≤ 10 ^ (length n - 1) :=
        Nat.le_self_pow (by omega) 10
      have isPower := pow_length_le isPositive
      have isTenth : (10 : ℚ) ^ exponent ≤ 10 ^ (-1 : ℤ) :=
        zpow_le_zpow_right₀ (by norm_num) (by omega)
      have isSmaller : value ⟨digits, exponent⟩ ≤ digits * 10 ^ (-1 : ℤ) :=
        mul_le_mul_of_nonneg_left isTenth (Nat.cast_nonneg _)
      have digitsBelow : (digits : ℚ) < n := by exact_mod_cast isLess.trans_le isPower
      have isTen : (10 : ℚ) ≤ n := by exact_mod_cast isLong.trans isPower
      have isNear := (abs_lt.mp isClose).2
      norm_num at isSmaller
      linarith
    · have isNear := isShortest.nearest _ reads sameLength.symm
      rw [isValue, isItself, sub_self, abs_zero] at isNear
      exact (sub_eq_zero.mp (abs_nonpos_iff.mp isNear)).symm
  · obtain ⟨places, rfl⟩ := Int.eq_ofNat_of_zero_le isWhole
    have isNatural : value ⟨digits, (places : ℤ)⟩ = (digits * 10 ^ places : ℕ) := by
      rw [value, zpow_natCast]
      push_cast
      rfl
    rw [isNatural] at isClose ⊢
    have isCloseToo : |(n : ℤ) - (digits * 10 ^ places : ℕ)| < 1 := by exact_mod_cast isClose
    exact_mod_cast (sub_eq_zero.mp (Int.abs_lt_one_iff.mp isCloseToo)).symm

/-- A fraction of zeros is not written. -/
theorem fractionText_replicate (places : Nat) :
    fractionText (List.replicate places '0') = [] := by
  rw [fractionText, List.reverse_replicate, List.dropWhile_replicate]
  rfl

/-- The last digits of a multiple of a power of ten are zeros. -/
theorem fixedText_mul_pow (n places : Nat) :
    fixedText places (n * 10 ^ places) = List.replicate places '0' := by
  induction places with
  | zero => rfl
  | succ places inductionHypothesis =>
    rw [fixedText, Nat.pow_succ, ← Nat.mul_assoc, Nat.mul_div_cancel _ (by decide),
      inductionHypothesis, Nat.mul_mod_left, List.replicate_succ']
    rfl

/-- Positional notation of a whole number is its digits. -/
theorem positional_of_natCast {d : Decimal} {n : Nat} (isValue : d.value = n) :
    d.positional = Nat.toDigits 10 n := by
  rcases lt_or_ge d.exponent 0 with isFraction | isWhole
  · obtain ⟨places, isExponent⟩ : ∃ places : Nat, d.exponent = -places :=
      ⟨(-d.exponent).toNat, by omega⟩
    have isDigits : d.digits = n * 10 ^ places := by
      rw [value, isExponent, zpow_neg, zpow_natCast, ← div_eq_mul_inv,
        div_eq_iff (by positivity)] at isValue
      exact_mod_cast isValue
    have isPlaces : (-d.exponent).toNat = places := by omega
    rw [positional, if_neg (by omega), isPlaces, isDigits]
    simp only [Nat.pow_eq]
    rw [Nat.mul_div_cancel _ (by positivity), fixedText_mul_pow, fractionText_replicate,
      List.append_nil]
    rfl
  · obtain ⟨places, isExponent⟩ := Int.eq_ofNat_of_zero_le isWhole
    have isDigits : d.digits * 10 ^ places = n := by
      rw [value, isExponent, zpow_natCast] at isValue
      exact_mod_cast isValue
    have isPlaces : d.exponent.toNat = places := by omega
    rw [positional, if_pos isWhole, isPlaces]
    simp only [Nat.pow_eq]
    rw [isDigits]
    rfl

end Decimal

/-- The text of a whole number below `2 ^ 53` is its decimal numeral. -/
theorem formatNumber_natCast {x : Float} {n : Nat} (isPositive : isNegative x = false)
    (isValue : signedValue x = n) (isSmall : n < 2 ^ 53) : formatNumber x = toString n := by
  have isMagnitude := signedValue_of_positive isPositive
  rw [isValue] at isMagnitude
  rcases Nat.eq_zero_or_pos n with rfl | notZero
  · obtain rfl : x = 0 := by
      refine eq_of_signedValue isPositive (by decide) (isValue.trans ?_)
      rw [signedValue_of_zero (by decide), Nat.cast_zero]
    decide
  · have isBelow : (n : ℚ) < 2 ^ 53 := by exact_mod_cast isSmall
    have isFinite : magnitude x < infinity :=
      magnitude_lt_infinity isPositive (by rw [isValue]; linarith)
    have hasMagnitude : 0 < magnitude x := by
      rw [← value_strictMono.lt_iff_lt, value_zero, ← isMagnitude]
      exact_mod_cast notZero
    obtain ⟨d, isShortest, sameValue⟩ := Decimal.exists_isShortest hasMagnitude isFinite
    have isWhole : (Decimal.shortest (magnitude x)).value = n :=
      sameValue.symm.trans (isShortest.value_natCast isFinite.le isMagnitude.symm isSmall)
    rw [← String.toList_inj, toList_formatNumber isFinite.le rfl, isPositive, if_neg isFinite.ne,
      if_neg hasMagnitude.ne', Decimal.positional_of_natCast isWhole, Nat.toString_eq_repr,
      Nat.toList_repr]
    rfl

/-- Below `2 ^ 53` whole numbers are counted up by one without rounding. -/
theorem signedValue_one_add {x : Float} {n : Nat} (isPositive : isNegative x = false)
    (isValue : signedValue x = n) (isSmall : n < 2 ^ 53) :
    isNegative (1 + x) = false ∧ signedValue (1 + x) = (n + 1 : ℕ) := by
  have isBelow : (n : ℚ) < 2 ^ 53 := by exact_mod_cast isSmall
  have isFinite := magnitude_lt_infinity isPositive (by rw [isValue]; linarith)
  have isRounded := isRounded_add (by decide : magnitude 1 < infinity) isFinite (by decide)
  have isSum : signedValue 1 + signedValue x = (n + 1 : ℕ) := by
    rw [signedValue_one, isValue]
    push_cast
    ring
  rw [isSum] at isRounded
  obtain ⟨bits, bitsFinite, isNext⟩ := exists_value_natCast (Nat.succ_le_of_lt isSmall)
  have isNonneg : (0 : ℚ) ≤ (n + 1 : ℕ) := Nat.cast_nonneg _
  exact ⟨isRounded.sign.trans (decide_eq_false isNonneg.not_gt),
    (isRounded.exact bitsFinite.le (isNext.trans (abs_of_nonneg isNonneg).symm)).2⟩

/-- The decimal numeral of a whole number below `2 ^ 53` reads as the number. -/
theorem exists_read_toString {n : Nat} (isSmall : n < 2 ^ 53) :
    ∃ x, Numeral.read (toString n) = .ok x ∧ isNegative x = false ∧ signedValue x = n := by
  obtain ⟨bits, isFinite, isValue⟩ := exists_value_natCast isSmall.le
  obtain ⟨isMagnitude, isPositive⟩ := parts_ofParts false isFinite.le
  have isWhole : signedValue (ofParts false bits) = n := by
    rw [signedValue_of_positive isPositive, isMagnitude, isValue]
  refine ⟨ofParts false bits, ?_, isPositive, isWhole⟩
  rw [← formatNumber_natCast isPositive isWhole isSmall]
  exact read_formatNumber _

/-! ## Counting down in texts -/

/-- Whether taking one away from the number of a text, as often as the count says and no less often,
leads to the text of zero. -/
inductive CountsDown : (text : String) → (count : Nat) → Prop
  /-- The text of zero is the end. -/
  | zero : CountsDown "0" 0
  /-- Any other numeral goes on with the text of the difference. -/
  | step {text : String} {x : Float} {count : Nat} (notZero : text ≠ "0")
    (isRead : Numeral.read text = .ok x) (rest : CountsDown (formatNumber (x - 1)) count) :
    CountsDown text (count + 1)

/-- Only zero has the text of zero. -/
theorem formatNumber_eq_zero_iff {x : Float} : formatNumber x = "0" ↔ x = 0 := by
  constructor
  · intro isZero
    have isRead := read_formatNumber x
    have isReadToo : Numeral.read "0" = .ok 0 := by decide
    rw [isZero, isReadToo, Except.ok.injEq] at isRead
    exact isRead.symm
  · rintro rfl
    decide

/-- One less than zero is out of reach of zero. -/
theorem stays_below_zero : Stays (0 - 1) :=
  .inl (by decide)

/-- The texts of doubles count down as the doubles come down. -/
theorem countsDown_formatNumber_iff {x : Float} {count : Nat} :
    CountsDown (formatNumber x) count ↔ down x count = 0 := by
  induction count generalizing x with
  | zero =>
    rw [down, ← formatNumber_eq_zero_iff]
    constructor
    · intro counts
      generalize formatNumber x = text at counts ⊢
      cases counts
      rfl
    · intro isZero
      rw [isZero]
      exact .zero
  | succ count inductionHypothesis =>
    constructor
    · intro counts
      generalize isText : formatNumber x = text at counts
      cases counts with
      | step notZero isRead rest =>
        rw [← isText, read_formatNumber, Except.ok.injEq] at isRead
        exact inductionHypothesis.mp (isRead ▸ rest)
    · intro isZero
      refine .step (fun isZeroText => ?_) (read_formatNumber x) (inductionHypothesis.mpr isZero)
      obtain rfl := formatNumber_eq_zero_iff.mp isZeroText
      exact stays_below_zero.down_ne count isZero

/-- A numeral counts down to zero just if it is the text of zero, or a whole number up to `2 ^ 53`
and then in as many steps, or `2 ^ 53 + 2` and then in one step less. -/
theorem countsDown_iff {text : String} {x : Float} {count : Nat}
    (isRead : Numeral.read text = .ok x) :
    CountsDown text count ↔
      text = "0" ∧ count = 0 ∨
      (0 < count ∧ count ≤ 2 ^ 53) ∧ signedValue x = count ∨
      count = 2 ^ 53 + 1 ∧ signedValue x = 2 ^ 53 + 2 := by
  cases count with
  | zero =>
    constructor
    · rintro ⟨⟩
      exact .inl ⟨rfl, rfl⟩
    · rintro (⟨rfl, -⟩ | ⟨⟨isAbove, -⟩, -⟩ | ⟨isCount, -⟩)
      · exact .zero
      · exact absurd isAbove (Nat.lt_irrefl 0)
      · exact absurd isCount (by decide)
  | succ count =>
    have isDown : CountsDown text (count + 1) ↔ down x (count + 1) = 0 := by
      rw [down, ← countsDown_formatNumber_iff]
      constructor
      · intro counts
        cases counts with
        | step notZero isReadToo rest =>
          rw [isRead, Except.ok.injEq] at isReadToo
          exact isReadToo ▸ rest
      · intro rest
        refine .step ?_ isRead rest
        rintro rfl
        have isZero : Numeral.read "0" = .ok 0 := by decide
        rw [isZero, Except.ok.injEq] at isRead
        rw [countsDown_formatNumber_iff, ← isRead] at rest
        exact stays_below_zero.down_ne count rest
    rw [isDown, down_eq_zero_iff]
    constructor
    · rintro ⟨-, ⟨fits, isValue⟩ | isLast⟩
      · exact .inr (.inl ⟨⟨Nat.succ_pos count, fits⟩, isValue⟩)
      · exact .inr (.inr isLast)
    · rintro (⟨-, isCount⟩ | ⟨⟨-, fits⟩, isValue⟩ | ⟨isCount, isValue⟩)
      · exact absurd isCount (Nat.succ_ne_zero count)
      · refine ⟨isNegative_eq_false ?_, .inl ⟨fits, isValue⟩⟩
        rw [isValue]
        exact_mod_cast Nat.succ_pos count
      · refine ⟨isNegative_eq_false ?_, .inr ⟨isCount, isValue⟩⟩
        rw [isValue]
        norm_num

end LispShell
