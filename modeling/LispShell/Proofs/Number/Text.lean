import LispShell.Number.Format
import LispShell.Number.Numeral
import LispShell.Proofs.Number.Decimal

/-! # Plain numerals
A numeral in plain form has digits, and after a point more digits if the number has a fraction, but
no exponent, no zero in front of other digits and no zero at the end of a fraction. Positional
notation writes every decimal so, and a plain numeral reads as the number that its digits denote. -/

namespace LispShell

/-- A numeral in plain form. -/
structure PlainNumeral where
  /-- The digits of the whole part. -/
  whole : List Char
  /-- The digits of the fraction. -/
  fraction : List Char
  /-- There is a digit before the point. -/
  hasDigit : whole ≠ []
  /-- All characters but the point are decimal digits. -/
  areDigits : ∀ c ∈ whole ++ fraction, c.isDigit
  /-- No zero stands in front of other digits. -/
  noLeadingZero : whole.head? = some '0' → whole = ['0']
  /-- No zero ends a fraction. -/
  noTrailingZero : fraction.getLast? ≠ some '0'

namespace PlainNumeral

/-- The digits of a fraction after a point; no point stands before no fraction. -/
def pointed : List Char → List Char
  | [] => []
  | digit :: digits => '.' :: digit :: digits

/-- The characters of a plain numeral. -/
def text (p : PlainNumeral) : List Char :=
  p.whole ++ pointed p.fraction

/-- The number that a plain numeral denotes. -/
def value (p : PlainNumeral) : ℚ :=
  Nat.ofDigitChars 10 (p.whole ++ p.fraction) 0 / 10 ^ p.fraction.length

end PlainNumeral

namespace Decimal

/-! ## Digits -/

/-- The digits of a positive number do not start with a zero. -/
theorem head?_toDigits {n : Nat} (isPositive : 0 < n) : (Nat.toDigits 10 n).head? ≠ some '0' := by
  induction n using Nat.strongRecOn with
  | ind n inductionHypothesis =>
    rw [Nat.toDigits_eq_if (by decide)]
    split
    next isDigit =>
      rw [List.head?_cons, ne_eq, Option.some.injEq]
      intro isZero
      have isCode := Nat.toNat_digitChar_of_lt_ten isDigit
      have isZeroCode : '0'.toNat = 48 := rfl
      rw [isZero, isZeroCode] at isCode
      omega
    next isLong =>
      rw [List.head?_append_of_ne_nil _ Nat.toDigits_ne_nil]
      exact inductionHypothesis (n / 10) (by omega) (by omega)

/-- Digits with a leading zero are those of zero. -/
theorem wholeText_of_head? (n : Nat) (isZero : (wholeText n).head? = some '0') :
    wholeText n = ['0'] := by
  rcases Nat.eq_zero_or_pos n with rfl | isPositive
  · rfl
  · exact absurd isZero (head?_toDigits isPositive)

/-- The last digits of a number are as many as asked for. -/
theorem length_fixedText (width n : Nat) : (fixedText width n).length = width := by
  induction width generalizing n with
  | zero => rfl
  | succ width inductionHypothesis =>
    rw [fixedText, List.length_append, inductionHypothesis]
    rfl

/-- The last digits of a number are digits. -/
theorem isDigit_of_mem_fixedText {width n : Nat} {c : Char} (isIn : c ∈ fixedText width n) :
    c.isDigit := by
  induction width generalizing n with
  | zero => exact absurd isIn List.not_mem_nil
  | succ width inductionHypothesis =>
    rw [fixedText, List.mem_append, List.mem_singleton] at isIn
    rcases isIn with isBefore | rfl
    · exact inductionHypothesis isBefore
    · rw [Nat.isDigit_digitChar, decide_eq_true_eq]
      omega

/-- The last digits of a number denote its remainder. -/
theorem ofDigitChars_fixedText (width n : Nat) :
    Nat.ofDigitChars 10 (fixedText width n) 0 = n % 10 ^ width := by
  induction width generalizing n with
  | zero => rw [fixedText, Nat.ofDigitChars_nil, pow_zero, Nat.mod_one]
  | succ width inductionHypothesis =>
    rw [fixedText, Nat.ofDigitChars_append, inductionHypothesis,
      Nat.ofDigitChars_cons_digitChar_of_lt_ten (by omega), Nat.ofDigitChars_nil,
      Nat.pow_succ, Nat.mul_comm (10 ^ width), Nat.mod_mul]
    omega

/-- A fraction is written without the zeros at its end. -/
theorem exists_fractionText (digits : List Char) :
    ∃ kept zeros, fractionText digits = PlainNumeral.pointed kept ∧
      digits = kept ++ List.replicate zeros '0' ∧ kept.getLast? ≠ some '0' := by
  refine ⟨(digits.reverse.dropWhile (· == '0')).reverse,
    (digits.reverse.takeWhile (· == '0')).length, ?_, ?_, ?_⟩
  · rw [fractionText]
    rcases (digits.reverse.dropWhile (· == '0')).reverse with - | ⟨digit, kept⟩
    · rfl
    · rfl
  · have areZeros : digits.reverse.takeWhile (· == '0') =
        List.replicate (digits.reverse.takeWhile (· == '0')).length '0' := by
      rw [List.eq_replicate_iff]
      refine ⟨rfl, fun c isIn => ?_⟩
      simpa using List.all_eq_true.mp List.all_takeWhile c isIn
    have split := List.takeWhile_append_dropWhile (p := (· == '0')) (l := digits.reverse)
    rw [areZeros] at split
    rw [← List.reverse_inj, List.reverse_append, List.reverse_replicate, List.reverse_reverse]
    exact split.symm
  · rw [List.getLast?_reverse]
    intro isZero
    have notZero := List.head?_dropWhile_not (· == '0') digits.reverse
    rw [isZero] at notZero
    exact absurd notZero (by simp)

/-! ## Positional notation -/

/-- Positional notation is a plain numeral that denotes the decimal. -/
theorem exists_plain (d : Decimal) :
    ∃ p : PlainNumeral, p.text = d.positional ∧ p.value = d.value := by
  rcases lt_or_ge d.exponent 0 with negative | nonneg
  · obtain ⟨places, isExponent⟩ : ∃ places : Nat, d.exponent = -places :=
      ⟨(-d.exponent).toNat, by omega⟩
    obtain ⟨kept, zeros, isText, isSplit, notZero⟩ :=
      exists_fractionText (fixedText places d.digits)
    have areDigits : ∀ c ∈ wholeText (d.digits / 10 ^ places) ++ kept, c.isDigit := by
      intro c isIn
      rcases List.mem_append.mp isIn with isWhole | isFraction
      · exact Nat.isDigit_of_mem_toDigits (by decide) (by decide) isWhole
      · have isIn : c ∈ fixedText places d.digits := by
          rw [isSplit]
          exact List.mem_append_left _ isFraction
        exact isDigit_of_mem_fixedText isIn
    refine ⟨⟨wholeText (d.digits / 10 ^ places), kept, Nat.toDigits_ne_nil, areDigits,
      wholeText_of_head? _, notZero⟩, ?_, ?_⟩
    · have isPlaces : (-d.exponent).toNat = places := by omega
      rw [PlainNumeral.text, positional, if_neg (by omega), isPlaces, ← isText]
      rfl
    · -- the zeros at the end count for nothing
      have isWhole : (Nat.ofDigitChars 10 (wholeText (d.digits / 10 ^ places) ++
          fixedText places d.digits) 0) = d.digits := by
        rw [Nat.ofDigitChars_append, Nat.ofDigitChars_eq_ofDigitChars_zero, length_fixedText,
          wholeText, Nat.ofDigitChars_ten_toDigits, ofDigitChars_fixedText, Nat.div_add_mod]
      have isLength : kept.length + zeros = places := by
        rw [← length_fixedText places d.digits, isSplit, List.length_append,
          List.length_replicate]
      rw [isSplit, ← List.append_assoc, Nat.ofDigitChars_append,
        Nat.ofDigitChars_replicate_zero] at isWhole
      change (Nat.ofDigitChars 10 (wholeText (d.digits / 10 ^ places) ++ kept) 0 : ℚ) /
        10 ^ kept.length = _
      generalize Nat.ofDigitChars 10 (wholeText (d.digits / 10 ^ places) ++ kept) 0 = n at *
      rw [value, isExponent, zpow_neg, zpow_natCast, ← div_eq_mul_inv, div_eq_div_iff
        (by positivity) (by positivity), ← isWhole, ← isLength, pow_add]
      push_cast
      ring
  · obtain ⟨places, isExponent⟩ := Int.eq_ofNat_of_zero_le nonneg
    refine ⟨⟨wholeText (d.digits * 10 ^ places), [], Nat.toDigits_ne_nil, ?_, wholeText_of_head? _,
      by simp⟩, ?_, ?_⟩
    · intro c isIn
      rw [List.append_nil] at isIn
      exact Nat.isDigit_of_mem_toDigits (by decide) (by decide) isIn
    · have isPlaces : d.exponent.toNat = places := by omega
      rw [PlainNumeral.text, positional, if_pos nonneg, isPlaces, PlainNumeral.pointed,
        List.append_nil]
      rfl
    · change (Nat.ofDigitChars 10 (wholeText (d.digits * 10 ^ places) ++ []) 0 : ℚ) / 10 ^ 0 = _
      rw [List.append_nil, pow_zero, div_one, wholeText, Nat.ofDigitChars_ten_toDigits, value,
        isExponent, zpow_natCast]
      push_cast
      rfl

end Decimal

/-! ## Reading -/

namespace Numeral

/-- A plain digit has its value. -/
theorem decimalDigit?_of_isDigit {c : Char} (isDigit : c.isDigit) :
    Text.decimalDigit? c = some (c.toNat - 48) := by
  have bounds := Char.isDigit_iff_toNat.mp isDigit
  have isFound : (decide (0x30 ≤ c.toNat) && decide (c.toNat < 0x30 + 10)) = true := by
    simp only [Bool.and_eq_true, decide_eq_true_eq]
    simp only [Char.reduceToNat] at bounds
    omega
  obtain ⟨scripts, isList⟩ : ∃ scripts, Text.decimalZeros = 0x30 :: scripts := ⟨_, rfl⟩
  rw [Text.decimalDigit?, isList, List.find?_cons, isFound]
  rfl

/-- Digits are read off in front of what is not a digit. -/
theorem spanDigits_append {cs rest : List Char} (areDigits : ∀ c ∈ cs, c.isDigit)
    (ends : spanDigits rest = ([], rest)) :
    spanDigits (cs ++ rest) = (cs.map fun c => c.toNat - 48, rest) := by
  induction cs with
  | nil => exact ends
  | cons c cs inductionHypothesis =>
    obtain ⟨isDigit, areDigits⟩ := List.forall_mem_cons.mp areDigits
    rw [List.cons_append, spanDigits, decimalDigit?_of_isDigit isDigit]
    simp only [inductionHypothesis areDigits, List.map_cons]

/-- Digits that are read off stand for the number that they denote. -/
theorem ofDigits_map (cs : List Char) :
    ofDigits (cs.map fun c => c.toNat - 48) = Nat.ofDigitChars 10 cs 0 := by
  rw [ofDigits, List.foldl_map]
  rfl

end Numeral

namespace PlainNumeral

open Numeral

/-- The decimal that a plain numeral reads as. -/
def decimal (p : PlainNumeral) : Decimal :=
  ⟨Nat.ofDigitChars 10 (p.whole ++ p.fraction) 0, -p.fraction.length⟩

/-- What a plain numeral reads as is what it denotes. -/
theorem value_decimal (p : PlainNumeral) : p.decimal.value = p.value := by
  rw [decimal, Decimal.value, zpow_neg, zpow_natCast, ← div_eq_mul_inv]
  rfl

/-- A plain numeral is read as its decimal. -/
theorem unsigned?_text (p : PlainNumeral) : unsigned? p.text = some p.decimal := by
  have wholeDigits : ∀ c ∈ p.whole, c.isDigit :=
    fun c isIn => p.areDigits c (List.mem_append_left _ isIn)
  have fractionDigits : ∀ c ∈ p.fraction, c.isDigit :=
    fun c isIn => p.areDigits c (List.mem_append_right _ isIn)
  have isFull : (p.whole.map fun c => c.toNat - 48).isEmpty = false := by
    rw [List.isEmpty_map, List.isEmpty_eq_false_iff]
    exact p.hasDigit
  rw [unsigned?, text]
  rcases isFraction : p.fraction with - | ⟨digit, digits⟩
  · rw [pointed, spanDigits_append wholeDigits rfl]
    simp only [spanFraction, isFull, Bool.false_and, Bool.false_eq_true, if_false, exponent?,
      Option.map_some, decimal, isFraction, List.append_nil, ofDigits_map]
    rfl
  · have noPoint : spanDigits (pointed (digit :: digits)) = ([], pointed (digit :: digits)) := by
      rw [pointed, spanDigits, show Text.decimalDigit? '.' = none by decide]
    have digitsSpan := spanDigits_append (isFraction ▸ fractionDigits) (Eq.refl (spanDigits []))
    rw [List.append_nil] at digitsSpan
    rw [spanDigits_append wholeDigits noPoint]
    simp only [pointed, spanFraction, digitsSpan, isFull, Bool.false_and, Bool.false_eq_true,
      if_false, exponent?, Option.map_some, decimal, isFraction, ← List.map_append, ofDigits_map,
      List.length_map, zero_sub]

/-- A plain numeral does not start with a sign. -/
theorem spanSign_text (p : PlainNumeral) : spanSign p.text = (false, p.text) := by
  rcases isWhole : p.whole with - | ⟨digit, digits⟩
  · exact absurd isWhole p.hasDigit
  · have isDigit : digit.isDigit := p.areDigits digit (by simp [isWhole])
    rw [text, isWhole, List.cons_append]
    rw [spanSign.eq_3]
    · rintro rest isSign
      cases isSign
      exact absurd isDigit (by decide)
    · rintro rest isSign
      cases isSign
      exact absurd isDigit (by decide)

/-- A plain numeral, perhaps after a minus sign, forms a decimal numeral. -/
theorem ofChars?_text (p : PlainNumeral) (negative : Bool) :
    ofChars? (if negative then '-' :: p.text else p.text) = some (.decimal negative p.decimal) := by
  cases negative
  · simp only [ofChars?, Bool.false_eq_true, if_false, spanSign_text, unsigned?_text]
  · simp only [ofChars?, if_true, spanSign, unsigned?_text]

end PlainNumeral

end LispShell
