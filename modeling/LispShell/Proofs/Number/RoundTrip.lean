import LispShell.Evaluation.Arithmetic
import LispShell.Proofs.Number.Bits
import LispShell.Proofs.Number.Shortest
import LispShell.Proofs.Number.Text
import LispShell.Proofs.Run.Exec

/-! # Numbers and their texts
Every double is read back from its text, bit for bit: an infinity from its word, and a finite one
from the plain numeral of its shortest decimal. So no result of arithmetic is changed by passing
through its text. -/

namespace LispShell

open Binary64

/-- A number is written after its sign. -/
theorem toList_formatNumber {x : Float} {digits : List Char} (isNumber : magnitude x ≤ infinity)
    (areDigits : digits =
      if magnitude x = infinity then "inf".toList
      else if magnitude x = 0 then ['0']
      else (Decimal.shortest (magnitude x)).positional) :
    (formatNumber x).toList = if isNegative x then '-' :: digits else digits := by
  have notNaN : ¬infinity < magnitude x := Nat.not_lt_of_le isNumber
  rw [formatNumber]
  simp only [notNaN, if_false, String.toList_ofList, areDigits]

/-- The text of a finite double is a plain numeral of its shortest decimal, after a minus sign if it
is negative. -/
theorem exists_plain_formatNumber {x : Float} (isFinite : magnitude x < infinity) :
    ∃ p : PlainNumeral,
      (formatNumber x).toList = (if isNegative x then '-' :: p.text else p.text) ∧
      ∃ d, Decimal.IsShortest (magnitude x) d ∧ p.value = d.value := by
  rcases Nat.eq_zero_or_pos (magnitude x) with isZero | isPositive
  · obtain ⟨p, isText, isValue⟩ := Decimal.exists_plain ⟨0, 0⟩
    refine ⟨p, toList_formatNumber isFinite.le ?_, ⟨0, 0⟩, isZero ▸ Decimal.isShortest_zero 0,
      isValue⟩
    rw [if_neg isFinite.ne, if_pos isZero, isText]
    rfl
  · obtain ⟨d, isShortest, isShortestValue⟩ := Decimal.exists_isShortest isPositive isFinite
    obtain ⟨p, isText, isValue⟩ := Decimal.exists_plain (Decimal.shortest (magnitude x))
    refine ⟨p, toList_formatNumber isFinite.le ?_, d, isShortest,
      isValue.trans isShortestValue.symm⟩
    rw [if_neg isFinite.ne, if_neg isPositive.ne', isText]

/-- A double is read back from its text. -/
theorem read_formatNumber (x : Float) : Numeral.read (formatNumber x) = .ok x := by
  rcases Nat.lt_trichotomy (magnitude x) infinity with isFinite | isInfinite | isNaN
  · obtain ⟨p, isText, d, isShortest, isValue⟩ := exists_plain_formatNumber isFinite
    have sameBits : p.decimal.toBits = magnitude x :=
      (Decimal.toBits_congr (p.value_decimal.trans isValue)).trans isShortest.reads
    rw [Numeral.read, isText, p.ofChars?_text]
    simp only [sameBits, ofParts_parts]
  · have isText := toList_formatNumber isInfinite.le (if_pos isInfinite).symm
    have isWord : Numeral.ofChars? (formatNumber x).toList = some (.infinity (isNegative x)) := by
      rw [isText]
      cases isNegative x
      · rfl
      · rfl
    rw [Numeral.read, isWord]
    simp only [← isInfinite, ofParts_parts]
  · have isText : formatNumber x = "NaN" := if_pos isNaN
    have isWord : Numeral.ofChars? "NaN".toList = some .nan := by decide
    rw [Numeral.read, isText, isWord]
    simp only [Except.ok.injEq]
    exact (eq_nan_of_infinity_lt isNaN).symm

/-- The atom of a double stands for the double. -/
theorem exec_number_ofFloat (room : Nat) (x : Float) (course : Course) :
    (Operands.number (room + 1) (Arithmetic.ofFloat x)).exec course = (.ok x, course) := by
  have isText : Operands.flatten (room + 1) (Arithmetic.ofFloat x) = pure (formatNumber x) := by
    have fits : (Arithmetic.ofFloat x).height ≤ room + 1 := Nat.succ_le_succ (Nat.zero_le room)
    rw [Operands.flatten, Operands.within, if_pos fits]
    rfl
  rw [Operands.number, isText, pure_bind, read_formatNumber]
  rfl

/-- Every pattern of bits survives its text: what the atom of the number stands for has the same
bits, or is not a number if the pattern is none. The text of a finite number is a plain numeral
after an optional minus sign, and denotes the shortest decimal that reads as the number. -/
theorem numbers_survive_text (pattern : UInt64) :
    let x := Float.ofBits pattern
    (∀ room course, ∃ y,
      (Operands.number (room + 1) (Arithmetic.ofFloat x)).exec course = (.ok y, course) ∧
      (pattern.toNat % signBit ≤ infinity → y.toBits = pattern) ∧
      (infinity < pattern.toNat % signBit → y.isNaN)) ∧
    (pattern.toNat % signBit < infinity →
      ∃ p : PlainNumeral,
        (formatNumber x).toList = (if signBit ≤ pattern.toNat then '-' :: p.text else p.text) ∧
        (∃ d, Decimal.IsShortest (pattern.toNat % signBit) d) ∧
        ∀ d, Decimal.IsShortest (pattern.toNat % signBit) d → p.value = d.value) := by
  intro x
  constructor
  · intro room course
    exact ⟨x, exec_number_ofFloat room x course, toBits_ofBits, isNaN_ofBits⟩
  · intro isFinite
    obtain ⟨isMagnitude, isSign⟩ :=
      parts_ofParts (decide (signBit ≤ pattern.toNat)) isFinite.le
    rw [ofParts_toNat] at isMagnitude isSign
    obtain ⟨p, isText, d, isShortest, isValue⟩ :=
      exists_plain_formatNumber (isMagnitude.trans_lt isFinite)
    rw [isSign] at isText
    rw [isMagnitude] at isShortest
    refine ⟨p, by simpa using isText, ⟨d, isShortest⟩, fun other isShortestToo => ?_⟩
    exact isValue.trans (isShortest.value_unique isFinite.le isShortestToo)

/-- The text of the double nearest to minus a tenth has the digits of a tenth, and is read back to
the same bits; a pattern that is not a number is read back as none. -/
theorem negative_tenth_survives_text :
    let x := Float.ofBits 0xbfb999999999999a
    formatNumber x = "-0.1" ∧
      (∀ room course, ∃ y,
        (Operands.number (room + 1) (Arithmetic.ofFloat x)).exec course = (.ok y, course) ∧
        y.toBits = 0xbfb999999999999a) ∧
      (∃ p : PlainNumeral, "-0.1".toList = '-' :: p.text ∧
        ∀ d, Decimal.IsShortest 0x3fb999999999999a d → p.value = d.value) ∧
      ∀ room course, ∃ y,
        (Operands.number (room + 1) (Arithmetic.ofFloat (.ofBits 0x7ff0000000000001))).exec course =
          (.ok y, course) ∧ y.isNaN := by
  intro x
  have isText : formatNumber x = "-0.1" := by decide +kernel
  refine ⟨isText, fun room course => ?_, ?_, fun room course => ?_⟩
  · obtain ⟨y, isRead, sameBits, -⟩ := (numbers_survive_text 0xbfb999999999999a).1 room course
    exact ⟨y, isRead, sameBits (by decide)⟩
  · obtain ⟨p, isPlain, -, isValue⟩ := (numbers_survive_text 0xbfb999999999999a).2 (by decide)
    refine ⟨p, ?_, isValue⟩
    rw [← isText]
    exact isPlain
  · obtain ⟨y, isRead, -, isNaN⟩ := (numbers_survive_text 0x7ff0000000000001).1 room course
    exact ⟨y, isRead, isNaN (by decide)⟩

end LispShell
