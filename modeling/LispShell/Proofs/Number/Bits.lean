import LispShell.Proofs.Number.Nearest
import Mathlib

/-! # The bits of doubles
A double is its sign and its magnitude: it is put together again from them, and magnitudes up to
infinity are kept. Arithmetic takes a double apart into a sign, a mantissa and an exponent, which
are those of its magnitude, and what it puts together has the magnitude of mantissa and place. -/

namespace LispShell.Binary64

open Float.Model Float.Model.UnpackedFloat

/-! ## Fields -/

section Fields

variable (b : BitVec Format.binary64.numBits)

/-- The mantissa field holds the bits below the exponent. -/
theorem toNat_unpackMantissa : (unpackMantissa b).toNat = b.toNat % leadingBit := by
  simp [unpackMantissa, leadingBit]

/-- The exponent field holds the bits between the mantissa and the sign. -/
theorem toNat_unpackExponent : (unpackExponent b).toNat = b.toNat % signBit / leadingBit := by
  simp [unpackExponent, leadingBit, signBit, Nat.shiftRight_eq_div_pow]
  omega

/-- The sign field holds the highest bit. -/
theorem toNat_unpackSign : (unpackSign b).toNat = b.toNat / signBit := by
  have below : b.toNat < 2 ^ 64 := b.isLt
  simp [unpackSign, signBit, Nat.shiftRight_eq_div_pow]
  omega

end Fields

/-- Packed fields lie next to each other. -/
theorem toNat_packComponents (sign : Sign) (exponent : BitVec 11) (mantissa : BitVec 52) :
    (packComponents Format.binary64 sign exponent mantissa).toNat =
      sign.toBitVec.toNat * signBit + exponent.toNat * leadingBit + mantissa.toNat := by
  have exponentBelow := exponent.isLt
  have mantissaBelow := mantissa.isLt
  rw [packComponents, BitVec.toNat_append, ← Nat.shiftLeft_add_eq_or_of_lt mantissa.isLt,
    BitVec.toNat_append, ← Nat.shiftLeft_add_eq_or_of_lt exponent.isLt]
  simp only [Nat.shiftLeft_eq, signBit, leadingBit]
  ring

/-! ## Packing -/

/-- The sign that a sign bit stands for. -/
def signOf (negative : Bool) : Sign :=
  if negative then .negative else .positive

/-- A sign and a magnitude, taken apart for arithmetic. -/
def unpacked (negative : Bool) (bits : Nat) : UnpackedFloat :=
  if infinity < bits then .notANumber
  else if bits = infinity then .infinity (signOf negative)
  else if isPositive : 0 < (decode bits).1 then
    .finite (signOf negative) (decode bits).1 (decode bits).2 isPositive
  else .zero (signOf negative)

/-- The bits of a double are taken apart into its sign and its magnitude. -/
theorem unpack_eq (b : BitVec Format.binary64.numBits) :
    UnpackedFloat.unpack Format.binary64 b =
      unpacked (decide (signBit ≤ b.toNat)) (b.toNat % signBit) := by
  have below : b.toNat < 2 * signBit := b.isLt
  have isMantissa := toNat_unpackMantissa b
  have isExponent := toNat_unpackExponent b
  have isSign : Sign.ofBitVec (unpackSign b) = signOf (decide (signBit ≤ b.toNat)) := by
    have noSign : unpackSign b = 0#1 ↔ ¬signBit ≤ b.toNat := by
      rw [← BitVec.toNat_inj, toNat_unpackSign, BitVec.toNat_zero,
        Nat.div_eq_zero_iff_lt (by decide), not_le]
    by_cases negative : signBit ≤ b.toNat
    · simp [Sign.ofBitVec, signOf, negative, noSign]
    · simp [Sign.ofBitVec, signOf, negative, noSign]
  have sameMantissa : b.toNat % leadingBit = b.toNat % signBit % leadingBit :=
    (Nat.mod_mod_of_dvd _ (by decide)).symm
  have bitsBelow : b.toNat % signBit < signBit := Nat.mod_lt _ (by decide)
  rw [sameMantissa] at isMantissa
  set bits := b.toNat % signBit
  have split := Nat.div_add_mod bits leadingBit
  have restBelow : bits % leadingBit < leadingBit := Nat.mod_lt _ (by decide)
  have isAllOnes : unpackExponent b = -1#11 ↔ infinity ≤ bits := by
    have allOnes : (-1#11).toNat = 2047 := by decide
    rw [← BitVec.toNat_inj, isExponent, allOnes]
    simp only [infinity, leadingBit, signBit] at *
    omega
  have isZeroField : unpackExponent b = 0#11 ↔ bits / leadingBit = 0 := by
    rw [← BitVec.toNat_inj, isExponent, BitVec.toNat_zero]
  have isZeroMantissa : unpackMantissa b = 0#52 ↔ bits % leadingBit = 0 := by
    rw [← BitVec.toNat_inj, isMantissa, BitVec.toNat_zero]
  have bias : Format.exponentBias Format.binary64 = 1023 := by decide
  unfold UnpackedFloat.unpack unpacked
  simp only [isSign]
  rcases Nat.lt_or_ge bits infinity with isFinite | isSpecial
  · -- without an exponent field the leading bit is not implied
    have notNaN : ¬infinity < bits := by omega
    have notInfinite : ¬bits = infinity := by omega
    rw [if_neg (isAllOnes.not.mpr (by omega)), if_neg notNaN, if_neg notInfinite]
    by_cases field : bits / leadingBit = 0
    · have isDecoded : decode bits = (bits, -1074) := by simp [decode, field]
      have noField : bits % leadingBit = bits := by
        rw [field, Nat.mul_zero, Nat.zero_add] at split
        exact split
      rw [noField] at isMantissa isZeroMantissa
      rw [if_pos (isZeroField.mpr field)]
      by_cases isZero : bits = 0
      · rw [dif_pos (isZeroMantissa.mpr isZero), dif_neg (by rw [isDecoded]; omega)]
      · rw [dif_neg (isZeroMantissa.not.mpr isZero), dif_pos (by rw [isDecoded]; omega)]
        simp only [isMantissa, isExponent, field, bias, isDecoded]
        rfl
    · have isDecoded : decode bits =
          (bits % leadingBit + leadingBit, ((bits / leadingBit : ℕ) : ℤ) - 1075) := by
        simp [decode, field]
      have hasLeadingBit : (1#1 ++ unpackMantissa b).toNat = bits % leadingBit + leadingBit := by
        rw [BitVec.toNat_append, ← Nat.shiftLeft_add_eq_or_of_lt (unpackMantissa b).isLt,
          isMantissa, Nat.add_comm]
        rfl
      have someDecoded : 0 < (decode bits).1 := by
        rw [isDecoded]
        exact Nat.add_pos_right _ (by decide)
      rw [if_neg (isZeroField.not.mpr field), dif_pos someDecoded]
      simp only [hasLeadingBit, isExponent, bias, isDecoded]
      rfl
  · -- with an exponent field of ones the mantissa tells infinity from what is not a number
    rw [if_pos (isAllOnes.mpr isSpecial)]
    by_cases isInfinite : bits = infinity
    · have noMantissa : bits % leadingBit = 0 := by
        rw [isInfinite]
        decide
      have notNaN : ¬infinity < bits := by omega
      rw [if_pos (isZeroMantissa.mpr noMantissa), if_neg notNaN, if_pos isInfinite]
    · have isNaN : infinity < bits := by omega
      have hasMantissa : bits % leadingBit ≠ 0 := by
        simp only [infinity, leadingBit, signBit] at *
        omega
      rw [if_neg (isZeroMantissa.not.mpr hasMantissa), if_pos isNaN]

/-- Packed mantissa and place have the magnitude that they are put together to. -/
theorem toNat_pack_finite {negative : Bool} {place mantissa : Nat} (isPositive : 0 < mantissa)
    (fits : mantissa < 2 * leadingBit) (isLeading : place = 0 ∨ leadingBit ≤ mantissa) :
    (UnpackedFloat.pack Format.binary64
        (.finite (signOf negative) mantissa ((place : ℤ) - 1074) isPositive)).toNat =
      (if negative then signBit else 0) + min (place * leadingBit + mantissa) infinity := by
  have isExponent : ((place : ℤ) - 1074 + Format.exponentBias Format.binary64 +
      Format.mantissaBitsWithoutImplicit Format.binary64).toNat = place + 1 := by
    have bias : Format.exponentBias Format.binary64 = 1023 := by decide
    have width : Format.mantissaBitsWithoutImplicit Format.binary64 = 52 := rfl
    rw [bias, width]
    omega
  have isNormal : mantissa.log2 + 1 = Format.mantissaBits Format.binary64 ↔
      leadingBit ≤ mantissa := by
    have width : Format.mantissaBits Format.binary64 = 52 + 1 := by decide
    have isLog := Nat.log2_eq_iff (k := 52) isPositive.ne'
    simp only [leadingBit] at *
    omega
  have isSign : (signOf negative).toBitVec.toNat * signBit = if negative then signBit else 0 := by
    cases negative <;> rfl
  unfold UnpackedFloat.pack
  simp only [isExponent, isNormal]
  -- the leading bit of the mantissa is packed as the last bit of the exponent field
  by_cases overflows : 2 ^ 11 ≤ place + 1 + 1
  · have beyond : infinity ≤ place * leadingBit + mantissa := by
      simp only [infinity, leadingBit] at *
      omega
    rw [if_pos overflows, packedInfinity, toNat_packComponents, isSign, Nat.min_eq_right beyond]
    rfl
  · have below : place * leadingBit + mantissa ≤ infinity := by
      simp only [infinity, leadingBit] at *
      omega
    rw [if_neg overflows, Nat.min_eq_left below]
    by_cases atLeast : leadingBit ≤ mantissa
    · rw [if_pos atLeast, toNat_packComponents, isSign, BitVec.toNat_ofNat, BitVec.toNat_ofNat]
      simp only [leadingBit] at *
      omega
    · obtain rfl : place = 0 := by omega
      rw [if_neg atLeast, toNat_packComponents, isSign, BitVec.toNat_ofNat, BitVec.toNat_ofNat]
      simp only [leadingBit] at *
      omega

/-- A magnitude that is finite or infinity is packed to itself. -/
theorem toNat_pack_unpacked {negative : Bool} {bits : Nat} (fits : bits ≤ infinity) :
    (UnpackedFloat.pack Format.binary64 (unpacked negative bits)).toNat =
      (if negative then signBit else 0) + bits := by
  have isSign : (signOf negative).toBitVec.toNat * signBit = if negative then signBit else 0 := by
    cases negative <;> rfl
  rw [unpacked, if_neg (by omega)]
  split
  next isInfinite =>
    rw [isInfinite, UnpackedFloat.pack, packedInfinity, toNat_packComponents, isSign]
    rfl
  next notInfinite =>
    obtain ⟨place, mantissa, rfl, below, isLeading, isDecoded⟩ := exists_mantissa bits
    split
    next isPositive =>
      simp only [isDecoded]
      rw [toNat_pack_finite (by rwa [isDecoded] at isPositive) below isLeading,
        Nat.min_eq_left fits]
    next isZero =>
      have isLeast : place * leadingBit + mantissa = 0 := by
        rw [isDecoded] at isZero
        have isPositive : 0 < leadingBit := by decide
        obtain rfl : place = 0 := by omega
        omega
      rw [UnpackedFloat.pack, packedZero, toNat_packComponents, isSign, isLeast]
      rfl

/-! ## Doubles -/

/-- A double is taken apart into its sign and its magnitude. -/
theorem unpack_toModel (x : Float) : x.toModel.unpack = unpacked (isNegative x) (magnitude x) :=
  unpack_eq x.toBits.toBitVec

/-- A pattern of bits is its magnitude and its sign. -/
theorem magnitude_add_sign {n : Nat} (below : n < 2 ^ 64) :
    n % signBit + (if decide (signBit ≤ n) = true then signBit else 0) = n := by
  by_cases negative : signBit ≤ n
  · rw [decide_eq_true negative, if_pos rfl]
    simp only [signBit] at *
    omega
  · rw [decide_eq_false negative, if_neg Bool.false_ne_true]
    simp only [signBit] at *
    omega

/-- The bits of a double are its magnitude and its sign. -/
theorem toNat_toBits (x : Float) :
    x.toBits.toNat = magnitude x + if isNegative x then signBit else 0 :=
  (magnitude_add_sign x.toBits.toBitVec.isLt).symm

/-- Doubles of one sign and one magnitude are the same. -/
theorem eq_of_parts {x y : Float} (sameSign : isNegative x = isNegative y)
    (sameMagnitude : magnitude x = magnitude y) : x = y := by
  rw [← Float.toBits_inj, ← UInt64.toNat_inj, toNat_toBits x, toNat_toBits y, sameSign,
    sameMagnitude]

/-- The packed bits of an unpacked double tell its sign and its magnitude. -/
theorem parts_of_toNat_pack {f : UnpackedFloat} {negative : Bool} {bits : Nat}
    (below : bits < signBit)
    (isPacked : (UnpackedFloat.pack Format.binary64 f).toNat =
      (if negative then signBit else 0) + bits) :
    magnitude (.ofModel (.pack f)) = bits ∧ isNegative (.ofModel (.pack f)) = negative := by
  have isBits : (Float.ofModel (.pack f)).toBits.toNat =
      (if negative then signBit else 0) + bits := isPacked
  rw [magnitude, isNegative, isBits]
  cases negative
  · simp only [Bool.false_eq_true, if_false, Nat.zero_add, decide_eq_false_iff_not, not_le]
    exact ⟨Nat.mod_eq_of_lt below, below⟩
  · simp only [if_true, Nat.add_mod_left, decide_eq_true_eq]
    exact ⟨Nat.mod_eq_of_lt below, Nat.le_add_right signBit bits⟩

/-- The magnitude up to infinity and the sign of a double that is put together are those given. -/
theorem parts_ofParts {bits : Nat} (negative : Bool) (fits : bits ≤ infinity) :
    magnitude (ofParts negative bits) = bits ∧ isNegative (ofParts negative bits) = negative := by
  have below : bits < signBit := fits.trans_lt (by decide)
  have isUnpacked : UnpackedFloat.unpack Format.binary64
      (UInt64.ofNat (bits + if negative then signBit else 0)).toBitVec =
        unpacked negative bits := by
    have isBits : (UInt64.ofNat (bits + if negative then signBit else 0)).toBitVec.toNat =
        bits + if negative then signBit else 0 := by
      have fitsWord : bits + (if negative then signBit else 0) < 2 ^ 64 := by
        simp only [signBit] at *
        split <;> omega
      exact Nat.mod_eq_of_lt fitsWord
    rw [unpack_eq, isBits]
    cases negative
    · simp only [Bool.false_eq_true, if_false, Nat.add_zero, Nat.mod_eq_of_lt below]
      rw [decide_eq_false (Nat.not_le_of_lt below)]
    · simp only [if_true, Nat.add_mod_right, Nat.mod_eq_of_lt below]
      rw [decide_eq_true (Nat.le_add_left signBit bits)]
  refine parts_of_toNat_pack below ?_
  rw [isUnpacked]
  exact toNat_pack_unpacked fits

/-- A double is put together again from its parts. -/
theorem ofParts_parts (x : Float) : ofParts (isNegative x) (magnitude x) = x := by
  rw [ofParts, ← toNat_toBits, UInt64.ofNat_toNat, Float.ofBits_toBits]

/-- Beyond infinity there is only the double that is not a number. -/
theorem eq_nan_of_infinity_lt {x : Float} (isBeyond : infinity < magnitude x) : x = .nan := by
  have isUnpacked : x.toModel.unpack = .notANumber :=
    (unpack_toModel x).trans (if_pos isBeyond)
  have isNaN : x.isNaN := congrArg UnpackedFloat.isNaN isUnpacked
  rwa [Float.isNaN_eq_decide_eq_nan, decide_eq_true_eq] at isNaN

/-- A pattern of bits is put together from its sign and its magnitude. -/
theorem ofParts_toNat (pattern : UInt64) :
    ofParts (decide (signBit ≤ pattern.toNat)) (pattern.toNat % signBit) = .ofBits pattern := by
  rw [ofParts, magnitude_add_sign pattern.toNat_lt, UInt64.ofNat_toNat]

/-- A pattern that stands for a number is kept. -/
theorem toBits_ofBits {pattern : UInt64} (fits : pattern.toNat % signBit ≤ infinity) :
    (Float.ofBits pattern).toBits = pattern := by
  obtain ⟨isMagnitude, isSign⟩ := parts_ofParts (decide (signBit ≤ pattern.toNat)) fits
  rw [← UInt64.toNat_inj, ← ofParts_toNat, toNat_toBits, isMagnitude, isSign]
  exact magnitude_add_sign pattern.toBitVec.isLt

/-- A pattern beyond infinity is not a number. -/
theorem isNaN_ofBits {pattern : UInt64} (isNaN : infinity < pattern.toNat % signBit) :
    (Float.ofBits pattern).isNaN := by
  have isUnpacked : UnpackedFloat.unpack Format.binary64 pattern.toBitVec = .notANumber := by
    rw [unpack_eq]
    exact if_pos isNaN
  have isCanonical : Float.ofBits pattern = .ofModel (.pack .notANumber) := by
    rw [← isUnpacked]
    rfl
  rw [isCanonical]
  decide

end LispShell.Binary64
