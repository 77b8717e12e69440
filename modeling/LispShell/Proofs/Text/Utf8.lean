import LispShell.Text.Utf8
import Mathlib.Tactic.Common

/-! # UTF-8 there and back
Encoding and strict decoding are inverse to each other: every text is decoded from its bytes, and
bytes that decode are those of the text. Both come down to one character at the start of some
bytes. -/

namespace LispShell.Text

/-! ## One character -/

/-- The number of a character is below the surrogates or above them. -/
theorem toNat_valid (c : Char) : c.toNat < 0xd800 ∨ 0xdfff < c.toNat ∧ c.toNat < 0x110000 :=
  c.valid

/-- The number of the character that a number stands for. -/
theorem toNat_ofNat {code : Nat} (valid : code < 0xd800 ∨ 0xdfff < code ∧ code < 0x110000) :
    (Char.ofNat code).toNat = code := by
  rw [Char.ofNat, dif_pos valid]
  rfl

/-- The number of the byte that a number stands for. -/
theorem toNat_byte {code : Nat} (fits : code < 0x100) : (UInt8.ofNat code).toNat = code :=
  UInt8.toNat_ofNat_of_lt' fits

/-- A byte in the range continues a character. -/
theorem continueChar_cons {value low high width extra : Nat} {byte : UInt8} {rest : Bytes}
    (inRange : low ≤ byte.toNat ∧ byte.toNat ≤ high) :
    continueChar value low high width (extra + 1) (byte :: rest) =
      continueChar (value * 0x40 + byte.toNat % 0x40) 0x80 0xbf (width + 1) extra rest :=
  if_pos inRange

/-- A number below 64 as a byte that continues a character. -/
theorem continueChar_ofNat {value width extra bits : Nat} {rest : Bytes} (low high : Nat)
    (isSmall : bits < 0x40) (inRange : low ≤ 0x80 + bits ∧ 0x80 + bits ≤ high) :
    continueChar value low high width (extra + 1) (.ofNat (0x80 + bits) :: rest) =
      continueChar (value * 0x40 + bits) 0x80 0xbf (width + 1) extra rest := by
  have isByte : (UInt8.ofNat (0x80 + bits)).toNat = 0x80 + bits := toNat_byte (by omega)
  rw [continueChar_cons (by omega), isByte, show (0x80 + bits) % 0x40 = bits by omega]

/-- The piece that starts with the first byte of a character of several bytes. -/
theorem firstPiece_of_lead {byte extra value low high : Nat} {rest : Bytes} (fits : byte < 0x100)
    (several : 0x80 ≤ byte) (isLead : lead? byte = some ⟨extra, value, low, high⟩) :
    firstPiece (.ofNat byte) rest = continueChar value low high 1 extra rest := by
  rw [firstPiece, toNat_byte fits, if_neg (by omega), isLead]

variable {code : Nat} {rest : Bytes}

/-- The two bytes of a number are one piece. -/
theorem pieces_two (low : 0x80 ≤ code) (high : code < 0x800) :
    pieces (.ofNat (0xc0 + code / 0x40) :: .ofNat (0x80 + code % 0x40) :: rest) =
      .char (.ofNat code) 2 :: pieces rest := by
  have isLead : lead? (0xc0 + code / 0x40) = some ⟨1, code / 0x40, 0x80, 0xbf⟩ := by
    rw [lead?, if_neg (by omega), if_pos (by omega), Nat.add_sub_cancel_left]
  rw [pieces, firstPiece_of_lead (by omega) (by omega) isLead,
    continueChar_ofNat _ _ (by omega) (by omega), continueChar,
    show code / 0x40 * 0x40 + code % 0x40 = code by omega]
  rfl

/-- The three bytes of a number that is no surrogate are one piece. -/
theorem pieces_three (low : 0x800 ≤ code) (high : code < 0x10000)
    (notSurrogate : code < 0xd800 ∨ 0xdfff < code) :
    pieces (.ofNat (0xe0 + code / 0x1000) :: .ofNat (0x80 + code / 0x40 % 0x40) ::
        .ofNat (0x80 + code % 0x40) :: rest) =
      .char (.ofNat code) 3 :: pieces rest := by
  have isLead : lead? (0xe0 + code / 0x1000) =
      some ⟨2, code / 0x1000, if 0xe0 + code / 0x1000 = 0xe0 then 0xa0 else 0x80,
        if 0xe0 + code / 0x1000 = 0xed then 0x9f else 0xbf⟩ := by
    rw [lead?, if_neg (by omega), if_neg (by omega), if_pos (by omega), Nat.add_sub_cancel_left]
  have inRange : (if 0xe0 + code / 0x1000 = 0xe0 then 0xa0 else 0x80) ≤ 0x80 + code / 0x40 % 0x40 ∧
      0x80 + code / 0x40 % 0x40 ≤ if 0xe0 + code / 0x1000 = 0xed then 0x9f else 0xbf := by
    split
    · split <;> omega
    · split <;> omega
  rw [pieces, firstPiece_of_lead (by omega) (by omega) isLead,
    continueChar_ofNat _ _ (by omega) inRange, continueChar_ofNat _ _ (by omega) (by omega),
    continueChar,
    show (code / 0x1000 * 0x40 + code / 0x40 % 0x40) * 0x40 + code % 0x40 = code by omega]
  rfl

/-- The four bytes of a number that is not too high are one piece. -/
theorem pieces_four (low : 0x10000 ≤ code) (high : code < 0x110000) :
    pieces (.ofNat (0xf0 + code / 0x40000) :: .ofNat (0x80 + code / 0x1000 % 0x40) ::
        .ofNat (0x80 + code / 0x40 % 0x40) :: .ofNat (0x80 + code % 0x40) :: rest) =
      .char (.ofNat code) 4 :: pieces rest := by
  have isLead : lead? (0xf0 + code / 0x40000) =
      some ⟨3, code / 0x40000, if 0xf0 + code / 0x40000 = 0xf0 then 0x90 else 0x80,
        if 0xf0 + code / 0x40000 = 0xf4 then 0x8f else 0xbf⟩ := by
    rw [lead?, if_neg (by omega), if_neg (by omega), if_neg (by omega), if_pos (by omega),
      Nat.add_sub_cancel_left]
  have inRange :
      (if 0xf0 + code / 0x40000 = 0xf0 then 0x90 else 0x80) ≤ 0x80 + code / 0x1000 % 0x40 ∧
        0x80 + code / 0x1000 % 0x40 ≤ if 0xf0 + code / 0x40000 = 0xf4 then 0x8f else 0xbf := by
    split
    · split <;> omega
    · split <;> omega
  rw [pieces, firstPiece_of_lead (by omega) (by omega) isLead,
    continueChar_ofNat _ _ (by omega) inRange, continueChar_ofNat _ _ (by omega) (by omega),
    continueChar_ofNat _ _ (by omega) (by omega), continueChar,
    show ((code / 0x40000 * 0x40 + code / 0x1000 % 0x40) * 0x40 + code / 0x40 % 0x40) * 0x40 +
      code % 0x40 = code by omega]
  rfl

/-- A character is the first piece of its bytes, whatever comes after them. -/
theorem pieces_encodeChar_append (c : Char) (rest : Bytes) :
    pieces (encodeChar c ++ rest) = .char c (encodeChar c).length :: pieces rest := by
  have valid := toNat_valid c
  have isChar := Char.ofNat_toNat c
  rw [encodeChar]
  split
  case isTrue one =>
    rw [List.singleton_append, pieces, firstPiece, toNat_byte (by omega), if_pos one, isChar]
    rfl
  split
  case isTrue two =>
    exact (pieces_two (by omega) two).trans (by rw [isChar]; rfl)
  split
  case isTrue three =>
    exact (pieces_three (by omega) three (by omega)).trans (by rw [isChar]; rfl)
  case isFalse four =>
    exact (pieces_four (by omega) (by omega)).trans (by rw [isChar]; rfl)

/-! ## One piece -/

/-- The byte whose number is given. -/
theorem ofNat_eq_of_toNat {byte : UInt8} (isByte : code = byte.toNat) : UInt8.ofNat code = byte :=
  isByte ▸ UInt8.ofNat_toNat

/-- The bytes of a character by its number, where they are two. -/
theorem encodeChar_ofNat_two (low : 0x80 ≤ code) (high : code < 0x800) :
    encodeChar (.ofNat code) = [.ofNat (0xc0 + code / 0x40), .ofNat (0x80 + code % 0x40)] := by
  rw [encodeChar, toNat_ofNat (by omega), if_neg (by omega), if_pos high]

/-- The bytes of a character by its number, where they are three. -/
theorem encodeChar_ofNat_three (low : 0x800 ≤ code) (high : code < 0x10000)
    (notSurrogate : code < 0xd800 ∨ 0xdfff < code) :
    encodeChar (.ofNat code) =
      [.ofNat (0xe0 + code / 0x1000), .ofNat (0x80 + code / 0x40 % 0x40),
        .ofNat (0x80 + code % 0x40)] := by
  rw [encodeChar, toNat_ofNat (by omega), if_neg (by omega), if_neg (by omega), if_pos high]

/-- The bytes of a character by its number, where they are four. -/
theorem encodeChar_ofNat_four (low : 0x10000 ≤ code) (high : code < 0x110000) :
    encodeChar (.ofNat code) =
      [.ofNat (0xf0 + code / 0x40000), .ofNat (0x80 + code / 0x1000 % 0x40),
        .ofNat (0x80 + code / 0x40 % 0x40), .ofNat (0x80 + code % 0x40)] := by
  rw [encodeChar, toNat_ofNat (by omega), if_neg (by omega), if_neg (by omega), if_neg (by omega)]

/-- A piece that is a character is continued by a byte in the range. -/
theorem of_continueChar_succ {value low high width extra total : Nat} {c : Char}
    (isPiece : continueChar value low high width (extra + 1) rest = .char c total) :
    ∃ next tail, rest = next :: tail ∧ (low ≤ next.toNat ∧ next.toNat ≤ high) ∧
      continueChar (value * 0x40 + next.toNat % 0x40) 0x80 0xbf (width + 1) extra tail =
        .char c total := by
  cases rest with
  | nil => cases isPiece
  | cons next tail =>
    rw [continueChar] at isPiece
    split at isPiece
    case isTrue inRange => exact ⟨next, tail, rfl, inRange, isPiece⟩
    case isFalse => cases isPiece

section

variable {byte : UInt8} {c : Char} {total : Nat}

/-- The bytes of a piece of two bytes. -/
theorem eq_append_two (least : 0xc2 ≤ byte.toNat) (most : byte.toNat < 0xe0)
    (isPiece : continueChar (byte.toNat - 0xc0) 0x80 0xbf 1 1 rest = .char c total) :
    byte :: rest = encodeChar c ++ rest.drop (total - 1) := by
  obtain ⟨second, tail, rfl, inRange, isPiece⟩ := of_continueChar_succ isPiece
  cases isPiece
  rw [encodeChar_ofNat_two (by omega) (by omega), ofNat_eq_of_toNat (by omega : _ = byte.toNat),
    ofNat_eq_of_toNat (by omega : _ = second.toNat)]
  rfl

/-- The bytes of a piece of three bytes. -/
theorem eq_append_three (least : 0xe0 ≤ byte.toNat) (most : byte.toNat < 0xf0)
    (isPiece : continueChar (byte.toNat - 0xe0) (if byte.toNat = 0xe0 then 0xa0 else 0x80)
      (if byte.toNat = 0xed then 0x9f else 0xbf) 1 2 rest = .char c total) :
    byte :: rest = encodeChar c ++ rest.drop (total - 1) := by
  obtain ⟨second, tail, rfl, inRange, isPiece⟩ := of_continueChar_succ isPiece
  obtain ⟨third, tail, rfl, inRangeToo, isPiece⟩ := of_continueChar_succ isPiece
  cases isPiece
  have isSecond : 0x80 ≤ second.toNat ∧ second.toNat ≤ 0xbf ∧
      (byte.toNat = 0xe0 → 0xa0 ≤ second.toNat) ∧ (byte.toNat = 0xed → second.toNat ≤ 0x9f) := by
    split at inRange
    · split at inRange <;> omega
    · split at inRange <;> omega
  rw [encodeChar_ofNat_three (by omega) (by omega) (by omega),
    ofNat_eq_of_toNat (by omega : _ = byte.toNat),
    ofNat_eq_of_toNat (by omega : _ = second.toNat),
    ofNat_eq_of_toNat (by omega : _ = third.toNat)]
  rfl

/-- The bytes of a piece of four bytes. -/
theorem eq_append_four (least : 0xf0 ≤ byte.toNat) (most : byte.toNat < 0xf5)
    (isPiece : continueChar (byte.toNat - 0xf0) (if byte.toNat = 0xf0 then 0x90 else 0x80)
      (if byte.toNat = 0xf4 then 0x8f else 0xbf) 1 3 rest = .char c total) :
    byte :: rest = encodeChar c ++ rest.drop (total - 1) := by
  obtain ⟨second, tail, rfl, inRange, isPiece⟩ := of_continueChar_succ isPiece
  obtain ⟨third, tail, rfl, inRangeToo, isPiece⟩ := of_continueChar_succ isPiece
  obtain ⟨fourth, tail, rfl, inRangeThree, isPiece⟩ := of_continueChar_succ isPiece
  cases isPiece
  have isSecond : 0x80 ≤ second.toNat ∧ second.toNat ≤ 0xbf ∧
      (byte.toNat = 0xf0 → 0x90 ≤ second.toNat) ∧ (byte.toNat = 0xf4 → second.toNat ≤ 0x8f) := by
    split at inRange
    · split at inRange <;> omega
    · split at inRange <;> omega
  rw [encodeChar_ofNat_four (by omega) (by omega),
    ofNat_eq_of_toNat (by omega : _ = byte.toNat),
    ofNat_eq_of_toNat (by omega : _ = second.toNat),
    ofNat_eq_of_toNat (by omega : _ = third.toNat),
    ofNat_eq_of_toNat (by omega : _ = fourth.toNat)]
  rfl

/-- The bytes of a first piece that is a character are those of the character. -/
theorem eq_append_of_firstPiece (isPiece : firstPiece byte rest = .char c total) :
    byte :: rest = encodeChar c ++ rest.drop (total - 1) := by
  rw [firstPiece] at isPiece
  split at isPiece
  case isTrue one =>
    cases isPiece
    rw [encodeChar, toNat_ofNat (by omega), if_pos one, ofNat_eq_of_toNat rfl]
    rfl
  split at isPiece
  case h_2 => cases isPiece
  case h_1 lead isLead =>
  obtain ⟨extra, value, low, high⟩ := lead
  rw [lead?] at isLead
  split at isLead
  case isTrue => cases isLead
  split at isLead
  case isTrue two =>
    cases isLead
    exact eq_append_two (by omega) two isPiece
  split at isLead
  case isTrue three =>
    cases isLead
    exact eq_append_three (by omega) three isPiece
  split at isLead
  case isTrue four =>
    cases isLead
    exact eq_append_four (by omega) four isPiece
  case isFalse => cases isLead

end

/-! ## Texts -/

/-- The bytes of two texts in a row are those of the one and then those of the other. -/
theorem encode_append (first second : String) :
    encode (first ++ second) = encode first ++ encode second := by
  rw [encode, String.toList_append, List.flatMap_append]
  rfl

/-- The bytes of characters are cut into the characters. -/
theorem charsOfPieces_flatMap (position : Nat) (cs : List Char) :
    charsOfPieces position (pieces (cs.flatMap encodeChar)) = .ok cs := by
  induction cs generalizing position with
  | nil => rw [List.flatMap_nil, pieces, charsOfPieces]
  | cons c rest inductionHypothesis =>
    rw [List.flatMap_cons, pieces_encodeChar_append, charsOfPieces, inductionHypothesis]
    rfl

/-- Bytes that are cut into characters are those of the characters. -/
theorem eq_flatMap_of_charsOfPieces {position : Nat} {bytes : Bytes} {cs : List Char}
    (areChars : charsOfPieces position (pieces bytes) = .ok cs) :
    bytes = cs.flatMap encodeChar := by
  induction bytes using pieces.induct generalizing position cs
  case case1 =>
    rw [pieces] at areChars
    cases areChars
    rfl
  case case2 byte rest piece inductionHypothesis =>
    have isPiece : firstPiece byte rest = piece := rfl
    rw [pieces, isPiece] at areChars
    clear_value piece
    cases piece with
    | malformed fault width => cases areChars
    | char c width =>
      rw [charsOfPieces] at areChars
      match areRest : charsOfPieces (position + width) (pieces (rest.drop (width - 1))) with
      | .error fault =>
        rw [Piece.width, areRest] at areChars
        cases areChars
      | .ok others =>
        rw [Piece.width, areRest] at areChars
        cases areChars
        rw [List.flatMap_cons, ← inductionHypothesis areRest]
        exact eq_append_of_firstPiece isPiece

/-- Strict decoding gives a text just for its bytes. -/
theorem decode_eq_ok_iff {bytes : Bytes} {s : String} :
    decode bytes = .ok s ↔ bytes = encode s := by
  constructor
  · intro isText
    rw [decode] at isText
    split at isText
    case h_1 cs areChars =>
      cases isText
      rw [encode, String.toList_ofList]
      exact eq_flatMap_of_charsOfPieces areChars
    case h_2 => cases isText
  · rintro rfl
    rw [decode, encode, charsOfPieces_flatMap]
    dsimp only
    rw [String.ofList_toList]

end LispShell.Text
