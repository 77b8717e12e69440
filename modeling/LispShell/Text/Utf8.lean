import LispShell.Text.Digit

/-! # UTF-8
Characters as bytes and back. Bytes are cut into pieces: a well-formed character, or the longest
start of one that the next byte breaks. Strict decoding stops at the first malformed piece; lenient
decoding puts one replacement character in place of each. -/

namespace LispShell

/-- A row of bytes, the content of a file or an output. -/
abbrev Bytes := List UInt8

namespace Text

/-- The bytes of a character. -/
def encodeChar (c : Char) : Bytes :=
  let code := c.toNat
  if code < 0x80 then [.ofNat code]
  else if code < 0x800 then [.ofNat (0xc0 + code / 0x40), .ofNat (0x80 + code % 0x40)]
  else if code < 0x10000 then
    [.ofNat (0xe0 + code / 0x1000), .ofNat (0x80 + code / 0x40 % 0x40),
      .ofNat (0x80 + code % 0x40)]
  else
    [.ofNat (0xf0 + code / 0x40000), .ofNat (0x80 + code / 0x1000 % 0x40),
      .ofNat (0x80 + code / 0x40 % 0x40), .ofNat (0x80 + code % 0x40)]

/-- The bytes of a text. -/
def encode (s : String) : Bytes :=
  s.toList.flatMap encodeChar

/-- What is wrong with a malformed piece. -/
inductive Utf8Fault where
  /-- The byte begins no character. -/
  | invalidStart
  /-- The byte after the piece does not continue the character. -/
  | invalidContinuation
  /-- The bytes end inside the character. -/
  | unexpectedEnd
  deriving Repr, DecidableEq

/-- A character or a malformed piece, with its width in bytes. -/
inductive Piece where
  /-- A well-formed character. -/
  | char (value : Char) (width : Nat)
  /-- A malformed piece. -/
  | malformed (fault : Utf8Fault) (width : Nat)
  deriving Repr, DecidableEq

/-- The number of bytes of a piece. -/
def Piece.width : Piece → Nat
  | .char _ width => width
  | .malformed _ width => width

/-- What the first byte of a character of several bytes says about the others. -/
structure Lead where
  /-- The number of bytes that follow. -/
  extra : Nat
  /-- The bits that the first byte gives. -/
  value : Nat
  /-- The least second byte. -/
  low : Nat
  /-- The greatest second byte. -/
  high : Nat

/-- Reads the first byte of a character of several bytes. Overlong forms, surrogates and numbers
above the last character are excluded by the range of the second byte. -/
def lead? (byte : Nat) : Option Lead :=
  if byte < 0xc2 then none
  else if byte < 0xe0 then some ⟨1, byte - 0xc0, 0x80, 0xbf⟩
  else if byte < 0xf0 then
    some ⟨2, byte - 0xe0, if byte = 0xe0 then 0xa0 else 0x80, if byte = 0xed then 0x9f else 0xbf⟩
  else if byte < 0xf5 then
    some ⟨3, byte - 0xf0, if byte = 0xf0 then 0x90 else 0x80, if byte = 0xf4 then 0x8f else 0xbf⟩
  else none

/-- Reads the bytes that continue a character. -/
def continueChar (value low high width : Nat) : (extra : Nat) → Bytes → Piece
  | 0, _ => .char (Char.ofNat value) width
  | _ + 1, [] => .malformed .unexpectedEnd width
  | extra + 1, byte :: rest =>
    if low ≤ byte.toNat ∧ byte.toNat ≤ high then
      -- only the second byte has a range of its own
      continueChar (value * 0x40 + byte.toNat % 0x40) 0x80 0xbf (width + 1) extra rest
    else .malformed .invalidContinuation width

/-- The piece at the start of the bytes. -/
def firstPiece (byte : UInt8) (rest : Bytes) : Piece :=
  if byte.toNat < 0x80 then .char (Char.ofNat byte.toNat) 1
  else
    match lead? byte.toNat with
    | some lead => continueChar lead.value lead.low lead.high 1 lead.extra rest
    | none => .malformed .invalidStart 1

/-- The pieces that the bytes are made of. -/
def pieces : Bytes → List Piece
  | [] => []
  | byte :: rest =>
    let piece := firstPiece byte rest
    piece :: pieces (rest.drop (piece.width - 1))
termination_by bytes => bytes.length
decreasing_by simp only [List.length_drop, List.length_cons]; omega

/-- The first malformed piece of some bytes. -/
structure Malformed where
  /-- What is wrong. -/
  fault : Utf8Fault
  /-- The number of bytes before the piece. -/
  position : Nat
  /-- The width of the piece. -/
  width : Nat
  /-- The first byte of the piece. -/
  byte : UInt8
  deriving Repr, DecidableEq

/-- The characters of the pieces, or the first malformed one with its distance from the start. -/
def charsOfPieces (position : Nat) : List Piece → Except (Utf8Fault × Nat × Nat) (List Char)
  | [] => .ok []
  | .malformed fault width :: _ => .error (fault, position, width)
  | .char value width :: rest => (charsOfPieces (position + width) rest).map (value :: ·)

/-- Strict decoding. -/
def decode (bytes : Bytes) : Except Malformed String :=
  match charsOfPieces 0 (pieces bytes) with
  | .ok cs => .ok (String.ofList cs)
  | .error (fault, position, width) =>
    .error ⟨fault, position, width, (bytes[position]?).getD 0⟩

/-- Lenient decoding. -/
def decodeLossy (bytes : Bytes) : String :=
  String.ofList ((pieces bytes).map fun piece =>
    match piece with
    | .char value _ => value
    | .malformed _ _ => Char.ofNat 0xfffd)

/-- The wording of a fault. -/
def Utf8Fault.message : Utf8Fault → String
  | .invalidStart => "invalid start byte"
  | .invalidContinuation => "invalid continuation byte"
  | .unexpectedEnd => "unexpected end of data"

/-- The wording of a report on malformed bytes. -/
def Malformed.message (m : Malformed) : String :=
  "'utf-8' codec can't decode " ++
    (if m.width = 1 then
      "byte 0x" ++ String.ofList (hexNumeral 2 m.byte.toNat) ++ " in position " ++
        toString m.position
    else
      "bytes in position " ++ toString m.position ++ "-" ++ toString (m.position + m.width - 1)) ++
    ": " ++ m.fault.message

end Text

end LispShell
