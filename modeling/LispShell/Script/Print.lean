import LispShell.Number.Format
import LispShell.Script.Arithmetic
import LispShell.Text.Utf8

/-! # Printing in scripts
The escapes of `echo` and `printf`, and the conversions of `printf`. Escapes give bytes, which need
not be the bytes of a text. -/

namespace LispShell.Script.Print

/-- The value of up to `most` octal digits at the start of the characters, and what follows. -/
def octal : (most : Nat) → (value : Nat) → List Char → Nat × List Char
  | 0, value, cs => (value, cs)
  | most + 1, value, c :: rest =>
    if '0' ≤ c ∧ c ≤ '7' then octal most (8 * value + (c.toNat - '0'.toNat)) rest
    else (value, c :: rest)
  | _ + 1, value, [] => (value, [])

/-- The byte of an escape letter. -/
def letter? : Char → Option UInt8
  | 'a' => some 7
  | 'b' => some 8
  | 'e' => some 27
  | 'f' => some 12
  | 'n' => some 10
  | 'r' => some 13
  | 't' => some 9
  | 'v' => some 11
  | '\\' => some 92
  | _ => none

/-- The bytes of an escape after its backslash, and what follows it. An unknown one is the backslash
itself. -/
def escape (cs : List Char) : Bytes × List Char :=
  match cs with
  | [] => ([92], [])
  | c :: rest =>
    match letter? c with
    | some byte => ([byte], rest)
    | none =>
      if '0' ≤ c ∧ c ≤ '7' then
        let (value, after) := octal 3 0 cs
        ([.ofNat value], after)
      else ([92], cs)

/-- The bytes of a text with the escapes of `echo`, and whether one of them ends the output; `bound`
is greater than the number of characters. -/
def expand : (bound : Nat) → List Char → Bytes × Bool
  | 0, _ => ([], false)
  | _ + 1, [] => ([], false)
  | _ + 1, '\\' :: 'c' :: _ => ([], true)
  | bound + 1, '\\' :: '0' :: rest =>
    let (value, after) := octal 3 0 rest
    let (bytes, ended) := expand bound after
    (.ofNat value :: bytes, ended)
  | bound + 1, '\\' :: rest =>
    let (first, after) := escape rest
    let (bytes, ended) := expand bound after
    (first ++ bytes, ended)
  | bound + 1, c :: rest =>
    let (bytes, ended) := expand bound rest
    (Text.encodeChar c ++ bytes, ended)

/-- The output of `echo`. -/
def echo (arguments : List String) : Bytes :=
  let (newline, texts) :=
    match arguments with
    | "-n" :: rest => (false, rest)
    | _ => (true, arguments)
  let joined := (String.intercalate " " texts).toList
  let (bytes, ended) := expand (joined.length + 1) joined
  if newline && !ended then bytes ++ [10] else bytes

/-- A size in a conversion. -/
inductive Size where
  /-- As written. -/
  | fixed (value : Nat)
  /-- Taken from the next argument. -/
  | taken
  deriving Repr, DecidableEq

/-- A conversion of `printf`. -/
structure Conversion where
  /-- The flags. -/
  flags : List Char
  /-- The least width. -/
  width : Size
  /-- The precision. -/
  precision : Option Size
  /-- The letter. -/
  letter : Char

/-- What a format is made of. -/
inductive Piece where
  /-- Bytes as they are. -/
  | bytes (bytes : Bytes)
  /-- A conversion of the next argument. -/
  | conversion (conversion : Conversion)
  /-- A conversion that makes no sense. -/
  | invalid (reason : String)

/-- The whole number with the given decimal digits. -/
def digitsValue (digits : List Char) : Nat :=
  digits.foldl (fun value c => 10 * value + (c.toNat - '0'.toNat)) 0

/-- The size at the start of the characters, and what follows it. -/
def size : List Char → Size × List Char
  | '*' :: rest => (.taken, rest)
  | cs => (.fixed (digitsValue (cs.takeWhile Char.isDigit)), cs.dropWhile Char.isDigit)

/-- The letters of conversions. -/
def letters : List Char :=
  "bcdiouxXsfF".toList

/-- The conversion after a percent sign, and what follows it. -/
def conversion (cs : List Char) : Piece × List Char :=
  let isFlag := fun c => "-+ #0".toList.contains c
  let flags := cs.takeWhile isFlag
  let (width, afterWidth) := size (cs.dropWhile isFlag)
  let (precision, afterPrecision) :=
    match afterWidth with
    | '.' :: rest =>
      let (precision, after) := size rest
      (some precision, after)
    | other => (none, other)
  match afterPrecision with
  | [] => (.invalid "missing format character", [])
  | letter :: rest =>
    if letters.contains letter then (.conversion ⟨flags, width, precision, letter⟩, rest)
    else
      let written := String.ofList (cs.take (cs.length - rest.length))
      (.invalid ("%" ++ written ++ ": invalid directive"), [])

/-- The pieces of a format; `bound` is greater than the number of characters. -/
def pieces : (bound : Nat) → List Char → List Piece
  | 0, _ => []
  | _ + 1, [] => []
  | bound + 1, '\\' :: rest =>
    let (bytes, after) := escape rest
    .bytes bytes :: pieces bound after
  | bound + 1, '%' :: '%' :: rest => .bytes [37] :: pieces bound rest
  | bound + 1, '%' :: rest =>
    let (piece, after) := conversion rest
    piece :: pieces bound after
  | bound + 1, c :: rest => .bytes (Text.encodeChar c) :: pieces bound rest

/-- The number at the start of a text and what is wrong with the text, if anything. What follows the
sign is read by `read`, and `ofCode` takes the code of a quoted character. -/
def numberOf {α : Type} (zero : α) (ofCode : Nat → α) (negate : α → α)
    (read : List Char → α × List Char) (text : String) : α × Option String :=
  let (negative, digits) :=
    match text.toList.dropWhile Char.isWhitespace with
    | '-' :: rest => (true, rest)
    | '+' :: rest => (false, rest)
    | other => (false, other)
  match text.toList with
  | [] => (zero, none)
  | '\x27' :: c :: _ => (ofCode c.toNat, none)
  | '"' :: c :: _ => (ofCode c.toNat, none)
  | _ =>
    let (value, rest) := read digits
    let signed := if negative then negate value else value
    if rest.length = digits.length then (zero, some (text ++ ": expected numeric value"))
    else if rest.isEmpty then (signed, none)
    else (signed, some (text ++ ": not completely converted"))

/-- The integer that an argument stands for. -/
def integer (text : String) : Int × Option String :=
  numberOf 0 (fun code => code) (fun value => -value)
    (fun cs => if (cs.head?.map Char.isDigit).getD false then Arithmetic.numeral cs else (0, cs))
    text

/-- The fraction that an argument stands for, as its sign and a quotient. -/
def fraction (text : String) : (Bool × Nat × Nat) × Option String :=
  numberOf (false, 0, 1) (fun code => (false, code, 1)) (fun (_, n, d) => (true, n, d))
    (fun cs =>
      let whole := cs.takeWhile Char.isDigit
      let (places, after) :=
        match cs.dropWhile Char.isDigit with
        | '.' :: rest => (rest.takeWhile Char.isDigit, rest.dropWhile Char.isDigit)
        | other => ([], other)
      ((false, digitsValue (whole ++ places), Nat.pow 10 places.length),
        if whole.isEmpty && places.isEmpty then cs else after))
    text

/-- Bytes filled up to a width. -/
def pad (flags : List Char) (width : Nat) (numeric : Bool) (bytes : Bytes) : Bytes :=
  let missing := width - bytes.length
  if flags.contains '-' then bytes ++ List.replicate missing 32
  else if flags.contains '0' && numeric then
    match bytes with
    | 45 :: digits => 45 :: List.replicate missing 48 ++ digits
    | 43 :: digits => 43 :: List.replicate missing 48 ++ digits
    | digits => List.replicate missing 48 ++ digits
  else List.replicate missing 32 ++ bytes

/-- The digits of a number in a base, in upper case if asked for. -/
def digitsIn (base : Nat) (upper : Bool) (value : Nat) : List Char :=
  let digits := Nat.toDigits base value
  if upper then digits.map Char.toUpper else digits

/-- The mark before the digits of a number with another base. -/
def baseMark (flags : List Char) (letter : Char) (value : Nat) : List Char :=
  if flags.contains '#' && value != 0 then
    match letter with
    | 'x' => ['0', 'x']
    | 'X' => ['0', 'X']
    | 'o' => ['0']
    | _ => []
  else []

/-- The sign of a number. -/
def signMark (flags : List Char) (negative : Bool) : List Char :=
  if negative then ['-']
  else if flags.contains '+' then ['+']
  else if flags.contains ' ' then [' ']
  else []

/-- The digits of a fraction with so many places, a half going to the even digit. -/
def fixedPlaces (places numerator denominator : Nat) : List Char :=
  let scaled := Binary64.roundHalfEven (numerator * Nat.pow 10 places) denominator
  let whole := Nat.toDigits 10 (scaled / Nat.pow 10 places)
  if places = 0 then whole else whole ++ '.' :: Decimal.fixedText places scaled

/-- What a conversion makes of an argument. -/
structure Converted where
  /-- The bytes. -/
  bytes : Bytes
  /-- What is wrong with the argument. -/
  complaint : Option String
  /-- Whether the output is over. -/
  ended : Bool

/-- The conversion of an argument with a width and a precision. -/
def convert (flags : List Char) (letter : Char) (width : Nat) (precision : Option Nat)
    (argument : String) : Converted :=
  let cut := fun (bytes : Bytes) =>
    match precision with
    | some most => bytes.take most
    | none => bytes
  let number := fun (digits : List Char) (complaint : Option String) =>
    Converted.mk (pad flags width true (digits.flatMap Text.encodeChar)) complaint false
  let (value, complaint) := integer argument
  let withZeros := fun (digits : List Char) =>
    List.replicate ((precision.getD 1) - digits.length) '0' ++ digits
  let inBase := fun (base : Nat) =>
    let unsigned := Arithmetic.lowBits value
    number (baseMark flags letter unsigned ++ withZeros (digitsIn base (letter == 'X') unsigned))
      complaint
  match letter with
  | 'b' =>
    let (bytes, ended) := expand (argument.length + 1) argument.toList
    ⟨pad flags width false (cut bytes), none, ended⟩
  | 'c' =>
    let bytes := if argument == "" then [0] else (Text.encode argument).take 1
    ⟨pad flags width false bytes, none, false⟩
  | 's' => ⟨pad flags width false (cut (Text.encode argument)), none, false⟩
  | 'u' => inBase 10
  | 'o' => inBase 8
  | 'x' => inBase 16
  | 'X' => inBase 16
  | 'f' =>
    let ((negative, n, d), complaint) := fraction argument
    number (signMark flags negative ++ fixedPlaces (precision.getD 6) n d) complaint
  | 'F' =>
    let ((negative, n, d), complaint) := fraction argument
    number (signMark flags negative ++ fixedPlaces (precision.getD 6) n d) complaint
  | _ =>
    number (signMark flags (value < 0) ++ withZeros (Nat.toDigits 10 value.natAbs)) complaint

/-- What one pass over a format prints. -/
structure Printed where
  /-- The bytes. -/
  bytes : Bytes
  /-- What is wrong with the arguments. -/
  complaints : List String
  /-- What is wrong with the format. -/
  fault : Option String
  /-- The arguments left. -/
  left : List String
  /-- Whether the output is over. -/
  ended : Bool

/-- The value of a size and the arguments left. -/
def sizeValue (arguments : List String) : Size → Nat × List String
  | .fixed value => (value, arguments)
  | .taken => ((integer (arguments.headD "")).1.toNat, arguments.tail)

/-- One pass over a format. -/
def pass (arguments : List String) : List Piece → Printed
  | [] => ⟨[], [], none, arguments, false⟩
  | .invalid reason :: _ => ⟨[], [], some reason, [], true⟩
  | .bytes bytes :: rest =>
    let printed := pass arguments rest
    { printed with bytes := bytes ++ printed.bytes }
  | .conversion conversion :: rest =>
    let (width, arguments) := sizeValue arguments conversion.width
    let (precision, arguments) :=
      match conversion.precision with
      | none => (none, arguments)
      | some size =>
        let (value, arguments) := sizeValue arguments size
        (some value, arguments)
    let converted :=
      convert conversion.flags conversion.letter width precision (arguments.headD "")
    if converted.ended then ⟨converted.bytes, [], none, [], true⟩
    else
      let printed := pass arguments.tail rest
      { printed with
        bytes := converted.bytes ++ printed.bytes
        complaints := converted.complaint.toList ++ printed.complaints }

/-- The output of `printf`: the format is used again as long as it takes arguments and some are
left. -/
def format (parts : List Piece) : (bound : Nat) → (arguments : List String) → Printed
  | 0, arguments => ⟨[], [], none, arguments, true⟩
  | bound + 1, arguments =>
    let printed := pass arguments parts
    if printed.ended || printed.left.isEmpty || printed.left.length == arguments.length then printed
    else
      let again := format parts bound printed.left
      { again with
        bytes := printed.bytes ++ again.bytes
        complaints := printed.complaints ++ again.complaints }

/-- The output of `printf` with a format and arguments. -/
def printf (text : String) (arguments : List String) : Printed :=
  format (pieces (text.length + 1) text.toList) (arguments.length + 1) arguments

end LispShell.Script.Print
