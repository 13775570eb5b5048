import ShardCache.Json.Value
import ShardCache.Decimal.Nearest
/-!
# Reading JSON

`read` turns one line of text into a `Value`, or into a `SyntaxError` that
says what was wrong and where, as `line L column C`. The reader works on the
UTF-8 bytes of the text: the column is the number of bytes of the line up to
the place of the error.

What a document becomes:

* An object keeps one member per name, in increasing order of names; of two
  members with one name the later wins.
* A number written without fraction or exponent becomes `Value.nat` when it
  is below `2^64`. A negative one that fits 64-bit two's complement becomes a
  `Value.number` holding its decimal text. Every other number is a double and
  becomes the `Value.number` of the shortest text that reads back
  (`Decimal.bitsText`): `1.0` stays `1.0`, `1e2` becomes `100.0`, `-0`
  becomes `-0.0`.
* A double is computed from the decimal digits, at most 64 bits of them (a
  later digit only moves the exponent), as the double nearest to that integer,
  then multiplied or divided by the double nearest to `10^k` with one rounding
  each (`fromParts`); a result beyond the largest double is an error.
* A string may hold any character but the controls below U+0020, which must
  be escaped. `\uXXXX` escapes of UTF-16 surrogates must come in pairs.

Each error is reported at the byte where it is noticed: a byte that was read
and refused counts itself, one that was only looked at counts only its first
byte. Arrays and objects nest at most 127 deep.
-/
namespace ShardCache.Json

/-- What a reader can find wrong with a text. -/
inductive ErrorCode where
  | eofWhileParsingList
  | eofWhileParsingObject
  | eofWhileParsingString
  | eofWhileParsingValue
  | expectedColon
  | expectedListCommaOrEnd
  | expectedObjectCommaOrEnd
  | expectedSomeIdent
  | expectedSomeValue
  | invalidEscape
  | invalidNumber
  | numberOutOfRange
  | controlCharacterWhileParsingString
  | keyMustBeAString
  | loneLeadingSurrogateInHexEscape
  | trailingComma
  | trailingCharacters
  | unexpectedEndOfHexEscape
  | recursionLimitExceeded
deriving DecidableEq, Repr

/-- The description of an error. -/
def ErrorCode.text : ErrorCode → String
  | .eofWhileParsingList => "EOF while parsing a list"
  | .eofWhileParsingObject => "EOF while parsing an object"
  | .eofWhileParsingString => "EOF while parsing a string"
  | .eofWhileParsingValue => "EOF while parsing a value"
  | .expectedColon => "expected `:`"
  | .expectedListCommaOrEnd => "expected `,` or `]`"
  | .expectedObjectCommaOrEnd => "expected `,` or `\x7d`"
  | .expectedSomeIdent => "expected ident"
  | .expectedSomeValue => "expected value"
  | .invalidEscape => "invalid escape"
  | .invalidNumber => "invalid number"
  | .numberOutOfRange => "number out of range"
  | .controlCharacterWhileParsingString =>
    "control character (\\u0000-\\u001F) found while parsing a string"
  | .keyMustBeAString => "key must be a string"
  | .loneLeadingSurrogateInHexEscape => "lone leading surrogate in hex escape"
  | .trailingComma => "trailing comma"
  | .trailingCharacters => "trailing characters"
  | .unexpectedEndOfHexEscape => "unexpected end of hex escape"
  | .recursionLimitExceeded => "recursion limit exceeded"

/-- An error and where it was found. -/
structure SyntaxError where
  code : ErrorCode
  line : Nat
  column : Nat
deriving DecidableEq, Repr

/-- The text of an error: its description and its place. -/
def SyntaxError.message (e : SyntaxError) : String :=
  e.code.text ++ " at line " ++ toString e.line ++ " column " ++ toString e.column

/-- A step of reading: what was read and the index after it. -/
abbrev Parse (α : Type) := Except SyntaxError (α × Nat)

namespace Reader

/-- The byte at `i`, as a number. -/
def byte? (src : Array UInt8) (i : Nat) : Option Nat := src[i]?.map UInt8.toNat

/-- The line and column after the first `i` bytes: lines count from 1, and
the column is the number of bytes since the last line feed. -/
def positionOf (src : Array UInt8) (i : Nat) : Nat × Nat :=
  (src.toList.take i).foldl
    (fun (p : Nat × Nat) b => if b = 10 then (p.1 + 1, 0) else (p.1, p.2 + 1)) (1, 0)

/-- An error noticed after the first `i` bytes were read. -/
def errorAt (src : Array UInt8) (code : ErrorCode) (i : Nat) : SyntaxError :=
  let (line, column) := positionOf src i
  ⟨code, line, column⟩

/-- An error noticed on looking at the byte at `i`, without reading it. -/
def peekErrorAt (src : Array UInt8) (code : ErrorCode) (i : Nat) : SyntaxError :=
  errorAt src code (min src.size (i + 1))

/-- Whether a byte is JSON whitespace: space, line feed, tab or carriage return. -/
def isWhitespace (b : Nat) : Bool := b = 32 || b = 10 || b = 9 || b = 13

/-- Whether a byte is a decimal digit. -/
def isDigit (b : Nat) : Bool := 48 ≤ b && b ≤ 57

/-- The first index at or after `i` that is not whitespace. -/
def skipWhitespace (src : Array UInt8) (i : Nat) : Nat :=
  if h : i < src.size then
    if isWhitespace src[i].toNat then skipWhitespace src (i + 1) else i
  else i
termination_by src.size - i

/-- The first index at or after `i` that is not a digit. -/
def skipDigits (src : Array UInt8) (i : Nat) : Nat :=
  if h : i < src.size then
    if isDigit src[i].toNat then skipDigits src (i + 1) else i
  else i
termination_by src.size - i

/-- Reads the rest of `null`, `true` or `false`. -/
def ident (src : Array UInt8) : List Nat → Nat → Except SyntaxError Nat
  | [], i => .ok i
  | e :: rest, i =>
    match byte? src i with
    | none => .error (errorAt src .eofWhileParsingValue i)
    | some b => if b = e then ident src rest (i + 1) else .error (errorAt src .expectedSomeIdent (i + 1))

/-- The largest 64-bit word. -/
def wordLimit : Nat := Nat.pow 2 64 - 1

/-- The largest 32-bit signed integer. -/
def exponentLimit : Nat := 2147483647

/-- Whether `a · 10 + d` would pass `limit`. -/
def overflows (a d limit : Nat) : Bool := limit / 10 ≤ a && (limit / 10 < a || limit % 10 < d)

/-- An exponent held to the 32-bit signed range. -/
def saturate (x : Int) : Int := max (-2147483648) (min 2147483647 x)

/-- Scales the double `f` by `10^exponent`: one multiplication or division
by the double nearest to a power of ten up to `10^308`, with divisions by
`10^308` first while the exponent is further below; `none` when the result
is beyond the largest double. -/
def scaleLoop (f : UInt64) (exponent : Int) : Nat → Option UInt64
  | 0 => some f
  | fuel + 1 =>
    if exponent.natAbs ≤ 308 then
      if 0 ≤ exponent then
        let g := Decimal.mul f (Decimal.powerOfTen exponent.natAbs)
        if g = Decimal.infinityBits then none else some g
      else some (Decimal.div f (Decimal.powerOfTen exponent.natAbs))
    else if f = 0 then some f
    else if 0 ≤ exponent then none
    else scaleLoop (Decimal.div f (Decimal.powerOfTen 308)) (exponent + 308) fuel

/-- The double of `± significand · 10^exponent`, or `none` beyond the
largest double. Eight rounds of `scaleLoop` are more than enough: three
divisions by `10^308` bring any double to zero. -/
def fromParts (positive : Bool) (significand : Nat) (exponent : Int) : Option UInt64 :=
  (scaleLoop (Decimal.nearest significand 1) exponent 8).map fun f =>
    if positive then f else f ||| Decimal.signBit

/-- A double as a document. -/
def doubleValue (bits : UInt64) : Value := .number (Decimal.bitsText bits)

/-- Ends a number as the double `± significand · 10^exponent`. -/
def finishDouble (src : Array UInt8) (positive : Bool) (significand : Nat) (exponent : Int)
    (i : Nat) : Parse Value :=
  match fromParts positive significand exponent with
  | some bits => .ok (doubleValue bits, i)
  | none => .error (errorAt src .numberOutOfRange i)

/-- An exponent too large for 32 bits: an error for a non-zero number with a
positive exponent, a zero otherwise. -/
def exponentOverflow (src : Array UInt8) (positive zeroSignificand positiveExp : Bool)
    (i : Nat) : Parse Value :=
  if !zeroSignificand && positiveExp then .error (errorAt src .numberOutOfRange i)
  else .ok (doubleValue (if positive then 0 else Decimal.signBit), skipDigits src i)

/-- Reads the digits of an exponent, `exp` so far. -/
def exponentDigits (src : Array UInt8) (positive : Bool) (significand : Nat) (startingExp : Int)
    (positiveExp : Bool) (exp : Nat) (i : Nat) : Parse Value :=
  if h : i < src.size then
    let b := src[i].toNat
    if isDigit b then
      let digit := b - 48
      if overflows exp digit exponentLimit then
        exponentOverflow src positive (significand = 0) positiveExp (i + 1)
      else exponentDigits src positive significand startingExp positiveExp (exp * 10 + digit) (i + 1)
    else
      finishDouble src positive significand
        (saturate (if positiveExp then startingExp + exp else startingExp - exp)) i
  else
    finishDouble src positive significand
      (saturate (if positiveExp then startingExp + exp else startingExp - exp)) i
termination_by src.size - i

/-- Reads an exponent, from its `e` at `i`. -/
def exponentPart (src : Array UInt8) (positive : Bool) (significand : Nat) (startingExp : Int)
    (i : Nat) : Parse Value :=
  let (positiveExp, j) := match byte? src (i + 1) with
    | some 43 => (true, i + 2)
    | some 45 => (false, i + 2)
    | _ => (true, i + 1)
  match byte? src j with
  | none => .error (errorAt src .eofWhileParsingValue j)
  | some b =>
    if isDigit b then exponentDigits src positive significand startingExp positiveExp (b - 48) (j + 1)
    else .error (errorAt src .invalidNumber (j + 1))

/-- Skips the digits that no longer fit the significand, then reads an
exponent if one follows. -/
def decimalOverflow (src : Array UInt8) (positive : Bool) (significand : Nat) (exponent : Int)
    (i : Nat) : Parse Value :=
  let j := skipDigits src i
  match byte? src j with
  | some 101 | some 69 => exponentPart src positive significand exponent j
  | _ => finishDouble src positive significand exponent j

/-- Reads the digits after the decimal point, `after` of them so far. -/
def fractionDigits (src : Array UInt8) (positive : Bool) (significand : Nat) (expBefore : Int)
    (after : Nat) (i : Nat) : Parse Value :=
  if h : i < src.size then
    let b := src[i].toNat
    if isDigit b then
      let digit := b - 48
      if overflows significand digit wordLimit then
        decimalOverflow src positive significand (expBefore - after) i
      else fractionDigits src positive (significand * 10 + digit) expBefore (after + 1) (i + 1)
    else if after = 0 then .error (peekErrorAt src .invalidNumber i)
    else if b = 101 ∨ b = 69 then exponentPart src positive significand (expBefore - after) i
    else finishDouble src positive significand (expBefore - after) i
  else if after = 0 then .error (peekErrorAt src .eofWhileParsingValue i)
  else finishDouble src positive significand (expBefore - after) i
termination_by src.size - i

/-- Reads a fraction, from its point at `i`. -/
def fractionPart (src : Array UInt8) (positive : Bool) (significand : Nat) (expBefore : Int)
    (i : Nat) : Parse Value :=
  fractionDigits src positive significand expBefore 0 (i + 1)

/-- Reads the digits of an integer that no longer fit 64 bits: each moves
the exponent. -/
def longInteger (src : Array UInt8) (positive : Bool) (significand exponent : Nat) (i : Nat) :
    Parse Value :=
  if h : i < src.size then
    let b := src[i].toNat
    if isDigit b then longInteger src positive significand (exponent + 1) (i + 1)
    else if b = 46 then fractionPart src positive significand exponent i
    else if b = 101 ∨ b = 69 then exponentPart src positive significand exponent i
    else finishDouble src positive significand exponent i
  else finishDouble src positive significand exponent i
termination_by src.size - i

/-- Ends a number after its integral digits. -/
def numberEnd (src : Array UInt8) (positive : Bool) (significand : Nat) (i : Nat) : Parse Value :=
  match byte? src i with
  | some 46 => fractionPart src positive significand 0 i
  | some 101 | some 69 => exponentPart src positive significand 0 i
  | _ =>
    if positive then .ok (.nat significand, i)
    else if significand = 0 ∨ Nat.pow 2 63 < significand then
      .ok (doubleValue (Decimal.nearest significand 1 ||| Decimal.signBit), i)
    else .ok (.number ("-" ++ toString significand), i)

/-- Reads integral digits, `significand` so far. -/
def integerDigits (src : Array UInt8) (positive : Bool) (significand : Nat) (i : Nat) : Parse Value :=
  if h : i < src.size then
    let b := src[i].toNat
    if isDigit b then
      let digit := b - 48
      if overflows significand digit wordLimit then longInteger src positive significand 0 i
      else integerDigits src positive (significand * 10 + digit) (i + 1)
    else numberEnd src positive significand i
  else numberEnd src positive significand i
termination_by src.size - i

/-- Reads a number from its first digit at `i` (after the minus sign of a
negative one). -/
def integer (src : Array UInt8) (positive : Bool) (i : Nat) : Parse Value :=
  match byte? src i with
  | none => .error (errorAt src .eofWhileParsingValue i)
  | some 48 =>
    match byte? src (i + 1) with
    | some b => if isDigit b then .error (peekErrorAt src .invalidNumber (i + 1)) else numberEnd src positive 0 (i + 1)
    | none => numberEnd src positive 0 (i + 1)
  | some b =>
    if isDigit b then integerDigits src positive (b - 48) (i + 1)
    else .error (errorAt src .invalidNumber (i + 1))

/-- The value of a hexadecimal digit. -/
def hexValue (b : Nat) : Option Nat :=
  if 48 ≤ b ∧ b ≤ 57 then some (b - 48)
  else if 97 ≤ b ∧ b ≤ 102 then some (b - 87)
  else if 65 ≤ b ∧ b ≤ 70 then some (b - 55)
  else none

/-- Reads the four hexadecimal digits of a `\u` escape. -/
def hexEscape (src : Array UInt8) (i : Nat) : Except SyntaxError (Nat × Nat) :=
  if i + 4 ≤ src.size then
    match (byte? src i).bind hexValue, (byte? src (i + 1)).bind hexValue,
        (byte? src (i + 2)).bind hexValue, (byte? src (i + 3)).bind hexValue with
    | some a, some b, some c, some d => .ok (((a * 16 + b) * 16 + c) * 16 + d, i + 4)
    | _, _, _, _ => .error (errorAt src .invalidEscape (i + 4))
  else .error (errorAt src .eofWhileParsingString src.size)

/-- The UTF-8 bytes of a code point. -/
def utf8Bytes (n : Nat) : List UInt8 := (String.singleton (Char.ofNat n)).toUTF8.toList

/-- Reads a `\u` escape from its first digit at `i`; a leading surrogate
must be followed by a `\u` escape of a trailing one. -/
def unicodeEscape (src : Array UInt8) (i : Nat) : Except SyntaxError (List UInt8 × Nat) := do
  let (n, j) ← hexEscape src i
  if 0xDC00 ≤ n ∧ n ≤ 0xDFFF then throw (errorAt src .loneLeadingSurrogateInHexEscape j)
  if n < 0xD800 ∨ 0xDBFF < n then return (utf8Bytes n, j)
  match byte? src j with
  | none => throw (errorAt src .eofWhileParsingString j)
  | some b =>
    if b ≠ 92 then throw (errorAt src .unexpectedEndOfHexEscape (j + 1))
    match byte? src (j + 1) with
    | none => throw (errorAt src .eofWhileParsingString (j + 1))
    | some u =>
      if u ≠ 117 then throw (errorAt src .unexpectedEndOfHexEscape (j + 2))
      let (m, k) ← hexEscape src (j + 2)
      if m < 0xDC00 ∨ 0xDFFF < m then throw (errorAt src .loneLeadingSurrogateInHexEscape k)
      return (utf8Bytes ((n - 0xD800) * 1024 + (m - 0xDC00) + 0x10000), k)

/-- Reads an escape from the byte after its backslash at `i`. -/
def escape (src : Array UInt8) (i : Nat) : Except SyntaxError (List UInt8 × Nat) :=
  match byte? src i with
  | none => .error (errorAt src .eofWhileParsingString i)
  | some 34 => .ok ([34], i + 1)
  | some 92 => .ok ([92], i + 1)
  | some 47 => .ok ([47], i + 1)
  | some 98 => .ok ([8], i + 1)
  | some 102 => .ok ([12], i + 1)
  | some 110 => .ok ([10], i + 1)
  | some 114 => .ok ([13], i + 1)
  | some 116 => .ok ([9], i + 1)
  | some 117 => unicodeEscape src (i + 1)
  | some _ => .error (errorAt src .invalidEscape (i + 1))

/-- Reads the bytes of a string up to its closing quote; every round reads
at least one byte, so `fuel` above the bytes left is enough. -/
def stringBytes (src : Array UInt8) (acc : Array UInt8) (i : Nat) : Nat → Except SyntaxError (Array UInt8 × Nat)
  | 0 => .error (errorAt src .eofWhileParsingString src.size)
  | fuel + 1 =>
    match byte? src i with
    | none => .error (errorAt src .eofWhileParsingString src.size)
    | some 34 => .ok (acc, i + 1)
    | some 92 =>
      match escape src (i + 1) with
      | .ok (bytes, j) => stringBytes src (acc ++ bytes.toArray) j fuel
      | .error e => .error e
    | some b =>
      if b < 32 then .error (errorAt src .controlCharacterWhileParsingString (i + 1))
      else stringBytes src (acc.push (UInt8.ofNat b)) (i + 1) fuel

/-- Reads a string from the byte after its opening quote at `i`. -/
def string (src : Array UInt8) (i : Nat) : Parse String :=
  match stringBytes src #[] i (src.size + 1) with
  | .ok (bytes, j) =>
    match String.fromUTF8? (ByteArray.mk bytes) with
    | some s => .ok (s, j)
    | none => .error (errorAt src .eofWhileParsingString j)
  | .error e => .error e

mutual

/-- Reads a value from `i`, with `depth` levels of nesting left; every call
reads at least one byte before its recursive calls, so `fuel` above the
number of calls is enough. -/
def value (src : Array UInt8) (depth : Nat) (i : Nat) : Nat → Parse Value
  | 0 => .error (errorAt src .eofWhileParsingValue src.size)
  | fuel + 1 =>
    let j := skipWhitespace src i
    match byte? src j with
    | none => .error (peekErrorAt src .eofWhileParsingValue j)
    | some 110 => (ident src [117, 108, 108] (j + 1)).map (Value.null, ·)
    | some 116 => (ident src [114, 117, 101] (j + 1)).map (Value.bool true, ·)
    | some 102 => (ident src [97, 108, 115, 101] (j + 1)).map (Value.bool false, ·)
    | some 45 => integer src false (j + 1)
    | some 34 => (string src (j + 1)).map fun (s, k) => (Value.str s, k)
    | some 91 =>
      if depth ≤ 1 then .error (peekErrorAt src .recursionLimitExceeded j)
      else items src (depth - 1) true [] (j + 1) fuel
    | some 123 =>
      if depth ≤ 1 then .error (peekErrorAt src .recursionLimitExceeded j)
      else members src (depth - 1) true [] (j + 1) fuel
    | some b =>
      if isDigit b then integer src true j
      else .error (peekErrorAt src .expectedSomeValue j)

/-- Reads the items of an array after `acc` (in reverse), up to its `]`. -/
def items (src : Array UInt8) (depth : Nat) (first : Bool) (acc : List Value) (i : Nat) :
    Nat → Parse Value
  | 0 => .error (errorAt src .eofWhileParsingList src.size)
  | fuel + 1 =>
    let j := skipWhitespace src i
    match byte? src j with
    | none => .error (peekErrorAt src .eofWhileParsingList j)
    | some 93 => .ok (.arr acc.reverse, j + 1)
    | some b =>
      let start : Except SyntaxError Nat :=
        if first then .ok j
        else if b = 44 then
          let k := skipWhitespace src (j + 1)
          match byte? src k with
          | some 93 => .error (peekErrorAt src .trailingComma k)
          | some _ => .ok k
          | none => .error (peekErrorAt src .eofWhileParsingValue k)
        else .error (peekErrorAt src .expectedListCommaOrEnd j)
      match start with
      | .error e => .error e
      | .ok k =>
        match value src depth k fuel with
        | .ok (v, next) => items src depth false (v :: acc) next fuel
        | .error e => .error e

/-- Reads the members of an object after `acc`, up to its closing brace. -/
def members (src : Array UInt8) (depth : Nat) (first : Bool) (acc : List (String × Value))
    (i : Nat) : Nat → Parse Value
  | 0 => .error (errorAt src .eofWhileParsingObject src.size)
  | fuel + 1 =>
    let j := skipWhitespace src i
    match byte? src j with
    | none => .error (peekErrorAt src .eofWhileParsingObject j)
    | some 125 => .ok (.obj acc, j + 1)
    | some b =>
      let keyAt : Except SyntaxError Nat :=
        if b = 44 ∧ !first then .ok (skipWhitespace src (j + 1))
        else if first then .ok j
        else .error (peekErrorAt src .expectedObjectCommaOrEnd j)
      match keyAt with
      | .error e => .error e
      | .ok p =>
        match byte? src p with
        | some 34 =>
          match string src (p + 1) with
          | .error e => .error e
          | .ok (key, q) =>
            let r := skipWhitespace src q
            match byte? src r with
            | some 58 =>
              match value src depth (r + 1) fuel with
              | .ok (v, next) => members src depth false (insertMember key v acc) next fuel
              | .error e => .error e
            | some _ => .error (peekErrorAt src .expectedColon r)
            | none => .error (peekErrorAt src .eofWhileParsingObject r)
        | some 125 => .error (peekErrorAt src .trailingComma p)
        | some _ => .error (peekErrorAt src .keyMustBeAString p)
        | none => .error (peekErrorAt src .eofWhileParsingValue p)

end

end Reader

/-- Reads a whole text as one document; only whitespace may follow it. -/
def read (text : String) : Except SyntaxError Value :=
  let src := text.toUTF8.data
  match Reader.value src 128 0 (4 * src.size + 4) with
  | .error e => .error e
  | .ok (v, i) =>
    let j := Reader.skipWhitespace src i
    if j < src.size then .error (Reader.peekErrorAt src .trailingCharacters j) else .ok v

end ShardCache.Json
