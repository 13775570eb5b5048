import ShardCache.Text.Classes
/-!
# Quoted text

`quote s` writes a string between double quotes so that every character can
be seen and the text read back:

* NUL, tab, carriage return and line feed become `\0`, `\t`, `\r`, `\n`; a
  backslash and a double quote get a backslash;
* a character that extends the grapheme before it, or that has no visible
  form (`Text.unprintable`), becomes `\u{h}` with its code point in lower-case
  hexadecimal without leading zeros;
* every other character, non-ASCII included, stands for itself.

The single quote is not escaped: it needs no escape between double quotes.
-/
namespace ShardCache.Text

/-- The lower-case hexadecimal digits of `n`, most significant first, without
leading zeros (`0` for zero). -/
def hexDigits (n : Nat) : List Char := Nat.toDigits 16 n

/-- The escape `\u{h}` of a code point. -/
def unicodeEscape (n : Nat) : String :=
  "\\u\x7b" ++ String.ofList (hexDigits n) ++ "\x7d"

/-- Whether a quoted text writes the character as a code point escape. -/
def needsCodeEscape (c : Char) : Bool :=
  inRanges graphemeExtend c.toNat || inRanges unprintable c.toNat

/-- The quoted form of one character. -/
def quoteChar (c : Char) : String :=
  if c = '\x00' then "\\0"
  else if c = '\t' then "\\t"
  else if c = '\r' then "\\r"
  else if c = '\n' then "\\n"
  else if c = '\\' then "\\\\"
  else if c = '"' then "\\\""
  else if c.toNat < 0x7f ∧ 0x20 ≤ c.toNat then String.singleton c
  else if needsCodeEscape c then unicodeEscape c.toNat
  else String.singleton c

/-- A string between double quotes, each character written by `quoteChar`. -/
def quote (s : String) : String :=
  (s.toList.foldl (fun acc c => acc ++ quoteChar c) "\"").push '"'

end ShardCache.Text
