/-!
# JSON answers

The answers of a session are JSON documents. `Value` is the tree they are
built from and `Value.render` writes it on one line.

* Object members keep the order in which they are listed; readers of the
  answers compare objects by their members, so the order carries no meaning.
* A number is either a natural number, written in decimal, or a ready-made
  number text (`Value.number`), which is how floating-point numbers enter:
  their text is fixed by `ShardCache.Decimal`, not here.
* `escape` writes a string: a quote and a backslash get a backslash, control
  characters below U+0020 get their short escape or `\u00XX`, and every other
  character is written as it is, non-ASCII included.

Requests are documents too (`ShardCache.Json.read`). `get?`, `asWord?`,
`asString?`, `asBool?` and `asArray?` look into them; a document read from
text keeps the members of each object in increasing order of names
(`insertMember`).
-/
namespace ShardCache.Json

/-- A JSON document. -/
inductive Value where
  | null
  | bool (b : Bool)
  | nat (n : Nat)
  /-- A number whose text is already written, such as `0.5` or `1e-7`. -/
  | number (text : String)
  | str (s : String)
  | arr (items : List Value)
  | obj (fields : List (String × Value))
deriving Inhabited

/-- The hexadecimal digit of `n < 16`, lower case. -/
def hexDigit (n : Nat) : Char :=
  if n < 10 then Char.ofNat (48 + n) else Char.ofNat (87 + n)

/-- The escape of one character inside a JSON string. -/
def escapeChar (c : Char) : String :=
  if c = '"' then "\\\""
  else if c = '\\' then "\\\\"
  else if c = '\n' then "\\n"
  else if c = '\r' then "\\r"
  else if c = '\t' then "\\t"
  else if c.toNat = 8 then "\\b"
  else if c.toNat = 12 then "\\f"
  else if c.toNat < 32 then
    "\\u00" ++ (String.singleton (hexDigit (c.toNat / 16))).push (hexDigit (c.toNat % 16))
  else String.singleton c

/-- A string literal: the text between quotes, escaped by `escapeChar`. -/
def escape (s : String) : String :=
  (s.toList.foldl (fun acc c => acc ++ escapeChar c) "\"").push '"'

mutual

/-- Appends the one-line text of a document to `acc`. -/
def Value.writeTo (acc : String) : Value → String
  | .null => acc ++ "null"
  | .bool true => acc ++ "true"
  | .bool false => acc ++ "false"
  | .nat n => acc ++ toString n
  | .number text => acc ++ text
  | .str s => acc ++ escape s
  | .arr items => (writeItems (acc.push '[') true items).push ']'
  | .obj fields => writeFields (acc ++ "\x7b") true fields ++ "\x7d"

/-- Appends the items of an array, separated by commas. -/
def writeItems (acc : String) (first : Bool) : List Value → String
  | [] => acc
  | v :: rest => writeItems (v.writeTo (if first then acc else acc.push ',')) false rest

/-- Appends the members of an object, separated by commas. -/
def writeFields (acc : String) (first : Bool) : List (String × Value) → String
  | [] => acc
  | (k, v) :: rest =>
    let acc := (if first then acc else acc.push ',') ++ escape k
    writeFields (v.writeTo (acc.push ':')) false rest

end

/-- The one-line text of a document. -/
def Value.render (v : Value) : String := v.writeTo ""

/-- An optional value, `null` when absent. -/
def Value.ofOption {α : Type} (f : α → Value) : Option α → Value
  | none => .null
  | some a => f a

/-- The member `name` of an object. A member that is `null` is there; a
value that is not an object has no members. -/
def Value.get? (v : Value) (name : String) : Option Value :=
  match v with
  | .obj fields => fields.lookup name
  | _ => none

/-- The value as a 64-bit word: a natural number written without fraction
or exponent, below `2^64`. -/
def Value.asWord? : Value → Option Nat
  | .nat n => if n < Nat.pow 2 64 then some n else none
  | _ => none

/-- The value as a string. -/
def Value.asString? : Value → Option String
  | .str s => some s
  | _ => none

/-- The value as a boolean. -/
def Value.asBool? : Value → Option Bool
  | .bool b => some b
  | _ => none

/-- The items of an array. -/
def Value.asArray? : Value → Option (List Value)
  | .arr items => some items
  | _ => none

/-- Puts a member into a list of members kept in increasing order of names,
replacing the member of the same name if there is one. -/
def insertMember (name : String) (v : Value) : List (String × Value) → List (String × Value)
  | [] => [(name, v)]
  | (k, w) :: rest =>
    if name = k then (name, v) :: rest
    else if name < k then (name, v) :: (k, w) :: rest
    else (k, w) :: insertMember name v rest

end ShardCache.Json
