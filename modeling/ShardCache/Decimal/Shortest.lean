/-!
# Shortest decimal text of a double

A finite double `x > 0` is `m · 2^q` exactly (`Binary.ofBits`). Every real
strictly between the midpoints to its two neighbouring doubles reads back as
`x`; the midpoints themselves read back as `x` when `m` is even, because
reading rounds ties to the even mantissa. `shortest` picks, among the decimals
`c · 10^p` in that interval, one with the fewest significant digits and, of
those, the one nearest to `x` (an exact tie goes to the even `c`).

The search runs over the digit counts 1, 2, …, 17. For a count `k` the grid is
`10^p` with `p = E + 1 - k`, where `10^E ≤ x < 10^(E+1)`. If any point of that
grid lies in the interval, so does one of the two grid neighbours of `x`,
since the interval contains `x`; so testing the two neighbours decides the
count, and the nearer neighbour inside is the answer. All arithmetic is
exact on `Nat`.

`Layout` holds the decisions of a particular writer: where positional
notation stops and the exponent form begins. `Layout.json` is the one of the
answers: `0.5`, `1.0`, `0.0001`, `1e-7`, `1.2345678901234567e+19`.
-/
namespace ShardCache.Decimal

/-- A positive finite binary value `mantissa · 2^exponent`, as a double holds
it, with `boundary` set when the next double below is nearer than the one
above (the mantissa field is zero and the value is not subnormal). -/
structure Binary where
  mantissa : Nat
  exponent : Int
  boundary : Bool
deriving DecidableEq, Repr

/-- A decimal `digits · 10^exponent`. -/
structure Digits where
  digits : Nat
  exponent : Int
deriving DecidableEq, Repr

/-- Splits the bits of a double into its sign and, if it is finite and not
zero, its magnitude. Infinities and NaNs give `none` for the magnitude, as
does zero; `isFinite` tells them apart. -/
def Binary.ofBits (bits : UInt64) : Option Binary :=
  let raw : Nat := bits.toNat
  let field : Nat := raw % Nat.pow 2 52
  let biased : Nat := (raw / Nat.pow 2 52) % Nat.pow 2 11
  if biased = 2047 then none
  else if biased = 0 then
    if field = 0 then none else some ⟨field, -1074, false⟩
  else some ⟨field + Nat.pow 2 52, (biased : Int) - 1075, field = 0 ∧ biased > 1⟩

/-- `a · 10^p`, compared with `b · 2^q`, both sides scaled to natural numbers. -/
def compareScaled (a : Nat) (p : Int) (b : Nat) (q : Int) : Ordering :=
  let lhs := a * Nat.pow 10 p.toNat * Nat.pow 2 (-q).toNat
  let rhs := b * Nat.pow 2 q.toNat * Nat.pow 10 (-p).toNat
  compare lhs rhs

/-- The number of decimal digits of `n`; one for zero. -/
def digitCount (n : Nat) : Nat := (Nat.toDigits 10 n).length

/-- The decimal exponent `E` with `10^E ≤ m · 2^q < 10^(E+1)`, for `m > 0`. -/
def decimalExponent (m : Nat) (q : Int) : Int :=
  if 0 ≤ q then (digitCount (m * Nat.pow 2 q.toNat) : Int) - 1
  else
    let t := Nat.pow 2 (-q).toNat
    if t ≤ m then (digitCount (m / t) : Int) - 1
    else -(digitCount (t / m) : Int)

/-- Whether `c · 10^p` reads back as the double `b`: it lies between the two
midpoints, ends included when the mantissa is even. The midpoints are
`(4m - 2) · 2^(q-2)` (or `4m - 1` at a boundary) and `(4m + 2) · 2^(q-2)`. -/
def Binary.admits (b : Binary) (c : Nat) (p : Int) : Bool :=
  let low := if b.boundary then 4 * b.mantissa - 1 else 4 * b.mantissa - 2
  let high := 4 * b.mantissa + 2
  let even := b.mantissa % 2 = 0
  let aboveLow := match compareScaled c p low (b.exponent - 2) with
    | .gt => true
    | .eq => even
    | .lt => false
  let belowHigh := match compareScaled c p high (b.exponent - 2) with
    | .lt => true
    | .eq => even
    | .gt => false
  aboveLow && belowHigh

/-- Where the double falls on the grid `10^p`: the lower grid neighbour
`⌊x / 10^p⌋`, then the remainder and the grid step, both scaled by the same
factor so that they are natural numbers. -/
def Binary.onGrid (b : Binary) (p : Int) : Nat × Nat × Nat :=
  let num := b.mantissa * Nat.pow 2 b.exponent.toNat * Nat.pow 10 (-p).toNat
  let den := Nat.pow 2 (-b.exponent).toNat * Nat.pow 10 p.toNat
  (num / den, num % den, den)

/-- The decimal of `k` significant digits chosen for `b`, if one reads back. -/
def Binary.attempt (b : Binary) (e : Int) (k : Nat) : Option Digits :=
  let p := e + 1 - k
  let (lo, rem, den) := b.onGrid p
  let hi := lo + 1
  let loIn := b.admits lo p
  let hiIn := b.admits hi p
  if loIn && hiIn then
    -- twice the distance to the lower neighbour, against the grid step
    if 2 * rem < den then some ⟨lo, p⟩
    else if 2 * rem > den then some ⟨hi, p⟩
    else if lo % 2 = 0 then some ⟨lo, p⟩ else some ⟨hi, p⟩
  else if loIn then some ⟨lo, p⟩
  else if hiIn then some ⟨hi, p⟩
  else none

/-- Drops trailing zero digits, raising the exponent for each. -/
def Digits.trim (d : Digits) : Digits :=
  if h : d.digits ≠ 0 ∧ d.digits % 10 = 0 then
    Digits.trim ⟨d.digits / 10, d.exponent + 1⟩
  else d
termination_by d.digits
decreasing_by omega

/-- The shortest decimal that reads back as `b`, nearest of those. -/
def Binary.shortest (b : Binary) : Digits :=
  let e := decimalExponent b.mantissa b.exponent
  let found := (List.range 17).findSome? (fun i => b.attempt e (i + 1))
  -- seventeen digits always read back; the default is never taken
  (found.getD ⟨b.mantissa, 0⟩).trim

/-- Where a writer puts the decimal point. With `point = digits + exponent`
(the value is `0.d₁d₂… · 10^point`): an integral value with `point ≤
maxPoint` is written with `.0`; `0 < point ≤ maxPoint` positionally;
`minPoint < point ≤ 0` as `0.` followed by zeros; everything else with an
exponent `e` followed by `point - 1`, which has a `+` sign when it is not
negative and `plusSign` is set. -/
structure Layout where
  maxPoint : Int
  minPoint : Int
  plusSign : Bool
deriving DecidableEq, Repr

/-- The layout of the numbers in the answers: positional while the point
lies in `(-5, 16]`, and a signed exponent otherwise (`1e+16`, `1e-6`). -/
def Layout.json : Layout := ⟨16, -5, true⟩

/-- The exponent of a layout's exponent form. -/
def Layout.exponentText (l : Layout) (e : Int) : String :=
  (if l.plusSign ∧ 0 ≤ e then "e+" else "e") ++ toString e

/-- `n` zero characters. -/
def zeros (n : Nat) : String := String.ofList (List.replicate n '0')

/-- The text of a decimal under a layout, without sign. -/
def Layout.write (l : Layout) (d : Digits) : String :=
  let s := (toString d.digits).toList
  let n : Int := s.length
  let point := n + d.exponent
  if 0 ≤ d.exponent ∧ point ≤ l.maxPoint then
    String.ofList s ++ zeros d.exponent.toNat ++ ".0"
  else if 0 < point ∧ point ≤ l.maxPoint then
    String.ofList (s.take point.toNat) ++ "." ++ String.ofList (s.drop point.toNat)
  else if l.minPoint < point ∧ point ≤ 0 then
    "0." ++ zeros (-point).toNat ++ String.ofList s
  else if s.length = 1 then
    String.ofList s ++ l.exponentText (point - 1)
  else
    String.ofList (s.take 1) ++ "." ++ String.ofList (s.drop 1) ++ l.exponentText (point - 1)

/-- Whether the bits are those of a finite double. -/
def isFinite (bits : UInt64) : Bool := (bits.toNat / Nat.pow 2 52) % Nat.pow 2 11 ≠ 2047

/-- The JSON text of the double with these bits: the shortest decimal that
reads back, in `Layout.json`, with `0.0` for zero and `null` for a value JSON
cannot hold. -/
def bitsText (bits : UInt64) : String :=
  let sign := if bits.toNat ≥ Nat.pow 2 63 then "-" else ""
  if !isFinite bits then "null"
  else match Binary.ofBits bits with
    | none => sign ++ "0.0"
    | some b => sign ++ Layout.json.write b.shortest

/-- The JSON text of a double (`bitsText` of its bits). -/
def jsonText (x : Float) : String := bitsText x.toBits

end ShardCache.Decimal
