import ShardCache.Decimal.Shortest
/-!
# The double nearest to a rational

`nearest num den` gives the bits of the double nearest to `num / den`, ties
to the even mantissa, as every correctly rounded operation on doubles does.
The value is scaled by `2^e` so that its integral part has 53 bits, where
`e = ⌊log₂ (num / den)⌋ - 52`, and the exponent stops at `-1074`, below which
only subnormal doubles remain; the integral part is the mantissa and the
remainder decides the rounding. A mantissa that rounds up to `2^53` moves to
the next binade; a value past the largest double gives infinity.

With it the products and quotients of doubles are exact rational arithmetic
followed by one rounding (`mul`, `div`), and `powerOfTen k` is the double
nearest to `10^k`.
-/
namespace ShardCache.Decimal

/-- The bits of positive infinity. -/
def infinityBits : UInt64 := 0x7FF0000000000000

/-- The bit of the sign of a double. -/
def signBit : UInt64 := 0x8000000000000000

/-- Whether `num ≥ den · 2^k`, compared on natural numbers. -/
def atLeastScaled (num den : Nat) (k : Int) : Bool :=
  decide (den * Nat.pow 2 k.toNat ≤ num * Nat.pow 2 (-k).toNat)

/-- `⌊log₂ (num / den)⌋`, for positive `num` and `den`. -/
def floorLog2 (num den : Nat) : Int :=
  let k : Int := (Nat.log2 num : Int) - (Nat.log2 den : Int)
  if atLeastScaled num den k then k else k - 1

/-- The bits of the double nearest to `num / den`, ties to even; zero when
either is zero, infinity beyond the largest double. -/
def nearest (num den : Nat) : UInt64 :=
  if num = 0 ∨ den = 0 then 0
  else
    let e : Int := max (floorLog2 num den - 52) (-1074)
    let n := num * Nat.pow 2 (-e).toNat
    let d := den * Nat.pow 2 e.toNat
    let q := n / d
    let r := n % d
    let q := if d < 2 * r ∨ (2 * r = d ∧ q % 2 = 1) then q + 1 else q
    let (q, e) := if q = Nat.pow 2 53 then (Nat.pow 2 52, e + 1) else (q, e)
    if q < Nat.pow 2 52 then UInt64.ofNat q
    else if 2047 ≤ e + 1075 then infinityBits
    else UInt64.ofNat ((e + 1075).toNat * Nat.pow 2 52 + (q - Nat.pow 2 52))

/-- The exact value of a finite double without its sign, as a fraction. -/
def magnitude (bits : UInt64) : Nat × Nat :=
  match Binary.ofBits bits with
  | some b => (b.mantissa * Nat.pow 2 b.exponent.toNat, Nat.pow 2 (-b.exponent).toNat)
  | none => (0, 1)

/-- The product of two non-negative doubles, rounded. -/
def mul (a b : UInt64) : UInt64 :=
  let (n₁, d₁) := magnitude a
  let (n₂, d₂) := magnitude b
  nearest (n₁ * n₂) (d₁ * d₂)

/-- The quotient of two non-negative doubles, rounded; `b` is not zero. -/
def div (a b : UInt64) : UInt64 :=
  let (n₁, d₁) := magnitude a
  let (n₂, d₂) := magnitude b
  nearest (n₁ * d₂) (d₁ * n₂)

/-- The double nearest to `10^k`. -/
def powerOfTen (k : Nat) : UInt64 := nearest (Nat.pow 10 k) 1

end ShardCache.Decimal
