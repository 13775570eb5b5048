import ShardCache.Decimal.Shortest
/-!
# Fixed places

`fixed places x` writes a finite double with exactly `places` digits after
the point. The digits are those of the exact binary value, rounded to the
nearest multiple of `10^-places`; an exact half goes to the even neighbour.
So `0.5` with two places is `0.50`, and `0.125` with two places is `0.12`.
-/
namespace ShardCache.Decimal

/-- `num / den` rounded to the nearest natural number, a half to the even one. -/
def roundHalfEven (num den : Nat) : Nat :=
  let q := num / den
  let r := num % den
  if 2 * r < den then q
  else if 2 * r > den then q + 1
  else if q % 2 = 0 then q else q + 1

/-- The text of `n` with at least `width` digits, padded with leading zeros. -/
def padLeft (width n : Nat) : String :=
  let s := toString n
  zeros (width - s.length) ++ s

/-- The text of a nonnegative binary value `m · 2^q` with `places` digits after
the point. -/
def Binary.fixed (b : Binary) (places : Nat) : String :=
  let num := b.mantissa * Nat.pow 2 b.exponent.toNat * Nat.pow 10 places
  let den := Nat.pow 2 (-b.exponent).toNat
  let scaled := roundHalfEven num den
  let whole := scaled / Nat.pow 10 places
  let part := scaled % Nat.pow 10 places
  if places = 0 then toString whole else toString whole ++ "." ++ padLeft places part

/-- A double with `places` digits after the point; zero is `0.00…`. -/
def fixed (places : Nat) (x : Float) : String :=
  let bits := x.toBits
  let sign := if bits.toNat ≥ Nat.pow 2 63 then "-" else ""
  match Binary.ofBits bits with
  | none => sign ++ (⟨0, 0, false⟩ : Binary).fixed places
  | some b => sign ++ b.fixed places

end ShardCache.Decimal
