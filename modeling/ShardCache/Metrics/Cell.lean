/-!
# Counter cells

A counter cell holds one count that can be raised by one, read and reset to
zero. `Cell.run` applies a sequence of such operations and collects what the
reads returned.
-/
namespace ShardCache

/-- An operation on a counter cell. -/
inductive CellOp where
  | incr
  | get
  | reset
deriving DecidableEq, Repr

/-- A counter cell.
mirrors src/src/metrics/cell.rs:9-30 -/
structure Cell where
  count : Nat := 0
deriving DecidableEq, Repr, Inhabited

namespace Cell

/-- Applies one operation; a read returns the count.
mirrors src/src/metrics/cell.rs:18-30 -/
def step (c : Cell) : CellOp → Option Nat × Cell
  | .incr => (none, ⟨c.count + 1⟩)
  | .get => (some c.count, c)
  | .reset => (none, ⟨0⟩)

/-- Applies the operations in order: what each returned, and the final cell. -/
def run (c : Cell) : List CellOp → List (Option Nat) × Cell
  | [] => ([], c)
  | op :: rest =>
    let (r, c') := c.step op
    let (rs, final) := c'.run rest
    (r :: rs, final)

end Cell

end ShardCache
