/-!
# Table geometry

A table is built for a `capacity` of entries, a number of hash `buckets` and
a number of `shards`, one per thread that registers. `Config.validate`
accepts a geometry exactly when

* there is at least one slot and at least one shard,
* there are more buckets than slots, so a probe always meets a free bucket,
* every shard owns at least one slot (`shards ≤ capacity`), and
* the slot ids and the two list ends of every shard, `capacity + 2·shards`
  ids in all, stay at or below `0xFFFFFFFD`, below the two word values that
  mark a list end and a locked link.

The conditions are checked in that order and the first that fails is the
error. The id count is computed in 64-bit words, and a step that overflows
counts as too many; `Config.validate_eq` shows that this is the check in
unbounded arithmetic.

Slots are split into contiguous partitions: shard `s` owns
`[s·(capacity / shards), (s+1)·(capacity / shards))`, and the last shard also
takes the remainder. The size of its partition is the shard's quota of free
slots.

`Builder` fills in what is not given: twice the capacity, rounded up to a
power of two, for the buckets (the largest word if that power does not fit
in 64 bits), and for the shards the smaller of the machine's parallelism and
the capacity.
-/
namespace ShardCache

/-- The geometry of a table.
mirrors src/src/policy/lru.rs:121-125 -/
structure Config where
  capacity : Nat
  buckets : Nat
  shards : Nat
deriving DecidableEq, Repr, Inhabited

/-- Why a geometry, or a registration, is refused.
mirrors src/src/error.rs:94-107 -/
inductive ConfigError where
  | zeroCapacity
  | zeroShards
  | tooFewBuckets (capacity buckets : Nat)
  | tooManyShards (capacity shards : Nat)
  | slotIdsExhausted (capacity shards : Nat)
  /-- Every shard already has its handle. -/
  | allRegistered (shards : Nat)
deriving DecidableEq, Repr

/-- The text of a configuration error.
mirrors src/src/policy/lru.rs:121-154 and src/src/ds/shard.rs:146-157 -/
def ConfigError.message : ConfigError → String
  | .zeroCapacity => "capacity must be greater than zero"
  | .zeroShards => "max_threads must be greater than zero"
  | .tooFewBuckets c b => s!"capacity ({c}) must be strictly less than hash_buckets ({b})"
  | .tooManyShards c t =>
    s!"capacity ({c}) must be at least max_threads ({t}) so every shard owns a slot"
  | .slotIdsExhausted c t =>
    s!"capacity ({c}) plus two sentinels per thread ({t}) exceeds the slot id range"
  | .allRegistered t =>
    s!"all {t} shards are registered; build the table with a larger max_threads"

/-- The largest id a slot or a list end may take.
mirrors src/src/ds/links.rs:41-42 -/
def slotIdLimit : Nat := 0xFFFFFFFD

/-- The largest 64-bit word. -/
def wordMax : Nat := Nat.pow 2 64 - 1

/-- The result of a word operation, if it fits in a 64-bit word: what a checked
multiplication or addition returns. -/
def checkedWord (n : Nat) : Option Nat := if n ≤ wordMax then some n else none

namespace Config

/-- The ids that the data slots and the two sentinels of every shard take,
`2·shards + capacity` computed in words, unless a step overflows.
mirrors src/src/policy/lru.rs:143-151 -/
def slotIdCount? (c : Config) : Option Nat :=
  (checkedWord (c.shards * 2)).bind fun sentinels => checkedWord (sentinels + c.capacity)

/-- Accepts a geometry or names the first condition it breaks.
mirrors src/src/policy/lru.rs:121-154 -/
def validate (c : Config) : Except ConfigError Unit :=
  if c.capacity = 0 then .error .zeroCapacity
  else if c.shards = 0 then .error .zeroShards
  else if c.buckets ≤ c.capacity then .error (.tooFewBuckets c.capacity c.buckets)
  else if c.capacity < c.shards then .error (.tooManyShards c.capacity c.shards)
  else if !(c.slotIdCount?.any (· ≤ slotIdLimit)) then
    .error (.slotIdsExhausted c.capacity c.shards)
  else .ok ()

/-- Counted in words, the ids fit under the limit exactly when they do in
unbounded arithmetic: a step that overflows a word is far past the limit. -/
theorem any_slotIdCount? (c : Config) :
    c.slotIdCount?.any (· ≤ slotIdLimit) = decide (c.capacity + 2 * c.shards ≤ slotIdLimit) := by
  have hw : slotIdLimit < wordMax := by decide
  unfold slotIdCount? checkedWord
  by_cases hm : c.shards * 2 ≤ wordMax
  · by_cases ha : c.shards * 2 + c.capacity ≤ wordMax
    · simp only [hm, ha, if_true, Option.bind_some, Option.any_some]
      rw [Nat.add_comm, Nat.mul_comm]
    · -- the sum overflows, so it is past the limit
      simp only [hm, ha, if_true, if_false, Option.bind_some, Option.any_none]
      exact (decide_eq_false (by omega)).symm
  · -- the doubled shard count alone overflows
    simp only [hm, if_false, Option.bind_none, Option.any_none]
    exact (decide_eq_false (by omega)).symm

/-- Validation is the check in unbounded arithmetic: the conditions in order,
and the error of the first that fails. -/
theorem validate_eq (c : Config) : c.validate =
    if c.capacity = 0 then .error .zeroCapacity
    else if c.shards = 0 then .error .zeroShards
    else if c.buckets ≤ c.capacity then .error (.tooFewBuckets c.capacity c.buckets)
    else if c.capacity < c.shards then .error (.tooManyShards c.capacity c.shards)
    else if slotIdLimit < c.capacity + 2 * c.shards then .error (.slotIdsExhausted c.capacity c.shards)
    else .ok () := by
  unfold validate
  rw [any_slotIdCount?]
  simp only [Bool.not_eq_true', decide_eq_false_iff_not, Nat.not_le]

/-- `2^63` shards double past the largest word; the geometry is refused by the
id count. -/
example : validate ⟨Nat.pow 2 63, Nat.pow 2 63 + 1, Nat.pow 2 63⟩ =
    .error (.slotIdsExhausted (Nat.pow 2 63) (Nat.pow 2 63)) := rfl

/-- The size of every partition but the last.
mirrors src/src/ds/shard.rs:59-68 -/
def share (c : Config) : Nat := c.capacity / c.shards

/-- The first slot of shard `s`.
mirrors src/src/ds/shard.rs:59-68 -/
def partStart (c : Config) (s : Nat) : Nat := s * c.share

/-- One past the last slot of shard `s`.
mirrors src/src/ds/shard.rs:59-68 -/
def partEnd (c : Config) (s : Nat) : Nat :=
  if s + 1 = c.shards then c.capacity else (s + 1) * c.share

/-- The number of slots shard `s` owns, and its quota of free slots.
mirrors src/src/ds/shard.rs:59-68 -/
def quota (c : Config) (s : Nat) : Nat := c.partEnd s - c.partStart s

/-- The slots of shard `s`, lowest first.
mirrors src/src/ds/shard.rs:59-68 -/
def partition (c : Config) (s : Nat) : List Nat := List.range' (c.partStart s) (c.quota s)

@[simp] theorem length_partition (c : Config) (s : Nat) : (c.partition s).length = c.quota s :=
  List.length_range'

end Config

/-- The least power of two at or above `n`; `1` for zero.
mirrors src/src/builder.rs:76-83 -/
def nextPowerOfTwo (n : Nat) : Nat :=
  if n ≤ 1 then 1 else Nat.pow 2 (Nat.log2 (n - 1) + 1)

/-- A geometry with optional bucket and shard counts.
mirrors src/src/builder.rs:34-50 -/
structure Builder where
  capacity : Nat
  buckets : Option Nat
  shards : Option Nat
deriving DecidableEq, Repr

namespace Builder

/-- The bucket count for a capacity: `2·capacity` (at most the largest word),
rounded up to a power of two, or the largest word if that power exceeds it.
mirrors src/src/builder.rs:76-83 -/
def defaultBuckets (capacity : Nat) : Nat :=
  let wanted := min (2 * capacity) wordMax
  if wanted ≤ Nat.pow 2 63 then nextPowerOfTwo wanted else wordMax

/-- The shard count on a machine that runs `parallelism` threads at once.
mirrors src/src/builder.rs:85-90 -/
def defaultShards (parallelism capacity : Nat) : Nat := min parallelism (max capacity 1)

/-- The geometry of a builder on a machine of the given parallelism.
mirrors src/src/builder.rs:93-100 -/
def config (b : Builder) (parallelism : Nat) : Config where
  capacity := b.capacity
  buckets := b.buckets.getD (defaultBuckets b.capacity)
  shards := b.shards.getD (defaultShards parallelism b.capacity)

end Builder

end ShardCache
