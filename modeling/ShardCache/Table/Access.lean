import ShardCache.Table.Reclaim
/-!
# Keyed operations

Every keyed operation acts for a shard `s`, the shard of the handle it is
called through, and starts with a probe from the key's home bucket.

* `get` and `set` promote the entry on a hit; `contains` does not.
* `upsert` of a present key refuses (`insert`, no promotion) or overwrites
  and promotes (`insert_or_set`). Of an absent key it takes a free slot of
  `s`, reclaiming one first if the stack is empty, and places the entry at
  the free bucket where the probe stopped, at the front of `s`'s list.
* `remove` takes the entry out by backward shift and releases its slot to
  `s`, whichever shard's list it was on.
* `lockWith` gives a function the guarded element (key, value, slot) and
  writes back the value it returns; the guard then drops, which promotes the
  entry. `update` and `compareAndSwap` are built on it, so a compare-and-swap
  whose expected value does not match still promotes.
* `lockForget` finds the entry like `lockWith` but forgets the guard: the
  run of buckets from the home to the entry stays held by `s`, and there is
  no promotion.

Each lookup of `get`, `contains`, `lockWith` and `lockForget` counts as a get
hit or miss. `probing` starts an operation with the lock-level probe on its
handle's run, whose assert fails while the run still holds buckets from a
forgotten guard: then the run is given back and the operation fails with the
run's length, changing nothing else.
-/
namespace ShardCache

namespace Table

variable {κ ν : Type} [DecidableEq κ] [CacheKey κ]

/-- The hash of a key under the table's hasher.
mirrors src/src/policy/lru.rs:524 -/
def hashOf (t : Table κ ν) (k : κ) : UInt64 := CacheKey.hash t.hasher k

/-- Whether a slot holds the key with the given hash.
mirrors src/src/ds/slot_arena.rs:142-147 -/
def holds (t : Table κ ν) (hash : UInt64) (k : κ) (slot : Nat) : Bool :=
  match t.entry? slot with
  | some e => e.hash == hash && decide (e.key = k)
  | none => false

/-- Where a key's probe stops: its home bucket and the probe's end.
mirrors src/src/policy/lru.rs:951-958 -/
def probeKey (t : Table κ ν) (k : κ) : Nat × Probe :=
  let hash := t.hashOf k
  let start := t.index.home hash
  (start, t.index.probe start (t.holds hash k))

/-- The slot of a key, with the probe's start and depth. -/
def find? (t : Table κ ν) (k : κ) : Option (Nat × Nat × Nat) :=
  match t.probeKey k with
  | (start, .hit depth slot) => some (start, depth, slot)
  | _ => none

/-- Counts a lookup as a hit or a miss.
mirrors src/src/policy/lru.rs:353-366 -/
def recordLookup (t : Table κ ν) (found : Bool) : Table κ ν :=
  t.record (if found then .getHit else .getMiss)

/-- Replaces the value in a slot.
mirrors src/src/policy/lru.rs:487-492 -/
def setValue (t : Table κ ν) (slot : Nat) (v : ν) : Table κ ν :=
  match t.entry? slot with
  | some e => t.writeSlot slot (some { e with value := v })
  | none => t

/-- Places a new entry: in the arena slot, in the bucket at `pos`, and at the
front of shard `s`'s list.
mirrors src/src/policy/lru.rs:937-945 -/
def publish (t : Table κ ν) (s slot pos : Nat) (e : Entry κ ν) : Table κ ν :=
  let t := t.writeSlot slot (some e)
  let t := { t with index := t.index.write pos (some slot), len := t.len + 1 }
  (t.linkHead s slot).record .insertNew

/-- Inserts or overwrites, trying at most `attempts` times to find a free slot:
`true` if a new entry was placed.
mirrors src/src/policy/lru.rs:908-947 -/
def upsertWith (s : Nat) (k : κ) (v : ν) (overwrite : Bool) :
    Nat → Table κ ν → Bool × Table κ ν
  | 0, t => (false, t)
  | attempts + 1, t =>
    let hash := t.hashOf k
    match t.probeKey k with
    | (_, .hit _ slot) =>
      if overwrite then (false, ((t.setValue slot v).record .insertUpdate).promote s slot)
      else (false, t.record .insertRejected)
    | (start, .vacant depth) =>
      let pos := t.index.position start depth
      match t.takeFree s with
      | some (slot, t') => (true, t'.publish s slot pos ⟨k, v, hash⟩)
      | none => upsertWith s k v overwrite attempts (t.reclaim s)
    | (_, .full) => (false, t)

/-- Inserts a key that is absent (`true`), or, for a present key, overwrites it
when `overwrite` is set. Two attempts suffice: a reclaim always frees a slot.
mirrors src/src/policy/lru.rs:908-947 -/
def upsert (t : Table κ ν) (s : Nat) (k : κ) (v : ν) (overwrite : Bool) : Bool × Table κ ν :=
  upsertWith s k v overwrite 2 t

/-- Inserts a key that is absent; a present key is left as it is.
mirrors src/src/policy/lru.rs:505-507 -/
def insert (t : Table κ ν) (s : Nat) (k : κ) (v : ν) : Bool × Table κ ν := t.upsert s k v false

/-- Inserts a key, or overwrites its value: `true` if it was absent.
mirrors src/src/policy/lru.rs:514-516 -/
def insertOrSet (t : Table κ ν) (s : Nat) (k : κ) (v : ν) : Bool × Table κ ν := t.upsert s k v true

/-- The value of a key, promoting it.
mirrors src/src/policy/lru.rs:519-546 -/
def get (t : Table κ ν) (s : Nat) (k : κ) : Option ν × Table κ ν :=
  match t.find? k with
  | some (_, _, slot) =>
    match t.entry? slot with
    | some e => (some e.value, (t.record .getHit).promote s slot)
    | none => (none, t.record .getMiss)
  | none => (none, t.record .getMiss)

/-- Whether a key is present; no promotion.
mirrors src/src/policy/lru.rs:551-559 -/
def contains (t : Table κ ν) (_s : Nat) (k : κ) : Bool × Table κ ν :=
  let found := (t.find? k).isSome
  (found, t.recordLookup found)

/-- Overwrites the value of a present key and promotes it: `true` if present.
mirrors src/src/policy/lru.rs:564-584 -/
def set (t : Table κ ν) (s : Nat) (k : κ) (v : ν) : Bool × Table κ ν :=
  match t.find? k with
  | some (_, _, slot) => (true, ((t.setValue slot v).record .setHit).promote s slot)
  | none => (false, t.record .setMiss)

/-- Hands a removed entry's slot back to shard `s`, taking it off its list.
mirrors src/src/policy/lru.rs:407-415 -/
def detachRemoved (t : Table κ ν) (s slot : Nat) : Table κ ν :=
  if t.isLinked slot then (t.unlinkSlot slot).release s slot else t

/-- Removes a key: `true` if it was present.
mirrors src/src/policy/lru.rs:587-610 -/
def remove (t : Table κ ν) (s : Nat) (k : κ) : Bool × Table κ ν :=
  match t.find? k with
  | some (start, depth, slot) =>
    (true, ((t.unindex slot start depth).record .removeHit).detachRemoved s slot)
  | none => (false, t.record .removeMiss)

/-- What a guard shows of the element it holds.
mirrors src/src/policy/lru.rs:1011-1052 -/
structure Guard (κ ν : Type) where
  key : κ
  value : ν
  slot : Nat
deriving DecidableEq, Repr

/-- Locks a key's element, lets `f` see it and choose its new value and a
result, then drops the guard, which promotes the entry. `none` if absent.
mirrors src/src/policy/lru.rs:640-659 and src/src/policy/lru.rs:1055-1060 -/
def lockWith {α : Type} (t : Table κ ν) (s : Nat) (k : κ) (f : Guard κ ν → ν × α) :
    Option α × Table κ ν :=
  match t.find? k with
  | some (_, _, slot) =>
    match t.entry? slot with
    | some e =>
      let (v, a) := f ⟨e.key, e.value, slot⟩
      (some a, ((t.recordLookup true).setValue slot v).promote s slot)
    | none => (none, t.recordLookup false)
  | none => (none, t.recordLookup false)

/-- Applies `f` to the value of a key: the old value, if present.
mirrors src/src/policy/lru.rs:663-669 -/
def update (t : Table κ ν) (s : Nat) (k : κ) (f : ν → ν) : Option ν × Table κ ν :=
  t.lockWith s k fun g => (f g.value, g.value)

/-- What a compare-and-swap found: the swapped-out value, or the value that
did not match (`none` if the key is absent). -/
abbrev SwapResult (ν : Type) := Except (Option ν) ν

/-- Replaces the value of a key by `new` if it equals `expected`.
mirrors src/src/policy/lru.rs:675-693 -/
def compareAndSwap [DecidableEq ν] (t : Table κ ν) (s : Nat) (k : κ) (expected new : ν) :
    SwapResult ν × Table κ ν :=
  match t.lockWith s k fun g =>
      if g.value = expected then (new, Except.ok g.value) else (g.value, Except.error (some g.value)) with
  | (some r, t') => (r, t')
  | (none, t') => (.error none, t')

/-- Locks a key's element and forgets the guard: the slot, if present. The buckets from
the key's home through its bucket stay locked, and the run of shard `s`'s handle keeps
their contents.
mirrors src/src/policy/lru.rs:640-659 and src/src/ds/bucket_index.rs:112-117 -/
def lockForget (t : Table κ ν) (s : Nat) (k : κ) : Option Nat × Table κ ν :=
  match t.find? k with
  | some (start, depth, slot) =>
    let (b, run) := t.index.locking start (depth + 1)
    (some slot, { t.recordLookup true with index := Index.ofBuckets b }.modifyShard s
      fun sh => { sh with run := run })
  | none => (none, t.recordLookup false)

/-- The run of shard `s`'s handle, which still holds buckets after a forgotten guard.
mirrors src/src/ds/shard.rs:176-180 -/
def runOf (t : Table κ ν) (s : Nat) : ProbeRun := ((t.shards[s]?).map (·.run)).getD ⟨0, []⟩

/-- Lets go of a run: its buckets get back the contents it recorded, and the run holds
nothing.
mirrors src/src/ds/bucket_index.rs:132-136 -/
def releaseRun (t : Table κ ν) (s : Nat) (run : ProbeRun) : Table κ ν :=
  { t with index := Index.ofBuckets ((Buckets.ofIndex t.index).release run) }.modifyShard s
    fun sh => { sh with run := { run with contents := [] } }

/-- Runs the keyed operation `op` of key `k` through shard `s`'s handle. The operation starts
by putting the guard `hold` on the handle's run and probing for `k` on it
(`Buckets.probeWith`). If a forgotten guard left the run holding buckets, the probe's assert
fails before the operation has changed anything, and the panic unwinds through the guard,
which lets the run go: the result is then the number of buckets the run held. Otherwise the
operation goes on from its probe, which `op` makes on the index.
mirrors src/src/policy/lru.rs:554-556 and src/src/ds/bucket_index.rs:126-136 -/
def probing {α : Type} (t : Table κ ν) (s : Nat) (k : κ) (op : Table κ ν → α × Table κ ν) :
    Except Nat α × Table κ ν :=
  let run := t.runOf s
  let hash := t.hashOf k
  match (Buckets.ofIndex t.index).probeWith run hash (t.holds hash k) with
  | .error n => (.error n, t.releaseRun s run)
  | .ok _ =>
    let (a, t') := op t
    (.ok a, t')

end Table

end ShardCache
