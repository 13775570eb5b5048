/-!
# Event counters and snapshots

A table counts what its operations did (`Event`); `Counters.record` adds one
event. A `Snapshot` is what the table reports: the counters, the totals
derived from them, and the table's size and geometry.

* `getCalls` is hits plus misses of lookups; `insertCalls` is new entries
  plus updates plus refusals; `setCalls` and `removeCalls` are hits plus
  misses of their kind.
* `hitRatio` is hits over calls of lookups, as a double, and `0.0` before the
  first lookup.
-/
namespace ShardCache

/-- The events that a table counts.
mirrors src/src/metrics/traits.rs:34-54 -/
inductive Event where
  | getHit
  | getMiss
  | insertNew
  | insertUpdate
  | insertRejected
  | setHit
  | setMiss
  | removeHit
  | removeMiss
  | promotion
  | promotionSkipped
  | eviction
  | foreignReclaim
deriving DecidableEq, Repr

/-- The number of events of each kind.
mirrors src/src/metrics/metrics_impl.rs:8-22 -/
structure Counters where
  getHits : Nat := 0
  getMisses : Nat := 0
  insertNew : Nat := 0
  insertUpdates : Nat := 0
  insertRejected : Nat := 0
  setHits : Nat := 0
  setMisses : Nat := 0
  removeHits : Nat := 0
  removeMisses : Nat := 0
  promotions : Nat := 0
  promotionsSkipped : Nat := 0
  evictions : Nat := 0
  foreignReclaims : Nat := 0
deriving DecidableEq, Repr, Inhabited

/-- Counts one event.
mirrors src/src/metrics/metrics_impl.rs:77-129 -/
def Counters.record (c : Counters) : Event → Counters
  | .getHit => { c with getHits := c.getHits + 1 }
  | .getMiss => { c with getMisses := c.getMisses + 1 }
  | .insertNew => { c with insertNew := c.insertNew + 1 }
  | .insertUpdate => { c with insertUpdates := c.insertUpdates + 1 }
  | .insertRejected => { c with insertRejected := c.insertRejected + 1 }
  | .setHit => { c with setHits := c.setHits + 1 }
  | .setMiss => { c with setMisses := c.setMisses + 1 }
  | .removeHit => { c with removeHits := c.removeHits + 1 }
  | .removeMiss => { c with removeMisses := c.removeMisses + 1 }
  | .promotion => { c with promotions := c.promotions + 1 }
  | .promotionSkipped => { c with promotionsSkipped := c.promotionsSkipped + 1 }
  | .eviction => { c with evictions := c.evictions + 1 }
  | .foreignReclaim => { c with foreignReclaims := c.foreignReclaims + 1 }

/-- What a table reports about its work and its size.
mirrors src/src/metrics/snapshot.rs:7-36 -/
structure Snapshot where
  getCalls : Nat := 0
  getHits : Nat := 0
  getMisses : Nat := 0
  insertCalls : Nat := 0
  insertNew : Nat := 0
  insertUpdates : Nat := 0
  insertRejected : Nat := 0
  setCalls : Nat := 0
  setHits : Nat := 0
  removeCalls : Nat := 0
  removeHits : Nat := 0
  promotions : Nat := 0
  promotionsSkipped : Nat := 0
  evictedEntries : Nat := 0
  foreignReclaims : Nat := 0
  len : Nat := 0
  capacity : Nat := 0
  buckets : Nat := 0
  registered : Nat := 0
deriving DecidableEq, Repr, Inhabited

/-- The snapshot of counters for a table of the given size and geometry.
mirrors src/src/metrics/metrics_impl.rs:26-53 and src/src/policy/lru.rs:976-988 -/
def Counters.snapshot (c : Counters) (len capacity buckets registered : Nat) : Snapshot where
  getCalls := c.getHits + c.getMisses
  getHits := c.getHits
  getMisses := c.getMisses
  insertCalls := c.insertNew + c.insertUpdates + c.insertRejected
  insertNew := c.insertNew
  insertUpdates := c.insertUpdates
  insertRejected := c.insertRejected
  setCalls := c.setHits + c.setMisses
  setHits := c.setHits
  removeCalls := c.removeHits + c.removeMisses
  removeHits := c.removeHits
  promotions := c.promotions
  promotionsSkipped := c.promotionsSkipped
  evictedEntries := c.evictions
  foreignReclaims := c.foreignReclaims
  len := len
  capacity := capacity
  buckets := buckets
  registered := registered

/-- Hits over calls of lookups, each count first rounded to a double.
mirrors src/src/metrics/snapshot.rs:41-47 -/
def Snapshot.hitRatio (s : Snapshot) : Float :=
  if s.getCalls = 0 then 0.0
  else (UInt64.ofNat s.getHits).toFloat / (UInt64.ofNat s.getCalls).toFloat

end ShardCache
