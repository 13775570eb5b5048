import ShardCache.Table.Scan
/-!
# Calls through handles, and the tables they reach

The interface of a table, one call at a time: `Call` names an operation and
its arguments, `Table.perform` runs it and says what it answered, and
`Table.run` runs a list of calls, pairing each answer with the table's
`len` after it. A call goes through the handle of shard `s`; `process` needs
no handle.

`Table.Reach t order` says that `t` is reached from a fresh table by calls
through handles of its shards, registrations and resets of the counters,
and that `order` lists the slots of `t`'s entries in the order the entries
were created. `Table.creationOrder` keeps that order across one step: the
entries that stay (same slot, same key) keep their places and new ones come
last.
-/
namespace ShardCache

/-- A call of the table's interface, through the handle of shard `s`. -/
inductive Call (κ ν : Type) where
  | insert (s : Nat) (k : κ) (v : ν)
  | insertOrSet (s : Nat) (k : κ) (v : ν)
  | get (s : Nat) (k : κ)
  | contains (s : Nat) (k : κ)
  | set (s : Nat) (k : κ) (v : ν)
  | remove (s : Nat) (k : κ)
  /-- Locks an element, sets a new value on the guard if one is given, and
  drops the guard. -/
  | lock (s : Nat) (k : κ) (newValue : Option ν)
  | update (s : Nat) (k : κ) (f : ν → ν)
  | compareAndSwap (s : Nat) (k : κ) (expected new : ν)
  | retain (s : Nat) (keep : κ → ν → Bool)
  | process (f : ν → ν)

/-- What a call answers: a flag, a value, the outcome of a compare-and-swap,
what a guard showed, a count, or the entries a pass visited. -/
inductive Answer (κ ν : Type) where
  | flag (b : Bool)
  | value (v : Option ν)
  | swap (r : Except (Option ν) ν)
  | guard (g : Option (Table.Guard κ ν))
  | count (n : Nat)
  | entries (es : List (κ × ν))

namespace Call

variable {κ ν : Type}

/-- The shard of the handle a call goes through. -/
def shard? : Call κ ν → Option Nat
  | .insert s .. | .insertOrSet s .. | .get s .. | .contains s .. | .set s .. => some s
  | .remove s .. | .lock s .. | .update s .. | .compareAndSwap s .. | .retain s .. => some s
  | .process _ => none

/-- The call goes through the handle of one of `shards` shards, if any. -/
def Fits (c : Call κ ν) (shards : Nat) : Prop := ∀ s ∈ c.shard?, s < shards

end Call

namespace Table

variable {κ ν : Type} [DecidableEq κ] [CacheKey κ]

/-- Runs one call. -/
def perform [DecidableEq ν] (t : Table κ ν) : Call κ ν → Answer κ ν × Table κ ν
  | .insert s k v => let (b, t) := t.insert s k v; (.flag b, t)
  | .insertOrSet s k v => let (b, t) := t.insertOrSet s k v; (.flag b, t)
  | .get s k => let (r, t) := t.get s k; (.value r, t)
  | .contains s k => let (b, t) := t.contains s k; (.flag b, t)
  | .set s k v => let (b, t) := t.set s k v; (.flag b, t)
  | .remove s k => let (b, t) := t.remove s k; (.flag b, t)
  | .lock s k newValue =>
    let (g, t) := t.lockWith s k fun g => (newValue.getD g.value, g)
    (.guard g, t)
  | .update s k f => let (r, t) := t.update s k f; (.value r, t)
  | .compareAndSwap s k expected new =>
    let (r, t) := t.compareAndSwap s k expected new; (.swap r, t)
  | .retain s keep => let (n, t) := t.retain s keep; (.count n, t)
  | .process f => let t := t.mapValues f; (.entries t.listing, t)

/-- Runs calls in order: each answer with the table's `len` after it. -/
def run [DecidableEq ν] (t : Table κ ν) : List (Call κ ν) → List (Answer κ ν × Nat) × Table κ ν
  | [] => ([], t)
  | c :: cs =>
    let (a, t') := t.perform c
    let (rest, t'') := t'.run cs
    ((a, t'.len) :: rest, t'')

/-- The key of the entry in a slot. -/
def keyOf (t : Table κ ν) (slot : Nat) : Option κ := (t.entry? slot).map (·.key)

/-- The slots of `t'`'s entries in creation order, given that order for
`t`: the slots of `order` that still hold the same key, in their order, then
the slots of entries created since. -/
def creationOrder (t t' : Table κ ν) (order : List Nat) : List Nat :=
  let kept := order.filter fun slot => decide (t'.keyOf slot = t.keyOf slot)
  kept ++ t'.index.slots.filter (· ∉ kept)

/-- `t` is reached from a fresh table by calls through handles of its shards,
registrations and resets of the counters, and `order` lists the slots of its
entries in the order the entries were created. -/
inductive Reach [DecidableEq ν] : Table κ ν → List Nat → Prop
  | build {c : Config} {h : Hasher} {t : Table κ ν} : Table.build c h = .ok t → Reach t []
  | call {t : Table κ ν} {order : List Nat} (c : Call κ ν) :
    Reach t order → c.Fits t.config.shards →
      Reach (t.perform c).2 (t.creationOrder (t.perform c).2 order)
  | register {t t' : Table κ ν} {order : List Nat} {s : Nat} :
    Reach t order → t.register = .ok (s, t') → Reach t' order
  | resetCounters {t : Table κ ν} {order : List Nat} : Reach t order → Reach t.resetCounters order

end Table

end ShardCache
