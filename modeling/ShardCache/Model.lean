import ShardCache.Config
import ShardCache.Metrics.Counters
/-!
# The abstract table

The same table without buckets or an arena: what a sequence of operations
through registered handles must answer, said on lists alone.

* Each shard has a list of items `(key, value, slot)`, most recently used
  first, a stack of free slots (its partition at the start, lowest slot on
  top) and its quota.
* One spare stack, empty at the start, is shared by all shards.
* A hit by `get`, `set`, `upsert` with overwrite, and `lockWith` (so also
  update and compare-and-swap, whether or not the swap happens) moves the
  item to the front of the caller's list, unless it is first there already.
* A new key takes the top free slot of the caller; with none, the caller
  reclaims one first: a spare slot, else the slot of its own last item, else
  that of the last item of the first other shard after it that has one.
* A removed or evicted item's slot goes back to the caller's free stack while
  it is below its quota, and to the spare stack otherwise.

The model counts the same events as the table (`ShardCache.Event`), so its
counters can be compared with the table's.

Main definitions: `Model.init`, `Model.upsert`, `Model.get`,
`Model.contains`, `Model.set`, `Model.remove`, `Model.lockWith`,
`Model.removeAll`, `Model.len`.
-/
namespace ShardCache

/-- An item of the abstract table. -/
structure Item (κ ν : Type) where
  key : κ
  value : ν
  slot : Nat
deriving DecidableEq, Repr

/-- One shard of the abstract table. -/
structure ModelShard (κ ν : Type) where
  items : List (Item κ ν)
  free : List Nat
  quota : Nat
deriving DecidableEq, Repr

/-- The abstract table: per-shard lists and free stacks, and the spare stack. -/
structure Model (κ ν : Type) where
  shards : Array (ModelShard κ ν)
  spare : List Nat
  counters : Counters
deriving DecidableEq, Repr

namespace Model

variable {κ ν : Type} [DecidableEq κ]

/-- The abstract table of a fresh table of the given geometry. -/
def init (c : Config) : Model κ ν where
  shards := (Array.range c.shards).map fun s => ⟨[], c.partition s, c.quota s⟩
  spare := []
  counters := {}

/-- The number of items. -/
def len (m : Model κ ν) : Nat := m.shards.foldl (fun n sh => n + sh.items.length) 0

/-- Counts an event. -/
def record (m : Model κ ν) (e : Event) : Model κ ν := { m with counters := m.counters.record e }

/-- Changes shard `s`. -/
def modifyShard (m : Model κ ν) (s : Nat) (f : ModelShard κ ν → ModelShard κ ν) : Model κ ν :=
  { m with shards := m.shards.modify s f }

/-- The item of a key, if some shard holds it. -/
def find? (m : Model κ ν) (k : κ) : Option (Item κ ν) :=
  m.shards.toList.findSome? fun sh => sh.items.find? (·.key = k)

/-- Takes the item of a key off whichever list holds it. -/
def erase (m : Model κ ν) (k : κ) : Model κ ν :=
  { m with shards := m.shards.map fun sh => { sh with items := sh.items.filter (·.key ≠ k) } }

/-- Replaces the value of a key, where it stands. -/
def setValue (m : Model κ ν) (k : κ) (v : ν) : Model κ ν :=
  { m with shards := m.shards.map fun sh =>
      { sh with items := sh.items.map fun it => if it.key = k then { it with value := v } else it } }

/-- Moves the item of a key to the front of shard `s`'s list, unless it is
first there already. -/
def promote (m : Model κ ν) (s : Nat) (k : κ) : Model κ ν :=
  let first := (m.shards[s]?.bind (·.items.head?)).map (·.key)
  if first = some k then m.record .promotionSkipped
  else match m.find? k with
    | some it => ((m.erase k).modifyShard s fun sh => { sh with items := it :: sh.items }).record .promotion
    | none => m.record .promotionSkipped

/-- Gives a slot back to shard `s`, or to the spare stack beyond its quota. -/
def release (m : Model κ ν) (s slot : Nat) : Model κ ν :=
  if (m.shards[s]?.map fun sh => decide (sh.free.length < sh.quota)).getD false then
    m.modifyShard s fun sh => { sh with free := slot :: sh.free }
  else { m with spare := slot :: m.spare }

/-- Takes the last item of shard `s` off its list. -/
def takeLast (m : Model κ ν) (s : Nat) : Option (Item κ ν × Model κ ν) :=
  (m.shards[s]?.bind (·.items.getLast?)).map fun it =>
    (it, m.modifyShard s fun sh => { sh with items := sh.items.dropLast })

/-- Makes a free slot for shard `s`. -/
def reclaim (m : Model κ ν) (s : Nat) : Model κ ν :=
  match m.spare with
  | slot :: rest => ({ m with spare := rest }.release s slot).record .foreignReclaim
  | [] =>
    match m.takeLast s with
    | some (it, m') => (m'.record .eviction).release s it.slot
    | none =>
      let n := m.shards.size
      match (List.range' 1 (n - 1)).findSome? (fun offset => m.takeLast ((s + offset) % n)) with
      | some (it, m') => ((m'.record .foreignReclaim).record .eviction).release s it.slot
      | none => m

/-- Takes the top free slot of shard `s`. -/
def takeFree (m : Model κ ν) (s : Nat) : Option (Nat × Model κ ν) :=
  match m.shards[s]?.map (·.free) with
  | some (slot :: rest) => some (slot, m.modifyShard s fun sh => { sh with free := rest })
  | _ => none

/-- Inserts or overwrites, trying at most `attempts` times to find a free slot. -/
def upsertWith (s : Nat) (k : κ) (v : ν) (overwrite : Bool) : Nat → Model κ ν → Bool × Model κ ν
  | 0, m => (false, m)
  | attempts + 1, m =>
    match m.find? k with
    | some _ =>
      if overwrite then (false, ((m.setValue k v).record .insertUpdate).promote s k)
      else (false, m.record .insertRejected)
    | none =>
      match m.takeFree s with
      | some (slot, m') =>
        (true, (m'.modifyShard s fun sh => { sh with items := ⟨k, v, slot⟩ :: sh.items }).record .insertNew)
      | none => upsertWith s k v overwrite attempts (m.reclaim s)

/-- Inserts an absent key (`true`), or overwrites a present one if asked. -/
def upsert (m : Model κ ν) (s : Nat) (k : κ) (v : ν) (overwrite : Bool) : Bool × Model κ ν :=
  upsertWith s k v overwrite 2 m

/-- The value of a key, promoting it. -/
def get (m : Model κ ν) (s : Nat) (k : κ) : Option ν × Model κ ν :=
  match m.find? k with
  | some it => (some it.value, (m.record .getHit).promote s k)
  | none => (none, m.record .getMiss)

/-- Whether a key is present. -/
def contains (m : Model κ ν) (k : κ) : Bool × Model κ ν :=
  match m.find? k with
  | some _ => (true, m.record .getHit)
  | none => (false, m.record .getMiss)

/-- Overwrites the value of a present key and promotes it. -/
def set (m : Model κ ν) (s : Nat) (k : κ) (v : ν) : Bool × Model κ ν :=
  match m.find? k with
  | some _ => (true, ((m.setValue k v).record .setHit).promote s k)
  | none => (false, m.record .setMiss)

/-- Removes a key, giving its slot to shard `s`. -/
def remove (m : Model κ ν) (s : Nat) (k : κ) : Bool × Model κ ν :=
  match m.find? k with
  | some it => (true, ((m.erase k).record .removeHit).release s it.slot)
  | none => (false, m.record .removeMiss)

/-- Lets `f` see the item of a key and choose its new value and a result,
then promotes it. -/
def lockWith {α : Type} (m : Model κ ν) (s : Nat) (k : κ) (f : Item κ ν → ν × α) :
    Option α × Model κ ν :=
  match m.find? k with
  | some it =>
    let (v, a) := f it
    (some a, ((m.record .getHit).setValue k v).promote s k)
  | none => (none, m.record .getMiss)

/-- Removes the keys in order through shard `s`: how many were present. -/
def removeAll (s : Nat) : List κ → Model κ ν → Nat × Model κ ν
  | [], m => (0, m)
  | k :: rest, m =>
    let (found, m') := m.remove s k
    let (n, m'') := removeAll s rest m'
    (if found then n + 1 else n, m'')

/-- Applies `f` to every value. -/
def mapValues (m : Model κ ν) (f : ν → ν) : Model κ ν :=
  { m with shards := m.shards.map fun sh =>
      { sh with items := sh.items.map fun it => { it with value := f it.value } } }

end Model

end ShardCache
