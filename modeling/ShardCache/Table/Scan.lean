import ShardCache.Table.Access
/-!
# Whole-table passes

`listing` is the table's content in bucket order, the order in which a pass
over the index meets the entries. `mapValues` changes every value in that
pass. `retain` keeps the entries that a test accepts: it lists the keys of
the others in bucket order first and then removes them one by one through
shard `s`, so each removal counts as a remove and releases its slot to `s`.
-/
namespace ShardCache

namespace Table

variable {κ ν : Type} [DecidableEq κ] [CacheKey κ]

/-- The entries in bucket order.
mirrors src/src/policy/lru.rs:322-333 and src/src/ds/bucket_index.rs:240-254 -/
def listing (t : Table κ ν) : List (κ × ν) :=
  t.index.slots.filterMap fun slot => (t.entry? slot).map fun e => (e.key, e.value)

/-- The entries sorted by key. -/
def sortedListing (t : Table κ ν) : List (κ × ν) :=
  t.listing.mergeSort fun a b => !(CacheKey.before b.1 a.1)

/-- Applies `f` to every value.
mirrors src/src/policy/lru.rs:322-333 -/
def mapValues (t : Table κ ν) (f : ν → ν) : Table κ ν :=
  t.index.slots.foldl (fun t slot =>
    match t.entry? slot with
    | some e => t.setValue slot (f e.value)
    | none => t) t

/-- Removes the keys in order through shard `s`: how many were present.
mirrors src/src/policy/lru.rs:713-719 -/
def removeAll (s : Nat) : List κ → Table κ ν → Nat × Table κ ν
  | [], t => (0, t)
  | k :: rest, t =>
    let (found, t') := t.remove s k
    let (n, t'') := removeAll s rest t'
    (if found then n + 1 else n, t'')

/-- Removes the entries that `keep` refuses: how many were removed.
mirrors src/src/policy/lru.rs:700-720 -/
def retain (t : Table κ ν) (s : Nat) (keep : κ → ν → Bool) : Nat × Table κ ν :=
  removeAll s ((t.listing.filter fun e => !keep e.1 e.2).map (·.1)) t

end Table

end ShardCache
