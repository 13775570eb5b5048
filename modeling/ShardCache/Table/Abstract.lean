import ShardCache.Table.Basic
import ShardCache.Model
/-!
# The abstract view of a table

`Table.abstract` forgets the buckets and the arena: each shard's recency
list becomes its list of items `(key, value, slot)`, read from the arena
slot by slot, and the free stacks, the spare pool and the counters stay as
they are. A sequence of operations on a table and the same sequence on the
abstract table (`ShardCache.Model`) are meant to answer alike and to keep
`abstract` commuting with each operation.
-/
namespace ShardCache

namespace Table

variable {κ ν : Type}

/-- The item of a listed slot, if the slot holds an entry. -/
def itemOf (t : Table κ ν) (slot : Nat) : Option (Item κ ν) :=
  (t.entry? slot).map fun e => ⟨e.key, e.value, slot⟩

/-- The abstract table of a table. -/
def abstract (t : Table κ ν) : Model κ ν where
  shards := t.shards.map fun sh => ⟨sh.recent.filterMap t.itemOf, sh.free, sh.quota⟩
  spare := t.spare
  counters := t.counters

@[simp] theorem spare_abstract (t : Table κ ν) : t.abstract.spare = t.spare := rfl

@[simp] theorem counters_abstract (t : Table κ ν) : t.abstract.counters = t.counters := rfl

/-- A fresh table is the fresh abstract table. -/
theorem abstract_create [DecidableEq κ] (c : Config) (h : Hasher) :
    (create c h : Table κ ν).abstract = Model.init c := by
  simp [abstract, shards_create, Model.init, Shard.initial, Array.map_map]

end Table

end ShardCache
