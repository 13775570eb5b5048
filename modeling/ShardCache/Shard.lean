import ShardCache.Config
import ShardCache.Link
import ShardCache.Concurrent.BucketLocks
/-!
# Shards

A shard is what one registered handle owns:

* `freeHead` and `freeLen`: the top of its free list, threaded through the
  successor words of the link pairs, and the count of slots on it.
* `quota`: the size of its partition, the most free slots it keeps; a slot
  released beyond that goes to the table's shared spare pool.
* `run`: the probe run of its handle. It holds buckets from a probe until the
  operation lets them go, and still holds them after a guard was forgotten.
* `recent` and `free`, kept for the proofs only: the slots of its recency list,
  most recently used first, and of its free list, top first, as its link
  words chain them. The operations read the link words and the registers and
  keep these two lists in step; `Table.Linked` states that they agree.

The ends of shard `s`'s recency list are `Config.ends c s`: two sentinel ids
after the data slots, the head first.
-/
namespace ShardCache

namespace Config

/-- The head and tail sentinels of shard `s`'s recency list, as 32-bit words: the
sentinels follow the data slots in pairs, the head first.
mirrors src/src/ds/shard.rs:83-96 -/
def ends (c : Config) (s : Nat) : Relink.Ends :=
  let head := (c.capacity + 2 * s).toUInt32
  ⟨head, head + 1⟩

end Config

/-- The registers of one shard and the lists its link words form.
mirrors src/src/ds/shard.rs:70-79 and src/src/ds/shard.rs:177-181 -/
structure Shard where
  recent : List Nat
  free : List Nat
  quota : Nat
  freeHead : UInt32
  freeLen : Nat
  run : ProbeRun
deriving DecidableEq, Repr, Inhabited

namespace Shard

/-- Shard `s` of a table being built, before its list and free list are set up: no
free slot yet, and an empty probe run.
mirrors src/src/ds/shard.rs:83-96 -/
def blank (c : Config) (s : Nat) : Shard :=
  ⟨[], [], c.quota s, listEnd, 0, ⟨0, []⟩⟩

/-- Shard `s` of a fresh table: no entries, its whole partition free with the lowest slot
on top.
mirrors src/src/ds/shard.rs:83-96 and src/src/policy/lru.rs:226-232 -/
def initial (c : Config) (s : Nat) : Shard :=
  ⟨[], c.partition s, c.quota s, ((c.partition s).head?.map Nat.toUInt32).getD listEnd,
    c.quota s, ⟨0, []⟩⟩

@[simp] theorem free_initial (c : Config) (s : Nat) : (initial c s).free = c.partition s := rfl

@[simp] theorem quota_initial (c : Config) (s : Nat) : (initial c s).quota = c.quota s := rfl

@[simp] theorem recent_initial (c : Config) (s : Nat) : (initial c s).recent = [] := rfl

@[simp] theorem run_initial (c : Config) (s : Nat) : (initial c s).run = ⟨0, []⟩ := rfl

/-- Puts a slot at the front of the recency list.
mirrors src/src/ds/intrusive_list.rs:101-120 -/
def link (sh : Shard) (slot : Nat) : Shard := { sh with recent := slot :: sh.recent }

@[simp] theorem recent_link (sh : Shard) (slot : Nat) : (sh.link slot).recent = slot :: sh.recent := rfl

@[simp] theorem free_link (sh : Shard) (slot : Nat) : (sh.link slot).free = sh.free := rfl

@[simp] theorem quota_link (sh : Shard) (slot : Nat) : (sh.link slot).quota = sh.quota := rfl

@[simp] theorem run_link (sh : Shard) (slot : Nat) : (sh.link slot).run = sh.run := rfl

/-- Takes a slot off the recency list.
mirrors src/src/ds/intrusive_list.rs:71-75 -/
def unlink (sh : Shard) (slot : Nat) : Shard := { sh with recent := sh.recent.erase slot }

@[simp] theorem recent_unlink (sh : Shard) (slot : Nat) :
    (sh.unlink slot).recent = sh.recent.erase slot := rfl

@[simp] theorem free_unlink (sh : Shard) (slot : Nat) : (sh.unlink slot).free = sh.free := rfl

@[simp] theorem quota_unlink (sh : Shard) (slot : Nat) : (sh.unlink slot).quota = sh.quota := rfl

@[simp] theorem run_unlink (sh : Shard) (slot : Nat) : (sh.unlink slot).run = sh.run := rfl

/-- Whether the slot is first on the recency list. -/
def isFirst (sh : Shard) (slot : Nat) : Bool := sh.recent.head? == some slot

/-- The recency list without its least recently used slot.
mirrors src/src/ds/intrusive_list.rs:83-97 -/
def dropTail (sh : Shard) : Shard := { sh with recent := sh.recent.dropLast }

@[simp] theorem recent_dropTail (sh : Shard) : sh.dropTail.recent = sh.recent.dropLast := rfl

@[simp] theorem free_dropTail (sh : Shard) : sh.dropTail.free = sh.free := rfl

@[simp] theorem quota_dropTail (sh : Shard) : sh.dropTail.quota = sh.quota := rfl

@[simp] theorem run_dropTail (sh : Shard) : sh.dropTail.run = sh.run := rfl

/-- Whether the free list is below its quota, by its count.
mirrors src/src/policy/lru.rs:398-399 -/
def hasRoom (sh : Shard) : Bool := sh.freeLen < sh.quota

theorem hasRoom_iff (sh : Shard) : sh.hasRoom = true ↔ sh.freeLen < sh.quota := by
  simp [hasRoom]

/-- Pushes a slot on the free list: it becomes the head.
mirrors src/src/ds/intrusive_list.rs:123-127 -/
def pushFree (sh : Shard) (slot : Nat) : Shard :=
  { sh with free := slot :: sh.free, freeHead := slot.toUInt32 }

@[simp] theorem free_pushFree (sh : Shard) (slot : Nat) :
    (sh.pushFree slot).free = slot :: sh.free := rfl

@[simp] theorem recent_pushFree (sh : Shard) (slot : Nat) :
    (sh.pushFree slot).recent = sh.recent := rfl

@[simp] theorem quota_pushFree (sh : Shard) (slot : Nat) : (sh.pushFree slot).quota = sh.quota := rfl

@[simp] theorem run_pushFree (sh : Shard) (slot : Nat) : (sh.pushFree slot).run = sh.run := rfl

@[simp] theorem freeHead_pushFree (sh : Shard) (slot : Nat) :
    (sh.pushFree slot).freeHead = slot.toUInt32 := rfl

@[simp] theorem freeLen_pushFree (sh : Shard) (slot : Nat) :
    (sh.pushFree slot).freeLen = sh.freeLen := rfl

/-- Pops the head of the free list, whose successor `next` becomes the head.
mirrors src/src/ds/intrusive_list.rs:130-139 -/
def popFree (sh : Shard) (next : UInt32) : Shard :=
  { sh with free := sh.free.tail, freeHead := next }

@[simp] theorem free_popFree (sh : Shard) (next : UInt32) : (sh.popFree next).free = sh.free.tail := rfl

@[simp] theorem recent_popFree (sh : Shard) (next : UInt32) : (sh.popFree next).recent = sh.recent := rfl

@[simp] theorem quota_popFree (sh : Shard) (next : UInt32) : (sh.popFree next).quota = sh.quota := rfl

@[simp] theorem run_popFree (sh : Shard) (next : UInt32) : (sh.popFree next).run = sh.run := rfl

@[simp] theorem freeHead_popFree (sh : Shard) (next : UInt32) : (sh.popFree next).freeHead = next := rfl

@[simp] theorem freeLen_popFree (sh : Shard) (next : UInt32) : (sh.popFree next).freeLen = sh.freeLen := rfl

end Shard

end ShardCache
