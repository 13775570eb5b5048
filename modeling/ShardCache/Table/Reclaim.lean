import ShardCache.Table.Basic
/-!
# Moving slots between lists

How slots travel between the recency lists, the free lists and the spare
pool. A list is threaded through link pairs; the calls that change one are
those of a list run by one thread at a time:

* `cutLinks y`: `y`'s neighbours come to face each other and `y` is detached,
  what `unlink` does to a slot of a list. `unlinkSlot` is that cut with the
  slot taken off its list, for a slot whose pair marks no end (`isLinked`).
* `linkHead s slot`: a detached slot goes right after shard `s`'s head
  sentinel, first in its list.
* `takeFree s`: pops the head of `s`'s free list, following the head's
  successor word, and detaches it.
* `takeTail s`: the slot before `s`'s tail sentinel is cut out, unless that is
  the head sentinel and the list is empty.

And the moves built on them:

* `promote s slot`: a slot whose predecessor is `s`'s head sentinel stays (a
  skipped promotion); any other slot of a list moves from the list that holds
  it, which may be another shard's, to the front of `s`'s list.
* `release s slot`: a detached slot goes on `s`'s free list while the count
  of its free slots is below its quota, and is detached into the spare pool
  otherwise.
* `evict s victim`: the victim's entry leaves the index by backward shift
  and the arena, and the slot is released to `s`.
* `reclaim s`, for a shard whose free list is empty: a spare slot if there
  is one (a foreign reclaim); else the least recently used entry of `s` is
  evicted; else that of the first other shard, in the order `s+1, s+2, …`
  cyclically, with entries (also a foreign reclaim).
-/
namespace ShardCache

namespace Table

variable {κ ν : Type}

/-- Takes slot `y` out from between its neighbours, which come to face each other, and
detaches it.
mirrors src/src/ds/intrusive_list.rs:168-206 -/
def cutLinks (t : Table κ ν) (y : UInt32) : Table κ ν :=
  let l := t.linkOf y
  let t := t.setLinks l.pred ((t.linkOf l.pred).withSucc l.succ)
  let t := t.setLinks l.succ ((t.linkOf l.succ).withPred l.pred)
  t.setLinks y Link.detached

/-- Whether `unlink` takes the slot out of a list: its pair marks no end, as the pairs of
slots in lists do and those of free and spare slots do not.
mirrors src/src/ds/intrusive_list.rs:175-178 -/
def isLinked (t : Table κ ν) (slot : Nat) : Bool := !(t.linkOf slot.toUInt32).touchesEnd

/-- `unlink` of a slot of a list: cut out of the list that holds it.
mirrors src/src/ds/intrusive_list.rs:71-75 -/
def unlinkSlot (t : Table κ ν) (slot : Nat) : Table κ ν :=
  { t.cutLinks slot.toUInt32 with shards := t.shards.map (·.unlink slot) }

/-- Makes the detached slot the most recently used of shard `s`'s list: it goes between
the head sentinel and the slot that was first.
mirrors src/src/ds/intrusive_list.rs:101-120 -/
def linkHead (t : Table κ ν) (s slot : Nat) : Table κ ν :=
  let e := t.ends s
  let x := slot.toUInt32
  let first := (t.linkOf e.head).succ
  let t := t.setLinks x ⟨e.head, first⟩
  let t := t.setLinks e.head ((t.linkOf e.head).withSucc x)
  let t := t.setLinks first ((t.linkOf first).withPred x)
  t.modifyShard s (·.link slot)

/-- Moves a slot to the front of shard `s`'s list, or counts a skipped
promotion if it is first there already or in no list.
mirrors src/src/policy/lru.rs:368-386 -/
def promote (t : Table κ ν) (s slot : Nat) : Table κ ν :=
  if (t.linkOf slot.toUInt32).pred = (t.ends s).head then t.record .promotionSkipped
  else if t.isLinked slot then ((t.unlinkSlot slot).linkHead s slot).record .promotion
  else t.record .promotionSkipped

section Fields

variable (t : Table κ ν) (y : UInt32) (s slot : Nat)

@[simp] theorem config_cutLinks : (t.cutLinks y).config = t.config := by simp [cutLinks]
@[simp] theorem slots_cutLinks : (t.cutLinks y).slots = t.slots := by simp [cutLinks]
@[simp] theorem index_cutLinks : (t.cutLinks y).index = t.index := by simp [cutLinks]
@[simp] theorem shards_cutLinks : (t.cutLinks y).shards = t.shards := by simp [cutLinks]
@[simp] theorem spare_cutLinks : (t.cutLinks y).spare = t.spare := by simp [cutLinks]
@[simp] theorem len_cutLinks : (t.cutLinks y).len = t.len := by simp [cutLinks]

@[simp] theorem config_unlinkSlot : (t.unlinkSlot slot).config = t.config := by simp [unlinkSlot]
@[simp] theorem slots_unlinkSlot : (t.unlinkSlot slot).slots = t.slots := by simp [unlinkSlot]
@[simp] theorem links_unlinkSlot : (t.unlinkSlot slot).links = (t.cutLinks slot.toUInt32).links := rfl
@[simp] theorem index_unlinkSlot : (t.unlinkSlot slot).index = t.index := by simp [unlinkSlot]
@[simp] theorem shards_unlinkSlot : (t.unlinkSlot slot).shards = t.shards.map (·.unlink slot) := rfl
@[simp] theorem spare_unlinkSlot : (t.unlinkSlot slot).spare = t.spare := by simp [unlinkSlot]
@[simp] theorem len_unlinkSlot : (t.unlinkSlot slot).len = t.len := by simp [unlinkSlot]

@[simp] theorem config_linkHead : (t.linkHead s slot).config = t.config := by simp [linkHead]
@[simp] theorem slots_linkHead : (t.linkHead s slot).slots = t.slots := by simp [linkHead]
@[simp] theorem index_linkHead : (t.linkHead s slot).index = t.index := by simp [linkHead]
@[simp] theorem shards_linkHead : (t.linkHead s slot).shards = t.shards.modify s (·.link slot) := by
  simp [linkHead]
@[simp] theorem spare_linkHead : (t.linkHead s slot).spare = t.spare := by simp [linkHead]
@[simp] theorem len_linkHead : (t.linkHead s slot).len = t.len := by simp [linkHead]

end Fields

/-- A promotion moves a slot between lists only: the index is as it was. -/
theorem index_promote (t : Table κ ν) (s slot : Nat) : (t.promote s slot).index = t.index := by
  unfold promote
  split
  · rfl
  · split <;> simp

/-- A promotion changes no entry. -/
theorem slots_promote (t : Table κ ν) (s slot : Nat) : (t.promote s slot).slots = t.slots := by
  unfold promote
  split
  · rfl
  · split <;> simp

theorem len_promote (t : Table κ ν) (s slot : Nat) : (t.promote s slot).len = t.len := by
  unfold promote
  split
  · rfl
  · split <;> simp

/-- Hands a detached slot to shard `s`, or detaches it into the spare pool when `s`
already counts its quota of free slots.
mirrors src/src/policy/lru.rs:394-405 -/
def release (t : Table κ ν) (s slot : Nat) : Table κ ν :=
  if (t.shards[s]?.map (·.hasRoom)).getD false then
    (t.pushFree s slot).modifyShard s fun sh => { sh with freeLen := sh.freeLen + 1 }
  else { t.setLinks slot.toUInt32 Link.detached with spare := slot :: t.spare }

/-- A release changes no bucket and no entry. -/
theorem index_release (t : Table κ ν) (s slot : Nat) : (t.release s slot).index = t.index := by
  unfold release pushFree
  split
  · split <;> simp
  · simp

theorem slots_release (t : Table κ ν) (s slot : Nat) : (t.release s slot).slots = t.slots := by
  unfold release pushFree
  split
  · split <;> simp
  · simp

theorem len_release (t : Table κ ν) (s slot : Nat) : (t.release s slot).len = t.len := by
  unfold release pushFree
  split
  · split <;> simp
  · simp

/-- Pops the head of shard `s`'s free list, detaching it, and counts one free slot less.
mirrors src/src/policy/lru.rs:388-392 and src/src/ds/intrusive_list.rs:130-139 -/
def takeFree (t : Table κ ν) (s : Nat) : Option (Nat × Table κ ν) :=
  match t.shards[s]? with
  | none => none
  | some sh =>
    if sh.freeHead = listEnd then none
    else
      let next := (t.linkOf sh.freeHead).succ
      some (sh.freeHead.toNat, (t.setLinks sh.freeHead Link.detached).modifyShard s
        fun sh => { sh.popFree next with freeLen := sh.freeLen - 1 })

/-- Detaches the least recently used slot of shard `s`'s list, the one before its tail
sentinel, unless the list is empty.
mirrors src/src/ds/intrusive_list.rs:83-98 -/
def takeTail (t : Table κ ν) (s : Nat) : Option (Nat × Table κ ν) :=
  match t.shards[s]? with
  | none => none
  | some _ =>
    let victim := (t.linkOf (t.ends s).tail).pred
    if victim = (t.ends s).head then none
    else some (victim.toNat, (t.cutLinks victim).modifyShard s (·.dropTail))

/-- Removes the entry of the bucket `depth` after `start`, which holds `slot`:
the bucket closes by backward shift and the arena slot empties.
mirrors src/src/policy/lru.rs:457-471 -/
def unindex (t : Table κ ν) (slot start depth : Nat) : Table κ ν :=
  let index := t.index.removeAt t.homeOf start depth
  let len := t.len - 1
  { (t.writeSlot slot none) with index := index, len := len }

/-- Evicts the entry of a slot taken off a recency list and releases the
slot to shard `s`.
mirrors src/src/policy/lru.rs:457-481 -/
def evict (t : Table κ ν) (s victim : Nat) : Table κ ν :=
  match t.entry? victim with
  | none => t.release s victim
  | some e =>
    let start := t.index.home e.hash
    match t.index.probe start (· == victim) with
    | .hit depth _ => ((t.unindex victim start depth).record .eviction).release s victim
    | _ => t.release s victim

/-- The first shard after `s`, cyclically, whose list has a slot to give, with
that slot taken off.
mirrors src/src/policy/lru.rs:438-452 -/
def takeForeignTail (t : Table κ ν) (s : Nat) : Option (Nat × Table κ ν) :=
  (List.range' 1 (t.config.shards - 1)).findSome? fun offset =>
    t.takeTail ((s + offset) % t.config.shards)

/-- Makes a free slot for shard `s`: from the spare pool, by evicting its own
least recently used entry, or by evicting another shard's.
mirrors src/src/policy/lru.rs:417-455 -/
def reclaim (t : Table κ ν) (s : Nat) : Table κ ν :=
  match t.spare with
  | slot :: rest => ({ t with spare := rest }.release s slot).record .foreignReclaim
  | [] =>
    match t.takeTail s with
    | some (victim, t') => t'.evict s victim
    | none =>
      match t.takeForeignTail s with
      | some (victim, t') => (t'.record .foreignReclaim).evict s victim
      | none => t

end Table

end ShardCache
