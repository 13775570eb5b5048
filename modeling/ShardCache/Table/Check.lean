import ShardCache.Table.Access
/-!
# The structural check

`Table.check` looks for the first broken rule of a table's structure, in
this order:

1. per shard: the head sentinel's predecessor marks the end; walking the
   successor words from it reaches the tail sentinel through data slots only,
   each slot's predecessor leading back, within `capacity` slots (a longer
   walk is a cycle); the tail sentinel's pair leads back to the last slot and
   marks the end; the free list, read from the free head along successor
   words while they are below the end marker (`snapshotFree`), holds as many
   slots as the shard counts, no more than its quota, and data slots only,
   each marking no predecessor;
2. the spare pool holds detached data slots only;
3. every data slot was met exactly once on a list, a free list or the spare
   pool;
4. per bucket, in bucket order: it is not locked; if it holds a slot, that
   slot is a data slot seen in no earlier bucket, was met on a recency list,
   holds an entry whose key has the stored hash, and is reachable from its
   home without a free bucket and without an earlier data slot that holds the
   same key;
5. the number of occupied buckets is `len`;
6. no slot outside the index holds an entry.

The first failure is the error, with the text `InvariantError.message`.

The free list is read as `snapshot_free` reads it: the walk stops at the first
word that is not below the end marker, so a free head or a last successor
that reads `locked` ends the free list like the end marker does.
-/
namespace ShardCache

/-- A number in hexadecimal after `0x`, with lowercase digits. -/
def hexText (n : Nat) : String := "0x" ++ String.ofList (Nat.toDigits 16 n)

/-- A broken rule of a table's structure.
mirrors src/src/policy/lru.rs:730-898 -/
inductive InvariantError where
  | headPred (shard : Nat) (head : Link)
  | leavesArena (shard : Nat) (current prev : UInt32)
  | wrongPred (shard : Nat) (slot : UInt32) (links : Link) (prev : UInt32)
  | cycle (shard : Nat)
  | wrongTail (shard : Nat) (tail : Link) (prev : UInt32)
  | freeCount (shard count freeLen : Nat)
  | freeOverQuota (shard count quota : Nat)
  | badFreeSlot (shard : Nat) (slot : UInt32) (links : Link)
  | badSpareSlot (slot : Nat)
  | membership (slot count : Nat)
  | leftLocked (pos : Nat)
  | badBucket (pos slot : Nat)
  | unlisted (slot : Nat)
  | noEntry (slot : Nat)
  | staleHash (slot : Nat)
  | unreachable (slot pos home : Nat)
  | sameKey (earlier later : Nat)
  | lenMismatch (entries len : Nat)
  | strayEntry (slot : Nat)
deriving DecidableEq, Repr

/-- The text of a broken rule.
mirrors src/src/policy/lru.rs:730-898 -/
def InvariantError.message : InvariantError → String
  | .headPred s head => "shard " ++ toString s ++ ": head sentinel has pred " ++ head.describe
  | .leavesArena s current prev =>
    "shard " ++ toString s ++ ": list reaches non-data link " ++ hexText current.toNat ++
      " after " ++ toString prev
  | .wrongPred s slot links prev =>
    "shard " ++ toString s ++ ": slot " ++ toString slot ++ " has pred " ++ links.describe ++
      ", expected " ++ toString prev
  | .cycle s => "shard " ++ toString s ++ ": list has a cycle"
  | .wrongTail s tail prev =>
    "shard " ++ toString s ++ ": tail sentinel has links " ++ tail.describe ++ ", expected (" ++
      toString prev ++ ", END)"
  | .freeCount s n len =>
    "shard " ++ toString s ++ ": free list holds " ++ toString n ++ " slots but free_len is " ++
      toString len
  | .freeOverQuota s n q =>
    "shard " ++ toString s ++ ": " ++ toString n ++ " free slots exceed quota " ++ toString q
  | .badFreeSlot s slot links =>
    "shard " ++ toString s ++ ": bad free-list slot " ++ toString slot ++ " with links " ++
      links.describe
  | .badSpareSlot slot => "bad spare slot " ++ toString slot
  | .membership slot n => "slot " ++ toString slot ++ " is on " ++ toString n ++ " lists, expected exactly one"
  | .leftLocked pos => "bucket " ++ toString pos ++ " left locked"
  | .badBucket pos slot => "bucket " ++ toString pos ++ " holds invalid or duplicate slot " ++ toString slot
  | .unlisted slot => "indexed slot " ++ toString slot ++ " is not in any LRU list"
  | .noEntry slot => "indexed slot " ++ toString slot ++ " has no entry"
  | .staleHash slot => "slot " ++ toString slot ++ " stores a stale hash"
  | .unreachable slot pos home =>
    "slot " ++ toString slot ++ " in bucket " ++ toString pos ++ " is unreachable from home " ++
      toString home
  | .sameKey a b => "slots " ++ toString a ++ " and " ++ toString b ++ " hold the same key"
  | .lenMismatch n len => "index holds " ++ toString n ++ " entries but len is " ++ toString len
  | .strayEntry slot => "slot " ++ toString slot ++ " holds an entry but is not indexed"

/-- What the walks have met: how many times each data slot was on a list, a free list or
the spare pool, and which were on a recency list.
mirrors src/src/policy/lru.rs:731-733 -/
structure Tally where
  counts : Array Nat
  linked : Array Bool
deriving DecidableEq, Repr

namespace Tally

/-- Nothing met yet, for `n` data slots. -/
def empty (n : Nat) : Tally := ⟨Array.replicate n 0, Array.replicate n false⟩

/-- One more meeting of a slot. -/
def count (tl : Tally) (slot : Nat) : Tally := { tl with counts := tl.counts.modify slot (· + 1) }

/-- One more meeting of a slot, on a recency list. -/
def countLinked (tl : Tally) (slot : Nat) : Tally :=
  { tl.count slot with linked := tl.linked.setIfInBounds slot true }

/-- The first data slot met other than exactly once.
mirrors src/src/policy/lru.rs:816-821 -/
def membershipFailure (tl : Tally) : Option InvariantError :=
  ((List.range tl.counts.size).find? fun slot => tl.counts[slot]?.getD 0 ≠ 1).map fun slot =>
    .membership slot (tl.counts[slot]?.getD 0)

end Tally

namespace Table

variable {κ ν : Type} [DecidableEq κ] [CacheKey κ]

/-- The walk of shard `s`'s list from `current`, which `prev` leads to, on to the tail
sentinel, after `steps` slots: the last id before the tail, and the tally with the slots
met. At most `fuel` more slots are met; `capacity + 1` from the head always suffices, as the
walk stops at a cycle once it has met more than `capacity` slots.
mirrors src/src/policy/lru.rs:746-771 -/
def walkList (t : Table κ ν) (s : Nat) :
    Nat → UInt32 → UInt32 → Nat → Tally → Except InvariantError (UInt32 × Tally)
  | 0, _, _, _, _ => .error (.cycle s)
  | fuel + 1, prev, current, steps, tl =>
    if current = (t.ends s).tail then .ok (prev, tl)
    else if t.config.capacity ≤ current.toNat then .error (.leavesArena s current prev)
    else
      let l := t.linkOf current
      if l.pred ≠ prev then .error (.wrongPred s current l prev)
      else if t.config.capacity < steps + 1 then .error (.cycle s)
      else t.walkList s fuel current l.succ (steps + 1) (tl.countLinked current.toNat)

/-- The ids of a free list from `current` on, along successor words while the word is
below the end marker, at most `fuel` of them.
mirrors src/src/ds/intrusive_list.rs:155-163 -/
def snapshotFree (t : Table κ ν) : Nat → UInt32 → List UInt32
  | 0, _ => []
  | fuel + 1, current =>
    if current < listEnd then current :: t.snapshotFree fuel (t.linkOf current).succ else []

/-- Counts the slots of shard `s`'s free list, each of which is a data slot marking no
predecessor.
mirrors src/src/policy/lru.rs:796-806 -/
def countFree (t : Table κ ν) (s : Nat) (tl : Tally) : List UInt32 → Except InvariantError Tally
  | [] => .ok tl
  | slot :: rest =>
    if t.config.capacity ≤ slot.toNat ∨ (t.linkOf slot).pred ≠ listEnd then
      .error (.badFreeSlot s slot (t.linkOf slot))
    else t.countFree s (tl.count slot.toNat) rest

/-- The rules of shard `s`: its list, then its free list.
mirrors src/src/policy/lru.rs:736-807 -/
def checkShard (t : Table κ ν) (s : Nat) (sh : Shard) (tl : Tally) : Except InvariantError Tally :=
  let e := t.ends s
  let head := t.linkOf e.head
  if head.pred ≠ listEnd then .error (.headPred s head)
  else match t.walkList s (t.config.capacity + 1) e.head head.succ 0 tl with
    | .error err => .error err
    | .ok (prev, tl) =>
      let tail := t.linkOf e.tail
      if tail ≠ ⟨prev, listEnd⟩ then .error (.wrongTail s tail prev)
      else
        let free := t.snapshotFree t.links.size sh.freeHead
        if free.length ≠ sh.freeLen then .error (.freeCount s free.length sh.freeLen)
        else if sh.quota < free.length then .error (.freeOverQuota s free.length sh.quota)
        else t.countFree s tl free

/-- The rules of the shards from `s` on, in order.
mirrors src/src/policy/lru.rs:736-807 -/
def checkShards (t : Table κ ν) : Nat → List Shard → Tally → Except InvariantError Tally
  | _, [], tl => .ok tl
  | s, sh :: rest, tl =>
    match t.checkShard s sh tl with
    | .error err => .error err
    | .ok tl => t.checkShards (s + 1) rest tl

/-- Counts the slots of the spare pool, oldest first, each of which is a detached data slot.
mirrors src/src/policy/lru.rs:809-814 -/
def countSpare (t : Table κ ν) (tl : Tally) : List Nat → Except InvariantError Tally
  | [] => .ok tl
  | slot :: rest =>
    if t.config.capacity ≤ slot ∨ (t.linkOf slot.toUInt32).isDetached = false then
      .error (.badSpareSlot slot)
    else t.countSpare (tl.count slot) rest

/-- The first failure of reachability for the entry `e` of `slot` in the
bucket at `pos`: the buckets from its home up to `pos`.
mirrors src/src/policy/lru.rs:858-877 -/
def pathFailure (t : Table κ ν) (slot pos : Nat) (e : Entry κ ν) : Option InvariantError :=
  let n := t.index.size
  let home := t.index.home e.hash
  (List.range ((pos + n - home) % n)).findSome? fun step =>
    match t.index.get ((home + step) % n) with
    | none => some (.unreachable slot pos home)
    | some before =>
      if before < t.config.capacity ∧ t.holds e.hash e.key before then some (.sameKey before slot)
      else none

/-- The first failure of the bucket at `pos`, given the slots on recency lists and the
slots earlier buckets hold.
mirrors src/src/policy/lru.rs:825-857 -/
def bucketFailure (t : Table κ ν) (linked seen : Array Bool) (pos : Nat) : Option InvariantError :=
  match t.index.get pos with
  | none => none
  | some slot =>
    if slot = bucketLocked then some (.leftLocked pos)
    else if t.config.capacity ≤ slot ∨ seen[slot]?.getD false = true then some (.badBucket pos slot)
    else if linked[slot]?.getD false = false then some (.unlisted slot)
    else match t.entry? slot with
      | none => some (.noEntry slot)
      | some e =>
        if t.hashOf e.key ≠ e.hash then some (.staleHash slot)
        else t.pathFailure slot pos e

/-- Checks the buckets from `pos` on, `fuel` of them, with the slots earlier buckets hold:
the slots all buckets hold, and how many they are.
mirrors src/src/policy/lru.rs:819-879 -/
def scanBuckets (t : Table κ ν) (linked : Array Bool) :
    Array Bool → Nat → Nat → Nat → Except InvariantError (Array Bool × Nat)
  | seen, entries, _, 0 => .ok (seen, entries)
  | seen, entries, pos, fuel + 1 =>
    match t.bucketFailure linked seen pos with
    | some e => .error e
    | none =>
      match t.index.get pos with
      | some slot => t.scanBuckets linked (seen.setIfInBounds slot true) (entries + 1) (pos + 1) fuel
      | none => t.scanBuckets linked seen entries (pos + 1) fuel

/-- The first data slot outside the index that holds an entry.
mirrors src/src/policy/lru.rs:889-897 -/
def strayFailure (t : Table κ ν) (indexed : Array Bool) : Option InvariantError :=
  ((List.range t.config.capacity).find? fun slot =>
    indexed[slot]?.getD false = false ∧ (t.entry? slot).isSome).map .strayEntry

/-- The rules of the buckets, once the lists are checked and `linked` marks the data slots
on a recency list: the pass over the buckets, the count of entries against `len`, and no
entry outside the index.
mirrors src/src/policy/lru.rs:819-898 -/
def checkBuckets (t : Table κ ν) (linked : Array Bool) : Except InvariantError Unit :=
  match t.scanBuckets linked (Array.replicate t.config.capacity false) 0 0 t.index.size with
  | .error e => .error e
  | .ok (indexed, entries) =>
    if entries ≠ t.len then .error (.lenMismatch entries t.len)
    else match t.strayFailure indexed with
      | some e => .error e
      | none => .ok ()

/-- Accepts a table that breaks none of the structural rules, in the order of the
module's list.
mirrors src/src/policy/lru.rs:730-899 -/
def check (t : Table κ ν) : Except InvariantError Unit :=
  match t.checkShards 0 t.shards.toList (Tally.empty t.config.capacity) with
  | .error e => .error e
  | .ok tl =>
    match t.countSpare tl t.spare.reverse with
    | .error e => .error e
    | .ok tl =>
      match tl.membershipFailure with
      | some e => .error e
      | none => t.checkBuckets tl.linked

end Table

end ShardCache
