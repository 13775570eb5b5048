/-!
# The bucket index

The index is a ring of buckets; each holds a slot id or is free. A key with
hash `h` has its home at `h mod n`. Linear probing looks for the key from its
home onwards, one bucket after another and cyclically, and stops at the
bucket that holds it or at the first free bucket; a new key is placed in that
free bucket. The buckets from the home to the stop form the probe's *run*,
and the stop's offset from the home is its *depth*.

Removal leaves no tombstone. `removeAt` empties the bucket and then walks
the cluster after it: an entry whose displacement from its own home,
`(pos + n - home) mod n`, reaches back to the hole moves into it, and the
hole moves to where the entry was; the walk ends at the first free bucket,
which the last hole joins. Every entry stays reachable from its home, and the
layout is the one the remaining entries would have had without the removed
one (`canonical` states that layout).

Main definitions:

* `probe`: the first bucket from a start that holds a target or is free.
* `removeAt`: deletion by backward shift.
* `canonical`: the layout of a list of slots placed one after another, each at
  the first free bucket at or after its home.
-/
namespace ShardCache

/-- The word a bucket reads while an operation holds it: reserved, like the free word
above it, and above every slot id a valid geometry hands out. The index stores it as the
content `some bucketLocked`.
mirrors src/src/ds/bucket_index.rs:61-62 -/
def bucketLocked : Nat := 0xFFFFFFFE

/-- A ring of buckets, each free (`none`) or holding a slot id.
mirrors src/src/ds/bucket_index.rs:139-141 -/
structure Index where
  cells : Array (Option Nat)
deriving DecidableEq, Repr, Inhabited

/-- Where a probe stopped: at a bucket holding a target, or at a free bucket,
`depth` buckets after its start; `full` if it went round every bucket and
found neither. -/
inductive Probe where
  | hit (depth slot : Nat)
  | vacant (depth : Nat)
  | full
deriving DecidableEq, Repr

namespace Index

/-- `n` free buckets. -/
def empty (n : Nat) : Index := ⟨Array.replicate n none⟩

/-- The number of buckets. -/
def size (ix : Index) : Nat := ix.cells.size

/-- The content of the bucket at `pos`, `none` if free (or out of range). -/
def get (ix : Index) (pos : Nat) : Option Nat := (ix.cells[pos]?).join

/-- Writes a bucket. -/
def write (ix : Index) (pos : Nat) (content : Option Nat) : Index :=
  ⟨ix.cells.setIfInBounds pos content⟩

@[simp] theorem size_empty (n : Nat) : (empty n).size = n := Array.size_replicate

@[simp] theorem get_empty (n pos : Nat) : (empty n).get pos = none := by
  simp only [get, empty, Array.getElem?_replicate]
  split <;> rfl

@[simp] theorem size_write (ix : Index) (pos : Nat) (content : Option Nat) :
    (ix.write pos content).size = ix.size :=
  Array.size_setIfInBounds

/-- A write changes the one bucket it names, if that bucket exists. -/
theorem get_write (ix : Index) (pos q : Nat) (content : Option Nat) :
    (ix.write pos content).get q = if pos = q ∧ pos < ix.size then content else ix.get q := by
  simp only [get, write, size, Array.getElem?_setIfInBounds]
  by_cases hq : pos = q
  · subst hq
    by_cases hp : pos < ix.cells.size
    · simp [hp]
    · simp [hp]
  · simp [hq]

/-- The home bucket of a hash.
mirrors src/src/ds/bucket_index.rs:155-158 -/
def home (ix : Index) (hash : UInt64) : Nat := hash.toNat % ix.size

/-- The bucket `offset` places after `start`, cyclically.
mirrors src/src/ds/bucket_index.rs:268 -/
def position (ix : Index) (start offset : Nat) : Nat := (start + offset) % ix.size

/-- How many buckets lie from `a` forwards to `b` on the ring: the displacement of a
bucket `b` from a home `a`.
mirrors src/src/ds/bucket_index.rs:220 and src/src/policy/lru.rs:860 -/
def gap (ix : Index) (a b : Nat) : Nat := (b + ix.size - a) % ix.size

/-- Probes from `start + depth` onwards for at most `fuel` buckets. -/
def probeFrom (ix : Index) (start : Nat) (target : Nat → Bool) : Nat → Nat → Probe
  | _, 0 => .full
  | depth, fuel + 1 =>
    match ix.get (ix.position start depth) with
    | none => .vacant depth
    | some slot => if target slot then .hit depth slot else ix.probeFrom start target (depth + 1) fuel

/-- A probe that stops at a target stops at a bucket holding it. -/
theorem probeFrom_hit {ix : Index} {start : Nat} {target : Nat → Bool} :
    ∀ {depth fuel d slot : Nat}, ix.probeFrom start target depth fuel = .hit d slot →
      ix.get (ix.position start d) = some slot ∧ target slot = true
  | _, 0, _, _, h => by simp [probeFrom] at h
  | depth, fuel + 1, d, slot, h => by
    simp only [probeFrom] at h
    split at h
    · cases h
    · rename_i s hs
      split at h
      · cases h
        exact ⟨hs, by assumption⟩
      · exact probeFrom_hit h

/-- A probe that stops at a free bucket stops at a free bucket. -/
theorem probeFrom_vacant {ix : Index} {start : Nat} {target : Nat → Bool} :
    ∀ {depth fuel d : Nat}, ix.probeFrom start target depth fuel = .vacant d →
      ix.get (ix.position start d) = none
  | _, 0, _, h => by simp [probeFrom] at h
  | depth, fuel + 1, d, h => by
    simp only [probeFrom] at h
    split at h
    · cases h
      assumption
    · split at h
      · cases h
      · exact probeFrom_vacant h

/-- The first bucket from `start` that holds a slot satisfying `target`, or
is free; each bucket is looked at once.
mirrors src/src/ds/bucket_index.rs:179-198 -/
def probe (ix : Index) (start : Nat) (target : Nat → Bool) : Probe :=
  ix.probeFrom start target 0 ix.size

/-- The backward shift of `removeAt`, with the hole at offset `hole` and the
walk at offset `next` from `start`.
mirrors src/src/ds/bucket_index.rs:210-227 -/
def shift (ix : Index) (homeOf : Nat → Nat) (start : Nat) : Nat → Nat → Nat → Index
  | hole, _, 0 => ix.write (ix.position start hole) none
  | hole, next, fuel + 1 =>
    let pos := ix.position start next
    match ix.get pos with
    | none => ix.write (ix.position start hole) none
    | some slot =>
      if next - hole ≤ (pos + ix.size - homeOf slot) % ix.size then
        (ix.write (ix.position start hole) (some slot)).shift homeOf start next (next + 1) fuel
      else ix.shift homeOf start hole (next + 1) fuel

theorem size_shift (homeOf : Nat → Nat) (start : Nat) :
    ∀ (fuel : Nat) (ix : Index) (hole next : Nat),
      (ix.shift homeOf start hole next fuel).size = ix.size
  | 0, ix, hole, next => by simp only [shift, size_write]
  | fuel + 1, ix, hole, next => by
    simp only [shift]
    split
    · exact size_write _ _ _
    · split
      · rw [size_shift homeOf start fuel, size_write]
      · exact size_shift homeOf start fuel ix hole (next + 1)

/-- Removes the content of the bucket `depth` places after `start` and closes
the gap by backward shift; `homeOf` gives the home bucket of a slot.
mirrors src/src/ds/bucket_index.rs:203-228 -/
def removeAt (ix : Index) (homeOf : Nat → Nat) (start depth : Nat) : Index :=
  ix.shift homeOf start depth (depth + 1) ix.size

@[simp] theorem size_removeAt (ix : Index) (homeOf : Nat → Nat) (start depth : Nat) :
    (ix.removeAt homeOf start depth).size = ix.size :=
  size_shift homeOf start _ ix depth (depth + 1)

/-- The occupied buckets' slots in bucket order. -/
def slots (ix : Index) : List Nat := ix.cells.toList.filterMap id

/-- Places a slot at the first free bucket at or after `start`. -/
def place (ix : Index) (start slot : Nat) : Index :=
  match ix.probe start (fun _ => false) with
  | .vacant depth => ix.write (ix.position start depth) (some slot)
  | _ => ix

@[simp] theorem size_place (ix : Index) (start slot : Nat) : (ix.place start slot).size = ix.size := by
  simp only [place]
  split
  · exact size_write _ _ _
  · rfl

/-- The layout of `n` buckets after placing the slots in order, each at the
first free bucket at or after its home. -/
def canonical (n : Nat) (homeOf : Nat → Nat) (order : List Nat) : Index :=
  order.foldl (fun ix slot => ix.place (homeOf slot) slot) (empty n)

@[simp] theorem size_canonical (n : Nat) (homeOf : Nat → Nat) (order : List Nat) :
    (canonical n homeOf order).size = n := by
  suffices ∀ (ix : Index), (order.foldl (fun ix slot => ix.place (homeOf slot) slot) ix).size = ix.size by
    simpa [canonical] using this (empty n)
  induction order with
  | nil => intro ix; rfl
  | cons slot rest ih => intro ix; simp only [List.foldl_cons]; rw [ih, size_place]

end Index

end ShardCache
