import ShardCache.Index
/-!
# Bucket locks

The buckets as the threads share them. A bucket is one word: a slot id, `free`, or `locked`
while an operation holds it. An operation holds a *run*, the buckets from a start onwards,
taken one after another, and records the content each had when it was taken. It works on
the recorded contents and writes them back when it lets the run go.

A bucket is taken by a compare-exchange loop. For a thread running alone, with every
compare-exchange going through at once, the loop takes a bucket that does not read
`locked` at its first attempt. A bucket that reads `locked` is never freed, and the thread
waits on it forever. `Locked` records these two ends and a third: a run that already holds
`maxLockDepth` buckets does not take another but aborts the process.

* `lockBucket`, `lockNext`: take one bucket, or the bucket right after a run.
* `probe`: a run from a home bucket up to the first bucket holding a target or free;
  `probeWith` is the probe on a handle's run, which first asserts that the run is empty.
* `removeAt`: empties a bucket of a run and closes the gap by backward shift on the
  recorded contents, extending the run to the next free bucket.
* `release`: writes a run's contents back.

`Word.encode` gives the 32-bit word a bucket stores; a valid geometry keeps
every slot id below the two words of `free` and `locked`.
-/
namespace ShardCache

/-- The most buckets one run may hold: taking one more aborts.
mirrors src/src/ds/bucket_index.rs:50-56 -/
def maxLockDepth : Nat := 248

/-- The word of one bucket.
mirrors src/src/ds/bucket_index.rs:58-62 -/
inductive Word where
  | free
  | locked
  | slot (id : Nat)
deriving DecidableEq, Repr

/-- The 32-bit word a bucket stores: a slot id as itself, and `free` and `locked`
as the two largest words.
mirrors src/src/ds/bucket_index.rs:58-62 -/
def Word.encode : Word → UInt32
  | .free => 0xFFFFFFFF
  | .locked => 0xFFFFFFFE
  | .slot id => id.toUInt32

/-- The word of a bucket holding `content`: the index keeps a held bucket as the content
`some bucketLocked`, which reads `locked`. -/
def Word.ofContent : Option Nat → Word
  | none => .free
  | some id => if id = bucketLocked then .locked else .slot id

/-- The content the index keeps for a word. -/
def Word.toContent : Word → Option Nat
  | .free => none
  | .locked => some bucketLocked
  | .slot id => some id

/-- The words of all buckets.
mirrors src/src/ds/bucket_index.rs:139-141 -/
structure Buckets where
  words : Array Word
deriving DecidableEq, Repr

/-- The buckets of a run from `start` on: the content each held when it was taken.
mirrors src/src/ds/bucket_index.rs:68-71 -/
structure ProbeRun where
  start : Nat
  contents : List (Option Nat)
deriving DecidableEq, Repr, Inhabited

/-- Whether a run holds buckets.
mirrors src/src/ds/bucket_index.rs:88-91 -/
def ProbeRun.isHeld (run : ProbeRun) : Bool := !run.contents.isEmpty

/-- How a locking loop of a thread running alone ends. -/
inductive Locked (α : Type) where
  /-- It took what it needed. -/
  | done (a : α)
  /-- It met a bucket that reads `locked`, which no one will free. -/
  | waits
  /-- A run needed more than `maxLockDepth` buckets: the process aborts. -/
  | aborts
deriving DecidableEq, Repr

namespace Buckets

/-- The words of the buckets of an index. -/
def ofIndex (ix : Index) : Buckets := ⟨ix.cells.map Word.ofContent⟩

/-- The number of buckets. -/
def size (b : Buckets) : Nat := b.words.size

/-- Stores one word. -/
def write (b : Buckets) (pos : Nat) (w : Word) : Buckets := ⟨b.words.setIfInBounds pos w⟩

/-- `lock_bucket`: the content of the bucket at `pos` and the words with it locked, or
`none` when it reads `locked` (or lies outside the ring, which a position taken modulo the
number of buckets never does).
mirrors src/src/ds/bucket_index.rs:278-297 -/
def lockBucket (b : Buckets) (pos : Nat) : Option (Option Nat × Buckets) :=
  match b.words[pos]? with
  | some .free => some (none, b.write pos .locked)
  | some (.slot id) => some (some id, b.write pos .locked)
  | _ => none

/-- `lock_next`: takes the bucket right after the run and records its content.
mirrors src/src/ds/bucket_index.rs:262-276 -/
def lockNext (b : Buckets) (run : ProbeRun) : Locked (Option Nat × Buckets × ProbeRun) :=
  if maxLockDepth ≤ run.contents.length then .aborts
  else
    match b.lockBucket ((run.start + run.contents.length) % b.size) with
    | some (content, b') => .done (content, b', { run with contents := run.contents ++ [content] })
    | none => .waits

/-- The loop of `probe`, for at most `fuel` more buckets.
mirrors src/src/ds/bucket_index.rs:184-197 -/
def probeLoop (target : Nat → Bool) :
    Nat → Buckets → ProbeRun → Locked (Option Nat × Buckets × ProbeRun)
  | 0, _, _ => .aborts
  | fuel + 1, b, run =>
    match b.lockNext run with
    | .done (none, b', run') => .done (none, b', run')
    | .done (some id, b', run') =>
      if target id then .done (some (run'.contents.length - 1), b', run')
      else probeLoop target fuel b' run'
    | .waits => .waits
    | .aborts => .aborts

/-- `probe`: takes the buckets from the home of `hash` on until one holds a target, whose
depth it answers, or is free (`none`). The run starts empty, so the loop runs at most
`maxLockDepth + 1` times: by then `lockNext` has aborted.
mirrors src/src/ds/bucket_index.rs:179-198 -/
def probe (b : Buckets) (hash : UInt64) (target : Nat → Bool) :
    Locked (Option Nat × Buckets × ProbeRun) :=
  probeLoop target (maxLockDepth + 1) b ⟨hash.toNat % b.size, []⟩

/-- `probe` as an operation calls it, on the run its handle keeps: it first asserts that
the run holds no buckets from an earlier operation, and fails with the number it still holds
before taking any bucket; otherwise it probes from the home of `hash`.
mirrors src/src/ds/bucket_index.rs:161-189 -/
def probeWith (b : Buckets) (held : ProbeRun) (hash : UInt64) (target : Nat → Bool) :
    Except Nat (Locked (Option Nat × Buckets × ProbeRun)) :=
  if held.isHeld then .error held.contents.length else .ok (b.probe hash target)

/-- The loop of `remove_at`, with the hole at depth `hole` and the walk at depth `next`. The
content there, recorded or newly taken, moves into the hole when its displacement from its
own home reaches back to the hole. The loop ends at the first free bucket, which the last
hole joins.
mirrors src/src/ds/bucket_index.rs:210-226 -/
def shiftLoop (homeOf : Nat → Nat) :
    Nat → Buckets → ProbeRun → Nat → Nat → Locked (Buckets × ProbeRun)
  | 0, _, _, _, _ => .aborts
  | fuel + 1, b, run, hole, next =>
    let taken : Locked (Option Nat × Buckets × ProbeRun) :=
      if h : next < run.contents.length then .done (run.contents[next], b, run)
      else b.lockNext run
    match taken with
    | .done (none, b', run') => .done (b', { run' with contents := run'.contents.set hole none })
    | .done (some id, b', run') =>
      if next - hole ≤ ((run'.start + next) % b.size + b.size - homeOf id) % b.size then
        shiftLoop homeOf fuel b' { run' with contents := run'.contents.set hole (some id) } next
          (next + 1)
      else shiftLoop homeOf fuel b' run' hole (next + 1)
    | .waits => .waits
    | .aborts => .aborts

/-- `remove_at`: empties the bucket at `depth` of a held run and backward-shifts the
displacement chain behind it. The walk moves one bucket further each time and
`lockNext` aborts past `maxLockDepth`, so `maxLockDepth + 1` rounds always suffice.
mirrors src/src/ds/bucket_index.rs:203-228 -/
def removeAt (b : Buckets) (run : ProbeRun) (depth : Nat) (homeOf : Nat → Nat) :
    Locked (Buckets × ProbeRun) :=
  shiftLoop homeOf (maxLockDepth + 1) b run depth (depth + 1)

/-- Writes recorded contents back, the first at `depth` buckets after `start`.
mirrors src/src/ds/bucket_index.rs:231-236 -/
def releaseFrom (b : Buckets) (start : Nat) : Nat → List (Option Nat) → Buckets
  | _, [] => b
  | depth, content :: rest =>
    (b.write ((start + depth) % b.size) (.ofContent content)).releaseFrom start (depth + 1) rest

/-- `release`: unlocks every bucket of the run, writing back its recorded content.
mirrors src/src/ds/bucket_index.rs:230-236 -/
def release (b : Buckets) (run : ProbeRun) : Buckets := b.releaseFrom run.start 0 run.contents

end Buckets

namespace Index

/-- The index that keeps the contents of a set of bucket words. -/
def ofBuckets (b : Buckets) : Index := ⟨b.words.map Word.toContent⟩

/-- The words and the run once the first `k` buckets from `start` have been taken out of an
index that no operation held, one after another as `lock_next` takes them. -/
def locking (ix : Index) (start k : Nat) : Buckets × ProbeRun :=
  (⟨Array.ofFn fun p : Fin ix.size =>
      if ix.gap start p < k then .locked else .ofContent (ix.get p)⟩,
    ⟨start, (List.range k).map fun i => ix.get (ix.position start i)⟩)

/-- The first bucket, in position order, that holds a run's lock. A pass over every bucket,
as `for_each_occupied` makes, takes the buckets in that order and waits on this one forever:
no one releases a run whose guard was forgotten.
mirrors src/src/ds/bucket_index.rs:240-254 -/
def firstLocked (ix : Index) : Option Nat :=
  (List.range ix.size).find? fun p => ix.get p == some bucketLocked

end Index

end ShardCache
