import ShardCache.Table.Scan
import ShardCache.Metrics.Exposition
import ShardCache.Decimal.Fixed
/-!
# Example programs

Three small programs that use a table, each given as the text it prints with
the hasher its tables are built with, the default one in the programs.

* `basic`: a table of two entries with text values; a hit promotes key 1,
  so inserting a third key evicts key 2.
* `fetchAdd`: four workers add one to two shared counters ten thousand times
  in turn; the counts are printed sorted by key.
* `metricsExport`: six inserts into a table of four, two lookups and a
  removal, then the hit ratio with two places and the Prometheus text of the
  snapshot.
-/
namespace ShardCache.Demo

/-- The text of the first example. -/
def basic (h : Hasher) : String :=
  let t : Table UInt64 String := Table.create ⟨2, 4, 1⟩ h
  let t := { t with registered := 1 }
  let (_, t) := t.insert 0 1 "alpha"
  let (_, t) := t.insert 0 2 "beta"
  let (hit, t) := t.get 0 1
  let line₁ := match hit with
    | some v => "hit 1: " ++ v ++ "\n"
    | none => ""
  let (_, t) := t.insert 0 3 "gamma"
  let (has2, t) := t.contains 0 2
  line₁ ++ "contains 2? " ++ toString has2 ++ "\n" ++ "len: " ++ toString t.len ++ "\n"

/-- The number of workers of the second example. -/
def workers : Nat := 4

/-- How many additions each worker makes. -/
def increments : Nat := 10000

/-- One worker of the second example, acting for shard `s`. -/
def addAll (s : Nat) (t : Table String UInt64) : Table String UInt64 :=
  (List.range increments).foldl (fun t i =>
    (t.update s (if i % 2 = 0 then "even" else "odd") (· + 1)).2) t

/-- The text of the second example. -/
def fetchAdd (h : Hasher) : String :=
  let config := ({ capacity := 64, buckets := none, shards := some (workers + 1) } : Builder).config 1
  let t : Table String UInt64 := Table.create config h
  let t := { t with registered := workers + 1 }
  let (_, t) := t.insert 0 "even" 0
  let (_, t) := t.insert 0 "odd" 0
  let t := (List.range workers).foldl (fun t w => addAll (w + 1) t) t
  String.join (t.sortedListing.map fun (k, v) => k ++ ": " ++ toString v.toNat ++ "\n")

/-- The text of the third example. -/
def metricsExport (h : Hasher) : String :=
  let config := ({ capacity := 4, buckets := none, shards := some 1 } : Builder).config 1
  let t : Table UInt64 UInt64 := Table.create config h
  let t := { t with registered := 1 }
  let t := (List.range 6).foldl (fun t k => (t.insert 0 k.toUInt64 (k.toUInt64 * 10)).2) t
  let (_, t) := t.get 0 5
  let (_, t) := t.get 0 0
  let (_, t) := t.remove 0 4
  let s := t.snapshot
  "hit ratio: " ++ Decimal.fixed 2 s.hitRatio ++ "\n" ++ s.exposition "shardlru"

/-- The examples by name, run with the tables' default hasher `h`. -/
def byName (h : Hasher) (name : String) : Option String :=
  if name = "basic_sharded_lru" then some (basic h)
  else if name = "fetch_add" then some (fetchAdd h)
  else if name = "metrics_export" then some (metricsExport h)
  else none

end ShardCache.Demo
