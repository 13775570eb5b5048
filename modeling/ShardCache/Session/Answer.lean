import ShardCache.Session.Run
import ShardCache.Decimal.Shortest
import ShardCache.Metrics.Exposition
/-!
# Answers as JSON

How replies are written. A reply is an object; the answer to a step of a
session also carries the table's `len` after it. A failure is
`{"error": kind, "message": text}`, where the kind is `ConfigError`,
`InvariantError`, `panic`, `hang` for a call that never returns, or
`DriverError` for a command that could not be read or names no registered
handle.

The ratio of a snapshot is a double and is written by
`Decimal.jsonText`; every other number is a natural number.
-/
namespace ShardCache

open Json (Value)

/-- The kind of a fault, as answers name it. -/
def Fault.kind : Fault → String
  | .config _ => "ConfigError"
  | .invariant _ => "InvariantError"
  | .panic _ => "panic"
  | .waits _ => "hang"
  | .unknownHandle _ | .input _ => "DriverError"

/-- The members of a fault's answer. -/
def Fault.fields (f : Fault) : List (String × Value) :=
  [("error", .str f.kind), ("message", .str f.message)]

/-- The answer to a fault. -/
def Fault.toJson (f : Fault) : Value := .obj f.fields

/-- A word as JSON. -/
def wordJson (w : UInt64) : Value := .nat w.toNat

/-- The members of a table's size and geometry. -/
def Info.fields (i : Info) : List (String × Value) :=
  [("capacity", .nat i.capacity), ("hash_buckets", .nat i.buckets), ("max_threads", .nat i.shards),
   ("registered_threads", .nat i.registered), ("len", .nat i.len),
   ("is_empty", .bool (i.len == 0)), ("shard_capacities", .arr (i.shardCapacities.map .nat))]

/-- The members of a snapshot. -/
def Snapshot.fields (s : Snapshot) : List (String × Value) :=
  [("get_calls", .nat s.getCalls), ("get_hits", .nat s.getHits), ("get_misses", .nat s.getMisses),
   ("insert_calls", .nat s.insertCalls), ("insert_new", .nat s.insertNew),
   ("insert_updates", .nat s.insertUpdates), ("insert_rejected", .nat s.insertRejected),
   ("set_calls", .nat s.setCalls), ("set_hits", .nat s.setHits),
   ("remove_calls", .nat s.removeCalls), ("remove_hits", .nat s.removeHits),
   ("promotions", .nat s.promotions), ("promotions_skipped", .nat s.promotionsSkipped),
   ("evicted_entries", .nat s.evictedEntries), ("foreign_reclaims", .nat s.foreignReclaims),
   ("len", .nat s.len), ("capacity", .nat s.capacity), ("hash_buckets", .nat s.buckets),
   ("registered_threads", .nat s.registered),
   ("hit_ratio", .number (Decimal.jsonText s.hitRatio))]

variable {κ : Type} [CacheKey κ]

/-- The description of a guard: `ElementGuard { key: …, value: …, slot: … }`. -/
def LockView.describe (v : LockView κ) : String :=
  "ElementGuard \x7b key: " ++ CacheKey.describe v.key ++ ", value: " ++ toString v.value.toNat ++
    ", slot: " ++ toString v.slot ++ " \x7d"

/-- The answer of a locked element. -/
def LockView.toJson (v : LockView κ) : Value :=
  let swapped := match v.swapped with
    | some (old, new) => [("old", wordJson old), ("new", wordJson new)]
    | none => []
  .obj ([("key", CacheKey.toJson v.key), ("value", wordJson v.value), ("slot", .nat v.slot),
    ("debug", .str v.describe)] ++ swapped)

/-- The members of a reply. -/
def Reply.fields : Reply κ → List (String × Value)
  | .shard s => [("shard", .nat s)]
  | .flag b => [("result", .bool b)]
  | .value v => [("result", Value.ofOption wordJson v)]
  | .swap (.ok old) => [("ok", wordJson old)]
  | .swap (.error current) => [("err", Value.ofOption wordJson current)]
  | .locked v => [("result", Value.ofOption LockView.toJson v)]
  | .forgotten slot => [("result", Value.ofOption (fun s => .obj [("slot", .nat s)]) slot)]
  | .count n => [("result", .nat n)]
  | .entries es => [("entries", .arr (es.map fun (k, v) => .arr [CacheKey.toJson k, wordJson v]))]
  | .passed => [("result", .str "ok")]
  | .info i => i.fields
  | .text s => [("result", .str s)]
  | .snapshot s => s.fields
  | .done => [("result", .null)]
  | .exposition body => [("text", .str body)]
  | .fault f => f.fields

/-- The answer to a reply on its own. -/
def Reply.toJson (r : Reply κ) : Value := .obj r.fields

/-- The answer to a step: the reply with the table's `len` after it (which
replaces a `len` member of the reply itself). -/
def Reply.withLen (r : Reply κ) (len : Nat) : Value :=
  .obj ((r.fields.filter (·.1 != "len")) ++ [("len", .nat len)])

/-- The report of a worker. -/
def Session.WorkerReport.toJson (w : Session.WorkerReport κ) : Value :=
  let replies := match w.replies with
    | some rs => [("results", .arr (rs.map Reply.toJson))]
    | none => []
  .obj ([("steps_run", .nat w.stepsRun), ("errors", .nat w.errors)] ++ replies)

end ShardCache
