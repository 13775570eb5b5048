import ShardCache.Table.Check
/-!
# Session commands and replies

A session drives one table through a list of commands. A command names the
handle it goes through by its registration number `h`; handle `h` acts for
shard `h`. `Reply` is what a command answered and `Fault` why it failed:

* `config`: a refused geometry or registration;
* `invariant`: a broken structural rule found by `check`;
* `panic`: an operation that cannot go on (`Panic`);
* `waits`: a pass over the buckets that meets one left locked, on which it
  waits forever;
* `unknownHandle` and `input`: a command that names a handle never
  registered, or that could not be read at all.
-/
namespace ShardCache

/-- Why an operation stopped instead of answering. -/
inductive Panic where
  /-- A table was built from a geometry that `Config.validate` refuses. -/
  | invalidConfig (e : ConfigError)
  /-- A probe started while the handle still held a run of this length. -/
  | stillHolding (length : Nat)
  /-- A shard number at or past the number of shards. -/
  | shardOutOfRange (shards index : Nat)
deriving DecidableEq, Repr

/-- The text of a panic. -/
def Panic.message : Panic → String
  | .invalidConfig e => "invalid ShardedLru configuration: " ++ e.message
  | .stillHolding n =>
    s!"probe started while the handle still holds {n} buckets from an earlier operation"
  | .shardOutOfRange len i => s!"index out of bounds: the len is {len} but the index is {i}"

/-- Why a command failed. -/
inductive Fault where
  | config (e : ConfigError)
  | invariant (e : InvariantError)
  | panic (p : Panic)
  /-- The call waits forever for the bucket at this position, which a forgotten guard
  left locked. -/
  | waits (position : Nat)
  | unknownHandle (h : Nat)
  | input (reason : String)
deriving DecidableEq, Repr

/-- The text of a fault. -/
def Fault.message : Fault → String
  | .config e => e.message
  | .invariant e => e.message
  | .panic p => p.message
  | .waits p => s!"waits forever for bucket {p}, which stays locked"
  | .unknownHandle h => s!"no registered handle {h}"
  | .input reason => reason

/-- A command of a session, over keys of type `κ` and word values. -/
inductive Command (κ : Type) where
  | register
  | insert (h : Nat) (k : κ) (v : UInt64)
  | insertOrSet (h : Nat) (k : κ) (v : UInt64)
  | get (h : Nat) (k : κ)
  | contains (h : Nat) (k : κ)
  | set (h : Nat) (k : κ) (v : UInt64)
  | remove (h : Nat) (k : κ)
  | update (h : Nat) (k : κ) (add : UInt64)
  | cas (h : Nat) (k : κ) (expected new : UInt64)
  /-- Locks an element, optionally sets a new value, and drops the guard. -/
  | lock (h : Nat) (k : κ) (newValue : Option UInt64)
  /-- Locks an element and forgets the guard. -/
  | lockForget (h : Nat) (k : κ)
  /-- Keeps the entries whose value is below `below`. -/
  | retain (h : Nat) (below : UInt64)
  /-- Lists the entries, after adding `add` to every value if given. -/
  | process (add : Option UInt64) (sorted : Bool)
  | check
  | info
  | shardCapacity (s : Nat)
  | shardIndex (h : Nat)
  | describe
  | metrics
  | resetMetrics
  | expose (pfx : String)
deriving Repr

/-- The name of a command's operation. -/
def Command.name {κ : Type} : Command κ → String
  | .register => "register"
  | .insert .. => "insert"
  | .insertOrSet .. => "insert_or_set"
  | .get .. => "get"
  | .contains .. => "contains"
  | .set .. => "set"
  | .remove .. => "remove"
  | .update .. => "update"
  | .cas .. => "cas"
  | .lock .. => "lock"
  | .lockForget .. => "lock_forget"
  | .retain .. => "retain"
  | .process .. => "process"
  | .check => "check"
  | .info => "info"
  | .shardCapacity .. => "shard_capacity"
  | .shardIndex .. => "shard_index"
  | .describe => "debug"
  | .metrics => "metrics"
  | .resetMetrics => "reset_metrics"
  | .expose .. => "export"

/-- Whether a command acts through a handle on keys only, so that a worker
may run it. -/
def Command.isKeyed {κ : Type} : Command κ → Bool
  | .insert .. | .insertOrSet .. | .get .. | .contains .. | .set .. | .remove .. => true
  | .update .. | .cas .. | .lock .. | .lockForget .. | .retain .. | .shardIndex .. => true
  | _ => false

/-- What a locked element showed, and the value set through the guard. -/
structure LockView (κ : Type) where
  key : κ
  value : UInt64
  slot : Nat
  /-- The value the guard returned when a new one was set, and the new one. -/
  swapped : Option (UInt64 × UInt64)
deriving DecidableEq, Repr

/-- The size and geometry of a table. -/
structure Info where
  capacity : Nat
  buckets : Nat
  shards : Nat
  registered : Nat
  len : Nat
  shardCapacities : List Nat
deriving DecidableEq, Repr

/-- What a command answered. -/
inductive Reply (κ : Type) where
  | shard (s : Nat)
  | flag (b : Bool)
  | value (v : Option UInt64)
  | swap (r : Except (Option UInt64) UInt64)
  | locked (view : Option (LockView κ))
  | forgotten (slot : Option Nat)
  | count (n : Nat)
  | entries (es : List (κ × UInt64))
  | passed
  | info (i : Info)
  | text (s : String)
  | snapshot (s : Snapshot)
  | done
  | exposition (text : String)
  | fault (f : Fault)

/-- Whether a reply is a failure. -/
def Reply.isFault {κ : Type} : Reply κ → Bool
  | .fault _ => true
  | _ => false

end ShardCache
