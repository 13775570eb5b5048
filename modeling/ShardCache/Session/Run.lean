import ShardCache.Session.Command
import ShardCache.Table.Scan
import ShardCache.Metrics.Exposition
/-!
# Running a session

`perform` runs one command on a table. A keyed command first checks that
its handle was registered (`unknownHandle` otherwise) and then runs through
`Table.probing`, whose probe panics when a forgotten guard left the
handle's run holding buckets. `retain` and `process` pass over every bucket and wait
forever on the first one a forgotten guard left locked (`Fault.waits`).
`runSteps` runs a list of steps and pairs each reply with the
table's `len` after it; a step that could not be read answers `Fault.input`,
after its handle was checked if it named one.

Workers are the session's threads. Their steps never depend on one
another's timing in what they report, so `runWorkers` runs them one after
another, each its own steps `rounds` times, and reports how many steps each
ran, how many failed, and, if asked, every reply. `acceptWorkers` checks the workers
of a request before any of them runs.

`Construction` says how the table is made: directly or through a `Builder`,
and whether a refused geometry is an error (`ConfigError`) or a panic.
-/
namespace ShardCache

/-- The table type of a session: word values. -/
abbrev SessionTable (κ : Type) := Table κ UInt64

namespace Session

variable {κ : Type} [DecidableEq κ] [CacheKey κ]

/-- The size and geometry of a table.
mirrors src/src/policy/lru.rs:278-315 -/
def info (t : SessionTable κ) : Info where
  capacity := t.config.capacity
  buckets := t.config.buckets
  shards := t.config.shards
  registered := t.registered
  len := t.len
  shardCapacities := t.shards.toList.map (·.quota)

/-- Runs a keyed operation of key `k` through handle `h`.
mirrors src/src/policy/lru.rs:335-341 -/
def keyed (t : SessionTable κ) (h : Nat) (k : κ) (op : SessionTable κ → Reply κ × SessionTable κ) :
    Reply κ × SessionTable κ :=
  if h < t.registered then
    match t.probing h k op with
    | (.ok r, t') => (r, t')
    | (.error n, t') => (.fault (.panic (.stillHolding n)), t')
  else (.fault (.unknownHandle h), t)

/-- Locks an element for the `lock` command: what it showed, with the value
swapped in when `newValue` is given. -/
def lockCommand (t : SessionTable κ) (h : Nat) (k : κ) (newValue : Option UInt64) :
    Option (LockView κ) × SessionTable κ :=
  t.lockWith h k fun g =>
    match newValue with
    | some v => (v, ⟨g.key, g.value, g.slot, some (g.value, v)⟩)
    | none => (g.value, ⟨g.key, g.value, g.slot, none⟩)

/-- The reply to `check`. -/
def checkReply (t : SessionTable κ) : Reply κ :=
  match t.check with
  | .ok () => .passed
  | .error e => .fault (.invariant e)

/-- Runs one command. -/
def perform (t : SessionTable κ) : Command κ → Reply κ × SessionTable κ
  | .register =>
    match t.register with
    | .ok (s, t') => (.shard s, t')
    | .error e => (.fault (.config e), t)
  | .insert h k v => keyed t h k fun t => let (b, t) := t.insert h k v; (.flag b, t)
  | .insertOrSet h k v => keyed t h k fun t => let (b, t) := t.insertOrSet h k v; (.flag b, t)
  | .get h k => keyed t h k fun t => let (r, t) := t.get h k; (.value r, t)
  | .contains h k => keyed t h k fun t => let (b, t) := t.contains h k; (.flag b, t)
  | .set h k v => keyed t h k fun t => let (b, t) := t.set h k v; (.flag b, t)
  | .remove h k => keyed t h k fun t => let (b, t) := t.remove h k; (.flag b, t)
  | .update h k add => keyed t h k fun t => let (r, t) := t.update h k (· + add); (.value r, t)
  | .cas h k expected new =>
    keyed t h k fun t => let (r, t) := t.compareAndSwap h k expected new; (.swap r, t)
  | .lock h k newValue =>
    keyed t h k fun t => let (r, t) := lockCommand t h k newValue; (.locked r, t)
  | .lockForget h k => keyed t h k fun t => let (r, t) := t.lockForget h k; (.forgotten r, t)
  | .retain h below =>
    if h < t.registered then
      match t.index.firstLocked with
      | some p => (.fault (.waits p), t)
      | none =>
        let (n, t') := t.retain h fun _ v => decide (v < below)
        (.count n, t')
    else (.fault (.unknownHandle h), t)
  | .process add sorted =>
    match t.index.firstLocked with
    | some p => (.fault (.waits p), t)
    | none =>
      let t' := match add with
        | some a => t.mapValues (· + a)
        | none => t
      (.entries (if sorted then t'.sortedListing else t'.listing), t')
  | .check => (checkReply t, t)
  | .info => (.info (info t), t)
  | .shardCapacity s =>
    match t.shardCapacity s with
    | some q => (.count q, t)
    | none => (.fault (.panic (.shardOutOfRange t.config.shards s)), t)
  | .shardIndex h => if h < t.registered then (.count h, t) else (.fault (.unknownHandle h), t)
  | .describe => (.text t.describe, t)
  | .metrics => (.snapshot t.snapshot, t)
  | .resetMetrics => (.done, t.resetCounters)
  | .expose pfx => (.exposition (t.snapshot.exposition pfx), t)

/-- A step as read from a request. -/
inductive Step (κ : Type) where
  /-- A command to run. -/
  | run (c : Command κ)
  /-- A step that could not be read, and why. -/
  | unreadable (reason : String)
  /-- A step through handle `h` whose other fields could not be read: an
  unregistered handle is reported before the reason. -/
  | unreadableThrough (h : Nat) (reason : String)

/-- Runs one step as read. -/
def performStep (t : SessionTable κ) : Step κ → Reply κ × SessionTable κ
  | .run c => perform t c
  | .unreadable reason => (.fault (.input reason), t)
  | .unreadableThrough h reason =>
    if h < t.registered then (.fault (.input reason), t) else (.fault (.unknownHandle h), t)

/-- Runs the steps in order: each reply with the table's `len` after it. -/
def runSteps : SessionTable κ → List (Step κ) → List (Reply κ × Nat) × SessionTable κ
  | t, [] => ([], t)
  | t, s :: rest =>
    let (r, t') := performStep t s
    let len := t'.len
    let (rs, t'') := runSteps t' rest
    ((r, len) :: rs, t'')

/-- A worker thread: its handle, its steps, how many times it runs them, and
whether its report lists every reply. -/
structure Worker (κ : Type) where
  handle : Nat
  steps : List (Step κ)
  rounds : Nat
  report : Bool

/-- What a worker did: steps run, failures, and the replies if asked. -/
structure WorkerReport (κ : Type) where
  stepsRun : Nat
  errors : Nat
  replies : Option (List (Reply κ))

/-- Runs one step of a worker: only keyed commands may run. -/
def workerStep (t : SessionTable κ) : Step κ → Reply κ × SessionTable κ
  | .run c =>
    if c.isKeyed then perform t c
    else (.fault (.input ("unknown step op \"" ++ c.name ++ "\"")), t)
  | s => performStep t s

/-- Runs a worker's steps once. -/
def runRound (t : SessionTable κ) : List (Step κ) → List (Reply κ) × SessionTable κ
  | [] => ([], t)
  | s :: rest =>
    let (r, t') := workerStep t s
    let (rs, t'') := runRound t' rest
    (r :: rs, t'')

/-- Runs a worker's steps `rounds` times; the replies of all rounds. -/
def runRounds (t : SessionTable κ) (steps : List (Step κ)) :
    Nat → List (Reply κ) × SessionTable κ
  | 0 => ([], t)
  | n + 1 =>
    let (rs, t') := runRound t steps
    let (more, t'') := runRounds t' steps n
    (rs ++ more, t'')

/-- Runs one worker to its end. -/
def runWorker (t : SessionTable κ) (w : Worker κ) : WorkerReport κ × SessionTable κ :=
  let (rs, t') := runRounds t w.steps w.rounds
  (⟨rs.length, (rs.filter (·.isFault)).length, if w.report then some rs else none⟩, t')

/-- Runs the workers one after another. -/
def runWorkers : SessionTable κ → List (Worker κ) → List (WorkerReport κ) × SessionTable κ
  | t, [] => ([], t)
  | t, w :: rest =>
    let (r, t') := runWorker t w
    let (rs, t'') := runWorkers t' rest
    (r :: rs, t'')

/-- A worker as a request gives it: the handle it names and the rest of its
spec, or why its handle could not be read. Its steps may still be unreadable
as a whole. -/
inductive WorkerSpec (κ : Type) where
  | unnamed (reason : String)
  | named (handle : Nat) (steps : Except String (List (Step κ))) (rounds : Nat) (report : Bool)

/-- Accepts the workers of a request in order, with `seen` the handles of the
workers before them: a worker whose handle could not be read, was never
registered or is already taken, or whose steps could not be read, stops the
whole set. -/
def acceptWorkers (t : SessionTable κ) (seen : List Nat) : List (WorkerSpec κ) → Except Fault (List (Worker κ))
  | [] => .ok []
  | .unnamed reason :: _ => .error (.input reason)
  | .named h steps rounds report :: rest =>
    if t.registered ≤ h then .error (.unknownHandle h)
    else if seen.contains h then .error (.input ("handle " ++ toString h ++ " used by two threads"))
    else match steps with
      | .error reason => .error (.input reason)
      | .ok steps => (acceptWorkers t (h :: seen) rest).map (⟨h, steps, rounds, report⟩ :: ·)

end Session

/-- How a table is made: from a full geometry or through a builder; with
`checked` a refused geometry is a configuration error, otherwise a panic. -/
inductive Construction where
  | direct (checked : Bool) (c : Config)
  | builder (checked : Bool) (b : Builder)
deriving DecidableEq, Repr

/-- The machine parallelism a session assumes for the builder's default shard
count. -/
def sessionParallelism : Nat := 1

/-- Makes the table of a construction. -/
def Construction.run {κ : Type} (c : Construction) (h : Hasher) : Except Fault (SessionTable κ) :=
  let (checked, config) := match c with
    | .direct checked config => (checked, config)
    | .builder checked b => (checked, b.config sessionParallelism)
  match Table.build config h with
  | .ok t => .ok t
  | .error e => .error (if checked then .config e else .panic (.invalidConfig e))

end ShardCache
