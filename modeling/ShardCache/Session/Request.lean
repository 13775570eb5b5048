import ShardCache.Session.Answer
import ShardCache.Metrics.Cell
import ShardCache.Link
import ShardCache.Demo
/-!
# Requests

A request is one line of work and its answer is one JSON document:

* `TableRequest`: build a table, run the session's steps, then optionally
  run workers and the steps after them. The answer holds the table's size
  and geometry right after it was built, one answer per step, and the
  workers' reports. A table that cannot be built answers only the fault, and
  so do unreadable steps, and a set of workers that cannot start.
* a snapshot written in the Prometheus text format with its hit ratio;
* a link pair, with its description and its predicates;
* a sequence of operations on a counter cell;
* one of the example programs, by name.
-/
namespace ShardCache

open Json (Value)

/-- The steps after the workers, unless they could not be read: answered one
by one, or run quietly and summarised by a final check. -/
structure Epilogue (κ : Type) where
  steps : Except String (List (Session.Step κ))
  quiet : Bool

/-- A table, the steps of its session, and optionally workers. Parts that
could not be read keep the reason, which is the answer if the request gets
that far: the steps once the table is built, the workers and the steps after
them once the session's steps have run. -/
structure TableRequest (κ : Type) where
  construction : Construction
  hasher : Hasher
  steps : Except String (List (Session.Step κ))
  workers : Option (Except String (List (Session.WorkerSpec κ)) × Epilogue κ)

namespace TableRequest

variable {κ : Type} [DecidableEq κ] [CacheKey κ]

/-- The answer of the steps after the workers. -/
def epilogueJson (t : SessionTable κ) (steps : List (Session.Step κ)) (quiet : Bool) : Value :=
  let (replies, t') := Session.runSteps t steps
  if quiet then
    let check := match t'.check with
      | .ok () => Value.str "ok"
      | .error err => (Fault.invariant err).toJson
    .obj [("check", check), ("len", .nat t'.len)]
  else .arr (replies.map fun (r, len) => r.withLen len)

/-- The answer to a table request. -/
def answer (r : TableRequest κ) : Value :=
  match (r.construction.run r.hasher : Except Fault (SessionTable κ)) with
  | .error f => f.toJson
  | .ok t₀ =>
    match r.steps with
    | .error reason => (Fault.input reason).toJson
    | .ok steps =>
      let table := ("table", Value.obj (Session.info t₀).fields)
      let (replies, t₁) := Session.runSteps t₀ steps
      let steps := ("steps", Value.arr (replies.map fun (r, len) => r.withLen len))
      match r.workers with
      | none => .obj [table, steps]
      | some (.error reason, _) => (Fault.input reason).toJson
      | some (.ok specs, epilogue) =>
        match Session.acceptWorkers t₁ [] specs, epilogue.steps with
        | .error f, _ => f.toJson
        | .ok _, .error reason => (Fault.input reason).toJson
        | .ok ws, .ok after =>
          let (reports, t₂) := Session.runWorkers t₁ ws
          .obj [table, steps, ("threads", .arr (reports.map (·.toJson))),
            ("after", epilogueJson t₂ after epilogue.quiet)]

end TableRequest

/-- The answer to a snapshot written under a prefix. -/
def Snapshot.answer (s : Snapshot) (pfx : String) : Value :=
  .obj [("hit_ratio", .number (Decimal.jsonText s.hitRatio)), ("text", .str (s.exposition pfx))]

/-- The answer to a link pair. -/
def Link.answer (l : Link) : Value :=
  .obj [("pred", .nat l.pred.toNat), ("succ", .nat l.succ.toNat), ("debug", .str l.describe),
    ("has_locked_side", .bool l.hasLockedSide), ("touches_end", .bool l.touchesEnd),
    ("is_detached", .bool l.isDetached)]

/-- The answer to a sequence of operations on a fresh counter cell. -/
def Cell.answer (ops : List CellOp) : Value :=
  let (results, final) := (default : Cell).run ops
  .obj [("results", .arr (results.map (Value.ofOption Value.nat))), ("final", .nat final.count)]

/-- The answer to running an example program whose tables use hasher `h`. -/
def Demo.answer (h : Hasher) (name : String) : Value :=
  match Demo.byName h name with
  | some out => .obj [("stdout", .str out), ("success", .bool true)]
  | none => (Fault.input ("unknown demo " ++ Text.quote name)).toJson

end ShardCache
