import ShardCache.Metrics.Counters
/-!
# The Prometheus text format

`Snapshot.exposition pfx` writes a snapshot in the Prometheus text
exposition format: fifteen counters, then four gauges, each as a type line
`# TYPE name kind` followed by the sample line `name value`. A name is the
metric's suffix after `pfx_`, or the bare suffix when the prefix is empty.
Counter names end in `_total`. The values are the snapshot's fields as they
are: nothing is derived here.
-/
namespace ShardCache

/-- The kind of a metric in the exposition. -/
inductive MetricKind where
  | counter
  | gauge
deriving DecidableEq, Repr

/-- The word for a metric kind on its type line. -/
def MetricKind.word : MetricKind → String
  | .counter => "counter"
  | .gauge => "gauge"

/-- The full name of a metric.
mirrors src/src/metrics/exporter.rs:36-42 -/
def metricName (pfx suffix : String) : String :=
  if pfx.isEmpty then suffix else pfx ++ "_" ++ suffix

/-- The metrics of a snapshot in exposition order: kind, suffix and value.
mirrors src/src/metrics/exporter.rs:46-80 -/
def Snapshot.metrics (s : Snapshot) : List (MetricKind × String × Nat) :=
  [ (.counter, "get_calls_total", s.getCalls),
    (.counter, "get_hits_total", s.getHits),
    (.counter, "get_misses_total", s.getMisses),
    (.counter, "insert_calls_total", s.insertCalls),
    (.counter, "insert_new_total", s.insertNew),
    (.counter, "insert_updates_total", s.insertUpdates),
    (.counter, "insert_rejected_total", s.insertRejected),
    (.counter, "set_calls_total", s.setCalls),
    (.counter, "set_hits_total", s.setHits),
    (.counter, "remove_calls_total", s.removeCalls),
    (.counter, "remove_hits_total", s.removeHits),
    (.counter, "promotions_total", s.promotions),
    (.counter, "promotions_skipped_total", s.promotionsSkipped),
    (.counter, "evicted_entries_total", s.evictedEntries),
    (.counter, "foreign_reclaims_total", s.foreignReclaims),
    (.gauge, "cache_len", s.len),
    (.gauge, "capacity", s.capacity),
    (.gauge, "hash_buckets", s.buckets),
    (.gauge, "registered_threads", s.registered) ]

/-- The type line and the sample line of one metric.
mirrors src/src/metrics/exporter.rs:31-34 -/
def exposeMetric (pfx : String) (m : MetricKind × String × Nat) : String :=
  let name := metricName pfx m.2.1
  "# TYPE " ++ name ++ " " ++ m.1.word ++ "\n" ++ name ++ " " ++ toString m.2.2 ++ "\n"

/-- The whole exposition of a snapshot under a prefix.
mirrors src/src/metrics/exporter.rs:46-80 and src/src/metrics/exporter.rs:87-91 -/
def Snapshot.exposition (s : Snapshot) (pfx : String) : String :=
  String.join (s.metrics.map (exposeMetric pfx))

end ShardCache
