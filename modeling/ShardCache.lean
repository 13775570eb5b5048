import ShardCache.Json.Value
import ShardCache.Decimal.Shortest
import ShardCache.Decimal.Fixed
import ShardCache.Decimal.Nearest
import ShardCache.Json.Read
import ShardCache.Text.Classes
import ShardCache.Text.Quoted
import ShardCache.Hash.Hasher
import ShardCache.Key
import ShardCache.Config
import ShardCache.Index
import ShardCache.Shard
import ShardCache.Metrics.Counters
import ShardCache.Metrics.Exposition
import ShardCache.Metrics.Cell
import ShardCache.Link
import ShardCache.Table.Basic
import ShardCache.Table.Reclaim
import ShardCache.Table.Access
import ShardCache.Table.Scan
import ShardCache.Table.Check
import ShardCache.Session.Command
import ShardCache.Session.Run
import ShardCache.Session.Answer
import ShardCache.Session.Request
import ShardCache.Demo
import ShardCache.Model
import ShardCache.Table.Abstract
import ShardCache.Proofs.Ring
import ShardCache.Proofs.Layout
import ShardCache.Proofs.Calls
import ShardCache.Proofs.Pool
import ShardCache.Proofs.Links
import ShardCache.Proofs.Invariant
import ShardCache.Proofs.Steps
import ShardCache.Proofs.Fresh
import ShardCache.Proofs.Reachable
import ShardCache.Proofs.Canonical
import ShardCache.Proofs.Capacity
import ShardCache.Proofs.Abstract
import ShardCache.Proofs.Refinement
import ShardCache.Concurrent.Relink
import ShardCache.Concurrent.BucketLocks
import ShardCache.Proofs.RelinkLists
import ShardCache.Concurrent.RelinkHolds
import ShardCache.Proofs.RelinkShows
import ShardCache.Proofs.RelinkInvariant
import ShardCache.Proofs.RelinkAccess
import ShardCache.Proofs.RelinkProtocol
import ShardCache.Proofs.Checker
import ShardCache.Proofs.LockRuns
import ShardCache.Proofs.Forgotten
import ShardCache.Proofs.Accounting
import ShardCache.Proofs.RelinkAlone
import ShardCache.Proofs.Sequential
import ShardCache.Proofs.Geometry
