import KvStore.Lib.ByteString
import KvStore.Lib.Decimal
import KvStore.Command
import KvStore.Parser
import KvStore.Grammar
import KvStore.ParserSpec
import KvStore.ParserStable
import KvStore.Lib.PriorityQueue
import KvStore.Shard
import KvStore.Store
import KvStore.Lib.ExpiringMap
import KvStore.Lib.Simulation
import KvStore.StoreSpec
import KvStore.StoreRefine
import KvStore.ExpireArith
import KvStore.BoundedQueue
import KvStore.Dispatcher
import KvStore.Lib.Transition
import KvStore.Lib.Slots
import KvStore.Connection
import KvStore.EventLoop
import KvStore.History
import KvStore.System
import KvStore.Moves
import KvStore.ConnectionMoves
import KvStore.ExactlyOnce
import KvStore.Routing
import KvStore.Framing
import KvStore.Lib.Resp2
import KvStore.ErrorReply
import KvStore.Lib.Serial
import KvStore.CommandOps
import KvStore.Pipeline
import KvStore.Shutdown
import KvStore.ConcurrentStore
import KvStore.ShardInv
import KvStore.StoreLinear
import KvStore.StoreRaces
import KvStore.Drain
import KvStore.Failures
import KvStore.Batch
import KvStore.Backpressure
import KvStore.OutputCap
import KvStore.FatalError
import KvStore.Wakeup
import KvStore.Limits
import KvStore.Reorder
import KvStore.QueueThreads
import KvStore.Sweep
import KvStore.RoundTrip
import KvStore.Replies
import KvStore.Bounds
import KvStore.Lib.Signed
import KvStore.IntegerParsing
import KvStore.InputLimits
import KvStore.Interest
import KvStore.Lib.Descent
import KvStore.Lib.Totals
import KvStore.Settle
import KvStore.Lib.Locks
import KvStore.LockProgress
import KvStore.QueueMonitor
import KvStore.QueueWakeups
import KvStore.Service
import KvStore.Lib.Backlog
import KvStore.Lib.Lifetimes
import KvStore.Options
import KvStore.Process
import KvStore.ProcessLives
import KvStore.ProcessRuns
import KvStore.Schedule
import KvStore.Client
import KvStore.Exchange
import KvStore.FileDescriptor
import KvStore.Setup
