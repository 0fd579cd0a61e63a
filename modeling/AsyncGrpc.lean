import AsyncGrpc.Lib.Runs
import AsyncGrpc.Lib.Histories
import AsyncGrpc.Lib.Monitors
import AsyncGrpc.Lib.Termination
import AsyncGrpc.Lib.Links
import AsyncGrpc.Lib.Linearizability
import AsyncGrpc.Lib.Progress
import AsyncGrpc.Lib.Maps
import AsyncGrpc.Model.Types
import AsyncGrpc.Model.Rpc
import AsyncGrpc.Model.Service
import AsyncGrpc.Model.Server
import AsyncGrpc.Model.Threads
import AsyncGrpc.Model.AsyncClient
import AsyncGrpc.Model.CompletionQueuePool
import AsyncGrpc.Model.ClientSide
import AsyncGrpc.Model.Retry
import AsyncGrpc.Model.BlockingClient
import AsyncGrpc.Model.BlockingQueue
import AsyncGrpc.Model.RoundRobin
import AsyncGrpc.Model.Builder
import AsyncGrpc.Single.Machine
import AsyncGrpc.Single.EventThread
import AsyncGrpc.Server.EventThreads
import AsyncGrpc.Single.Moves
import AsyncGrpc.Single.Project
import AsyncGrpc.Single.Interleaving
import AsyncGrpc.Single.Lifecycle
import AsyncGrpc.Single.Failures
import AsyncGrpc.Single.Workload
import AsyncGrpc.Single.Spans
import AsyncGrpc.Single.Ledger
import AsyncGrpc.Single.Tasks
import AsyncGrpc.Single.Threads
import AsyncGrpc.Single.Buffers
import AsyncGrpc.Single.Order
import AsyncGrpc.Single.Removal
import AsyncGrpc.Single.Calls
import AsyncGrpc.Service.Lifetime
import AsyncGrpc.Service.Tags
import AsyncGrpc.Service.Sending
import AsyncGrpc.Service.Writers
import AsyncGrpc.Service.Uses
import AsyncGrpc.Service.Wakeups
import AsyncGrpc.Service.Refinement
import AsyncGrpc.Service.Preemption
import AsyncGrpc.Service.Callbacks
import AsyncGrpc.Service.PreemptedCallbacks
import AsyncGrpc.Service.Aborts
import AsyncGrpc.Server.Threads
import AsyncGrpc.Server.RoundRobin
import AsyncGrpc.Server.Shutdown
import AsyncGrpc.Service.Listeners
import AsyncGrpc.Server.Queues
import AsyncGrpc.Server.Termination
import AsyncGrpc.Server.BlockingQueue
import AsyncGrpc.Server.AtomicQueue
import AsyncGrpc.Server.MethodNames
import AsyncGrpc.Server.Registration
import AsyncGrpc.Client.Streaming
import AsyncGrpc.Client.Pool
import AsyncGrpc.Client.Steps
import AsyncGrpc.Client.Clients
import AsyncGrpc.Client.Deadlock
import AsyncGrpc.Client.PoolCalls
import AsyncGrpc.Client.Queues
import AsyncGrpc.Client.Tokens
import AsyncGrpc.Client.ClosedQueues
import AsyncGrpc.Client.PoolShutdown
import AsyncGrpc.Client.StrandedCalls
import AsyncGrpc.Client.PoolTermination
import AsyncGrpc.Client.Retries
import AsyncGrpc.Client.RetryOutcomes
import AsyncGrpc.Client.UnaryWrites
import AsyncGrpc.Client.Sessions
import AsyncGrpc.EndToEnd.Wire
import AsyncGrpc.EndToEnd.Calls
