import AsyncGrpc.Model.Server

/-! # The threads of `Server`, and `Server::Shutdown`

On top of the running server: one thread for every completion queue (`RunCompletionQueue`), one for
every event queue (`RunEventQueue`), the thread that calls `Shutdown`, and the threads on which
`Writer`s are called. A call of `Next`, of `PopWithTimeout` and a test of `shutting_down_` is one
step each; the event that `PopWithTimeout` returns is handled in the same step. `PopWithTimeout` may
time out whenever its queue is empty. `Next` returns false when its completion queue was shut down
and gRPC has nothing more to deliver to it.

gRPC matches the calls of clients with the `Rpc`s that listen, until `server_->Shutdown()` begins. That
call, which has no deadline, cancels nothing: it returns when no call is under way. `NEW_CONNECTION` has
`ok` exactly if the `Rpc` was given a call, and `DONE` does not come while the call is under way. -/

namespace AsyncGrpc.Model.Threads

open AsyncGrpc.Lib.Runs AsyncGrpc.Model.Types AsyncGrpc.Model.Rpc AsyncGrpc.Model.Service
open AsyncGrpc.Model.Server

variable {μ : Type}

/-! ### Event queues -/

/-- `current_event_queue_id_` after the given number of calls. -/
def currentEventQueueId (numEventThreads : ℕ) : ℕ → ℕ
  | 0 => 0
  | calls + 1 => (currentEventQueueId numEventThreads calls + 1) % numEventThreads

/-- `Server::SelectNextEventQueueRoundRobin`, the queue that it selects after the given number of
calls. -/
def selectNextEventQueueRoundRobin (numEventThreads calls : ℕ) : ℕ :=
  currentEventQueueId numEventThreads (calls + 1)

/-- `Server::Options` and the registered services, as far as the threads depend on them. Without
event threads no event queue can be selected. -/
structure Options where
  services : List (List RpcHandlerInfo)
  numGrpcThreads : ℕ
  numEventThreads : ℕ
  numEventThreads_pos : 0 < numEventThreads

/-- What the server is started with. -/
def Options.config (o : Options) : Config where
  services := o.services
  completionQueues := o.numGrpcThreads
  eventQueueSelector := selectNextEventQueueRoundRobin o.numEventThreads

/-- One service with one method, one completion queue and one event queue. -/
def Options.single (rpcType : RpcType) : Options :=
  ⟨[[⟨⟨"Handler"⟩, rpcType, "/proto.Service/Method"⟩]], 1, 1, Nat.one_pos⟩

/-! ### Threads -/

/-- Where a thread stands in `Server::RunCompletionQueue`: before `Next`, or with a tag that it has
taken and not pushed. -/
inductive RunCompletionQueue (μ : Type)
  | next
  | push (r : ℕ) (t : Tag) (ok : Bool) (m : μ)
  | exited

/-- Where a thread stands in `Server::RunEventQueue`: before the test of the first loop, in its body,
in the second loop, or at the end. -/
inductive RunEventQueue
  | test
  | pop
  | drain
  | exited
  deriving DecidableEq, Repr

/-- Where `Server::Shutdown` stands. -/
inductive Shutdown
  | notCalled
  | stopServing (service : ℕ)
  | shutdownServer
  | shutdownCompletionQueue (i : ℕ)
  | joinCompletionQueue (i : ℕ)
  | joinEventQueue (q : ℕ)
  | returned
  deriving DecidableEq, Repr

/-- What gRPC has for an `Rpc`: no call yet, a call that is under way, or none any more. -/
inductive CallState
  | awaited
  | underway
  | over
  deriving DecidableEq, Repr

/-- The server with its threads. -/
structure ThreadState (μ : Type) where
  state : State μ
  calls : ℕ → CallState
  shuttingDown : Bool
  shutdown : Shutdown
  completionQueueShutdown : ℕ → Bool
  completionQueueThreads : ℕ → RunCompletionQueue μ
  eventQueueThreads : ℕ → RunEventQueue

/-- The steps of the threads, and what gRPC does: a client's call is given to an `Rpc`, and it comes to
its end. -/
inductive ThreadAction (μ : Type)
  | callBegins (r : ℕ)
  | callEnds (r : ℕ)
  | shutdown
  | next (i r : ℕ) (t : Tag) (ok : Bool) (m : μ)
  | push (i : ℕ)
  | nextFails (i : ℕ)
  | test (q : ℕ)
  | pop (q : ℕ) (script : Script μ)
  | timeout (q : ℕ)
  | lockWriter (r : ℕ) (w : WriterMethod μ)
  | stepWriter (r i : ℕ)

/-- The services and the event queues change. -/
def ThreadState.setState (st : State μ) (s : ThreadState μ) : ThreadState μ := { s with state := st }

/-- A step of the server, made by one of the threads. -/
def ThreadState.serve (o : Options) (s : ThreadState μ) (a : Action μ) :
    Option (Except Fatal (ThreadState μ)) :=
  (step o.config s.state a).map fun r => (fun st => s.setState st) <$> r

/-- The thread of the completion queue `i` moves on. -/
def ThreadState.setCompletionQueueThread (i : ℕ) (pc : RunCompletionQueue μ) (s : ThreadState μ) :
    ThreadState μ :=
  { s with completionQueueThreads := Function.update s.completionQueueThreads i pc }

/-- The thread of the event queue `q` moves on. -/
def ThreadState.setEventQueueThread (q : ℕ) (pc : RunEventQueue) (s : ThreadState μ) :
    ThreadState μ :=
  { s with eventQueueThreads := Function.update s.eventQueueThreads q pc }

/-- gRPC has another state for the call of the `Rpc` number `r`. -/
def ThreadState.setCall (r : ℕ) (call : CallState) (s : ThreadState μ) : ThreadState μ :=
  { s with calls := Function.update s.calls r call }

/-- `server_->Shutdown()` has begun. -/
def serverShutdown : Shutdown → Bool
  | .notCalled | .stopServing _ => false
  | _ => true

/-- No call is under way. -/
def ThreadState.noCallUnderway (s : ThreadState μ) : Bool :=
  (List.range s.state.cells.length).all fun r => s.calls r ≠ .underway

/-- gRPC may complete an operation under the tag `t` with `ok`, as far as the call is concerned. -/
def completes (call : CallState) (t : Tag) (ok : Bool) : Bool :=
  match t with
  | .newConnection => ok == decide (call ≠ .awaited)
  | .done => call ≠ .underway
  | _ => true

/-- The call after a completion: a listener that fails gets no call. -/
def afterCompletion (call : CallState) (t : Tag) (ok : Bool) : CallState :=
  if t = .newConnection ∧ ok = false then .over else call

/-- gRPC has nothing to deliver to the completion queue `i`. -/
def drained (i : ℕ) (s : State μ) : Bool :=
  s.cells.all fun c => c.rpc.serverCompletionQueue ≠ i ||
    [Tag.newConnection, .read, .write, .finish, .done].all fun t => !deliverable t c

/-- The next step of `Server::Shutdown`. At `shutdownServer` it is in `server_->Shutdown()`. -/
def ThreadState.stepShutdown (o : Options) (s : ThreadState μ) :
    Option (Except Fatal (ThreadState μ)) :=
  match s.shutdown with
  | .notCalled => some (.ok { s with shuttingDown := true, shutdown := .stopServing 0 })
  | .stopServing service =>
    if service < o.services.length then
      { s with shutdown := .stopServing (service + 1) }.serve o (.stopServing service)
    else some (.ok { s with shutdown := .shutdownServer })
  | .shutdownServer =>
    if s.noCallUnderway then some (.ok { s with shutdown := .shutdownCompletionQueue 0 }) else none
  | .shutdownCompletionQueue i =>
    if i < o.numGrpcThreads then
      some (.ok { s with
        completionQueueShutdown := Function.update s.completionQueueShutdown i true
        shutdown := .joinCompletionQueue i })
    else some (.ok { s with shutdown := .joinEventQueue 0 })
  | .joinCompletionQueue i =>
    match s.completionQueueThreads i with
    | .exited => some (.ok { s with shutdown := .shutdownCompletionQueue (i + 1) })
    | _ => none
  | .joinEventQueue q =>
    if q < o.numEventThreads then
      if s.eventQueueThreads q = .exited then
        some (.ok { s with shutdown := .joinEventQueue (q + 1) })
      else none
    else some (.ok { s with shutdown := .returned })
  | .returned => none

/-- The step function of the threads. -/
def stepThreads (o : Options) (s : ThreadState μ) :
    ThreadAction μ → Option (Except Fatal (ThreadState μ))
  | .callBegins r =>
    match s.state.cells[r]? with
    | some c =>
      if serverShutdown s.shutdown = false ∧ s.calls r = .awaited ∧ deliverable .newConnection c = true then
        some (.ok (s.setCall r .underway))
      else none
    | none => none
  | .callEnds r => if s.calls r = .underway then some (.ok (s.setCall r .over)) else none
  | .shutdown => s.stepShutdown o
  | .next i r t ok m =>
    match s.completionQueueThreads i, s.state.cells[r]? with
    | .next, some c =>
      if c.rpc.serverCompletionQueue = i ∧ deliverable t c = true ∧ completes (s.calls r) t ok = true then
        some (.ok ((s.setCompletionQueueThread i (.push r t ok m)).setCall r
          (afterCompletion (s.calls r) t ok)))
      else none
    | _, _ => none
  | .push i =>
    match s.completionQueueThreads i with
    | .push r t ok m => (s.setCompletionQueueThread i .next).serve o (.deliver r t ok m)
    | _ => none
  | .nextFails i =>
    match s.completionQueueThreads i with
    | .next =>
      if s.completionQueueShutdown i && drained i s.state then
        some (.ok (s.setCompletionQueueThread i .exited))
      else none
    | _ => none
  | .test q =>
    match s.eventQueueThreads q with
    | .test =>
      some (.ok (s.setEventQueueThread q (if s.shuttingDown then .drain else .pop)))
    | _ => none
  | .pop q script =>
    match s.eventQueueThreads q with
    | .pop => (s.setEventQueueThread q .test).serve o (.handle q script)
    | .drain => (s.setEventQueueThread q .drain).serve o (.handle q script)
    | _ => none
  | .timeout q =>
    if s.state.eventQueues q = [] then
      match s.eventQueueThreads q with
      | .pop => some (.ok (s.setEventQueueThread q .test))
      | .drain => some (.ok (s.setEventQueueThread q .exited))
      | _ => none
    else none
  | .lockWriter r w => s.serve o (.lockWriter r w)
  | .stepWriter r i => s.serve o (.stepWriter r i)

/-- The server as `Server::Start` leaves it; a thread that there is not counts as exited. -/
def threads (μ : Type) (o : Options) : Machine (ThreadState μ) (ThreadAction μ) Fatal where
  init :=
    { state := (server μ o.config).init
      calls := fun _ => .awaited
      shuttingDown := false
      shutdown := .notCalled
      completionQueueShutdown := fun _ => false
      completionQueueThreads := fun i => if i < o.numGrpcThreads then .next else .exited
      eventQueueThreads := fun q => if q < o.numEventThreads then .test else .exited }
  step := stepThreads o

end AsyncGrpc.Model.Threads
