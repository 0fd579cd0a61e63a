import AsyncGrpc.Model.AsyncClient
import AsyncGrpc.Model.CompletionQueuePool

/-! # The client side: clients, the pool of completion queues and its threads

All of `AsyncClient` and `CompletionQueuePool` running together. Threads of the user start and shut
down the pool, construct clients and call `WriteAsync`; the thread of each completion queue is in
`RunCompletionQueue` and makes the callbacks, in which clients are constructed and written to as well.

`CompletionQueuePool::Shutdown` is not one step here: it takes `mutex_`, and for each queue it shuts
the queue down and then joins its thread, which meanwhile takes the events that are left. `Initialize`
remains one step, enabled when `mutex_` is free.

gRPC allows no operation on a queue after its `Shutdown` and asserts that there is none, and the
`completion_queue_` of a client dangles once the pool has destroyed its queues. So an operation that is
started on such a queue ends the process. -/

namespace AsyncGrpc.Model.ClientSide

open AsyncGrpc.Lib.Runs AsyncGrpc.Model.Types AsyncGrpc.Model.AsyncClient
open AsyncGrpc.Model.CompletionQueuePool

variable {ρ : Type}

/-- What ends the process: a failure of the pool or of a client, or an operation that is started on a
queue that was shut down or destroyed. -/
inductive SideFatal
  | pool (f : PoolFatal)
  | client (f : ClientFatal)
  | queueShutDown
  | queueGone
  deriving DecidableEq, Repr

/-! ### Clients -/

/-- The specialisations of `AsyncClient`. -/
inductive ClientType
  | normalRpc
  | serverStreaming
  deriving DecidableEq, Repr

/-- An `AsyncClient` with the address of its `completion_queue_`. -/
structure AsyncClient (ρ : Type) where
  type : ClientType
  completionQueue : ℕ
  client : Client ρ

/-- `WriteAsync`. -/
def AsyncClient.writeAsync (c : AsyncClient ρ) : AsyncClient ρ :=
  match c.type with
  | .normalRpc => { c with client := Unary.writeAsync c.client }
  | .serverStreaming => { c with client := Streaming.writeAsync c.client }

/-- A step of the thread of the completion queue in the client. -/
def AsyncClient.proceed (a : ClientAction ρ) (c : AsyncClient ρ) :
    Option (Except ClientFatal (AsyncClient ρ)) :=
  let handled := match c.type with
    | .normalRpc => step Unary.store Unary.handleEvent Unary.afterCallback c.client a
    | .serverStreaming =>
      step Streaming.store Streaming.handleEvent Streaming.afterCallback c.client a
  handled.map fun r => (fun client => { c with client := client }) <$> r

/-- How many operations of a client gRPC holds. -/
def outstanding (d : Client ρ) : ℕ := d.ops .write + d.ops .read + d.ops .finish

/-- A step of the thread of the queue starts an operation: after it gRPC holds more than were left when
the tag had come out of the queue. -/
def startsOperation (a : ClientAction ρ) (d d' : Client ρ) : Bool :=
  match a with
  | .complete .. => outstanding d < outstanding d' + 1
  | .callbackReturns => outstanding d < outstanding d'

/-- Where the constructor of a client stands in `GetCompletionQueue`: before `Initialize` has
`mutex_`, before `size()`, or before `at(qid)`. -/
inductive GetCall
  | enter
  | getSize
  | getAt (qid : ℕ)
  deriving DecidableEq, Repr

/-- A client that is being constructed. -/
structure Construction where
  type : ClientType
  callback : Bool
  call : GetCall
  deriving DecidableEq, Repr

/-! ### Threads -/

/-- Where the thread of a completion queue stands: in `Next`, in the callback of the client `j` (and
there perhaps in the constructor of another), or at the end of `RunCompletionQueue`. -/
inductive PoolThread
  | next
  | callback (j : ℕ) (constructs : Option Construction)
  | exited
  deriving DecidableEq, Repr

/-- Where the thread of its queue is with the client `j`: back in `Next`, or in the callback. -/
def AsyncClient.thread (j : ℕ) (c : AsyncClient ρ) : PoolThread :=
  match c.client.position with
  | .idle => .next
  | .inCallback _ => .callback j none

/-- Where a thread of the user stands: outside, in the constructor of a client, before the assignment
in `SetNumberCompletionQueues`, or in `Shutdown` before `Shutdown` or `join` of the queue `k`. -/
inductive UserThread
  | idle
  | constructs (c : Construction)
  | setNumber (number : ℕ)
  | shutdown (k : ℕ)
  | join (k : ℕ)
  deriving DecidableEq, Repr

/-- The state of the client side; `mutex` is the thread that has `mutex_` in `Shutdown`. -/
structure State (ρ : Type) where
  pool : Pool PoolThread
  mutex : Option ℕ
  users : ℕ → UserThread
  clients : List (AsyncClient ρ)

/-- The steps: those of the thread `i` of the user, and those of the thread of the queue `k`. -/
inductive Action (ρ : Type)
  | start (i : ℕ)
  | callConstructor (i : ℕ) (type : ClientType) (callback : Bool)
  | construct (i rand : ℕ)
  | writeAsync (i j : ℕ)
  | checkSetNumber (i number : ℕ)
  | setNumber (i : ℕ)
  | lockShutdown (i : ℕ)
  | shutdown (i : ℕ)
  | join (i : ℕ)
  | next (k j : ℕ) (event : ClientEvent) (ok : Bool) (response : ρ) (status : Status)
  | nextFails (k : ℕ)
  | callbackConstructor (k : ℕ) (type : ClientType) (callback : Bool)
  | callbackConstruct (k rand : ℕ)
  | callbackWriteAsync (k j : ℕ)
  | callbackReturns (k : ℕ)

/-- The thread `i` of the user moves on. -/
def State.setUser (i : ℕ) (u : UserThread) (s : State ρ) : State ρ :=
  { s with users := Function.update s.users i u }

/-- The thread of the queue `k` moves on. -/
def State.setThread (k : ℕ) (t : PoolThread) (s : State ρ) : State ρ :=
  { s with pool := { s.pool with
      completionQueues := s.pool.completionQueues.modify k fun q => { q with thread := some t } } }

/-- Where the thread of the queue `k` stands. -/
def State.threadAt (k : ℕ) (s : State ρ) : Option PoolThread :=
  s.pool.completionQueues[k]?.bind (·.thread)

/-! ### Functions of the threads -/

/-- gRPC takes an operation for the queue with this address. -/
def State.beginOperation (address : ℕ) (s : State ρ) : Except SideFatal Unit :=
  match s.pool.completionQueues.find? (·.address = address) with
  | some q => if q.shutDown then .error .queueShutDown else .ok ()
  | none => .error .queueGone

/-- `WriteAsync` of the client `j`. -/
def State.writeAsync (j : ℕ) (s : State ρ) : Option (Except SideFatal (State ρ)) :=
  s.clients[j]?.map fun c =>
    (fun _ => { s with clients := s.clients.modify j AsyncClient.writeAsync }) <$>
      s.beginOperation c.completionQueue

/-- `Initialize`, which waits for `mutex_`; the threads of new queues begin with `Next`. -/
def State.initializeQueues (s : State ρ) : Option (Except SideFatal (State ρ)) :=
  if s.mutex = none then
    some ((fun p => { s with pool := p }) <$> (s.pool.initializeQueues .next).mapError .pool)
  else none

/-- The next step of a constructor: with the state it gives where the constructor stands then, or
`none` when it has returned. -/
def State.construct [Inhabited ρ] (rand : ℕ) (c : Construction) (s : State ρ) :
    Option (Except SideFatal (State ρ × Option Construction)) :=
  match c.call with
  | .enter => s.initializeQueues.map fun r => (·, some { c with call := .getSize }) <$> r
  | .getSize =>
    some ((fun qid => (s, some { c with call := .getAt qid })) <$>
      (s.pool.selectQueue rand).mapError .pool)
  | .getAt qid =>
    some ((fun q => ({ s with clients := s.clients ++ [⟨c.type, q, .construct c.callback⟩] }, none)) <$>
      (s.pool.queueAt qid).mapError .pool)

/-- No operation on the queue with this address is left, so that `Next` fails once it is shut down. -/
def State.drained (address : ℕ) (s : State ρ) : Bool :=
  s.clients.all fun c => c.completionQueue ≠ address ||
    [ClientEvent.finish, .read, .write].all fun event => c.client.ops event = 0

/-- `HandleEvent` of the client `j` on the thread of the queue `k` goes on with `a`: up to the
callback, or behind it to `Next`. `Read` and `Finish` are operations on the client's queue. -/
def State.handleEvent (k j : ℕ) (a : ClientAction ρ) (c : AsyncClient ρ) (s : State ρ) :
    Option (Except SideFatal (State ρ)) :=
  (c.proceed a).map fun r => r.mapError .client >>= fun c' =>
    (fun _ => { s with clients := s.clients.set j c' }.setThread k (c'.thread j)) <$>
      if startsOperation a c.client c'.client then s.beginOperation c.completionQueue else .ok ()

/-- One step of `Shutdown` of the pool, which has come to the queue `k`: it shuts the queue down, or
clears the pool and releases `mutex_` when there is none. -/
def State.shutdown (i k : ℕ) (s : State ρ) : Except SideFatal (State ρ) :=
  match s.pool.completionQueues[k]? with
  | some q =>
    (fun q' => { s with pool := { s.pool with
      completionQueues := s.pool.completionQueues.set k q' } }.setUser i (.join k)) <$>
      q.shutdown.mapError .pool
  | none => .ok ({ s with pool := s.pool.clear, mutex := none }.setUser i .idle)

/-! ### The machine -/

/-- The step function of the client side. -/
def stepSide [Inhabited ρ] (s : State ρ) : Action ρ → Option (Except SideFatal (State ρ))
  | .start i => if s.users i = .idle then s.initializeQueues else none
  | .callConstructor i type callback =>
    if s.users i = .idle then some (.ok (s.setUser i (.constructs ⟨type, callback, .enter⟩)))
    else none
  | .construct i rand =>
    match s.users i with
    | .constructs c => (s.construct rand c).map fun r =>
        (fun p => p.1.setUser i (p.2.elim .idle .constructs)) <$> r
    | _ => none
  | .writeAsync i j => if s.users i = .idle then s.writeAsync j else none
  | .checkSetNumber i number =>
    if s.users i = .idle then
      some ((fun _ => s.setUser i (.setNumber number)) <$>
        (s.pool.checkSetNumber number).mapError .pool)
    else none
  | .setNumber i =>
    match s.users i with
    | .setNumber number =>
      some (.ok ({ s with pool := s.pool.setNumber number }.setUser i .idle))
    | _ => none
  | .lockShutdown i =>
    if s.users i = .idle ∧ s.mutex = none then
      some (.ok ({ s with mutex := some i }.setUser i (.shutdown 0)))
    else none
  | .shutdown i =>
    match s.users i with
    | .shutdown k => some (s.shutdown i k)
    | _ => none
  | .join i =>
    match s.users i with
    | .join k =>
      if s.threadAt k = some .exited then some (.ok (s.setUser i (.shutdown (k + 1)))) else none
    | _ => none
  | .next k j event ok response status =>
    match s.pool.completionQueues[k]?, s.clients[j]? with
    | some q, some c =>
      if q.thread = some .next ∧ c.completionQueue = q.address then
        s.handleEvent k j (.complete event ok response status) c
      else none
    | _, _ => none
  | .nextFails k =>
    match s.pool.completionQueues[k]? with
    | some q =>
      if q.thread = some .next ∧ q.shutDown = true ∧ s.drained q.address = true then
        some (.ok (s.setThread k .exited))
      else none
    | none => none
  | .callbackConstructor k type callback =>
    match s.threadAt k with
    | some (.callback j none) =>
      some (.ok (s.setThread k (.callback j (some ⟨type, callback, .enter⟩))))
    | _ => none
  | .callbackConstruct k rand =>
    match s.threadAt k with
    | some (.callback j (some c)) => (s.construct rand c).map fun r =>
        (fun p => p.1.setThread k (.callback j p.2)) <$> r
    | _ => none
  | .callbackWriteAsync k j' =>
    match s.threadAt k with
    | some (.callback _ none) => s.writeAsync j'
    | _ => none
  | .callbackReturns k =>
    match s.threadAt k with
    | some (.callback j none) =>
      match s.clients[j]? with
      | some c => s.handleEvent k j .callbackReturns c
      | none => none
    | _ => none

/-- The client side, before anything was called. -/
def clientSide (ρ : Type) [Inhabited ρ] : Machine (State ρ) (Action ρ) SideFatal where
  init := ⟨.construct, none, fun _ => .idle, []⟩
  step := stepSide

end AsyncGrpc.Model.ClientSide
