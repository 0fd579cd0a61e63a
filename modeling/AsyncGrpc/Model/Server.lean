import AsyncGrpc.Lib.Runs
import AsyncGrpc.Model.Service

/-! # The running server: services, event queues and their steps

The state holds every `Rpc` ever created (its position is its identity; addresses are not reused),
the event queues with the events of all of them, and the `shutting_down_` flag of each service. The
steps are the rounds of the completion queue threads (`deliver`), the events handled by the event
threads (`handle`, the oldest event of a queue), the calls of `Writer`s on other threads
(`lockWriter`, `stepWriter`) and `Service::StopServing`. The run starts when `Service::StartServing`
has returned for every service.

`EventQueueSelector` is a parameter: its `n`-th call selects the queue `eventQueueSelector n`. -/

namespace AsyncGrpc.Model.Server

open AsyncGrpc.Lib.Runs AsyncGrpc.Model.Types AsyncGrpc.Model.Rpc AsyncGrpc.Model.Service

variable {μ : Type}

/-- What a server is started with: for each service its methods in the order of
`rpc_handler_infos_`, the number of completion queues, and the event queue selector. -/
structure Config where
  services : List (List RpcHandlerInfo)
  completionQueues : ℕ
  eventQueueSelector : ℕ → ℕ

/-- One service with one method, one completion queue and one event queue. -/
def Config.single (rpcType : RpcType) : Config :=
  ⟨[[⟨⟨"Handler"⟩, rpcType, "/proto.Service/Method"⟩]], 1, fun _ => 0⟩

/-- The state of the server. -/
structure State (μ : Type) where
  cells : List (Cell μ)
  eventQueues : ℕ → List (ℕ × RpcEvent)
  shuttingDown : ℕ → Bool
  selections : ℕ

/-- The state before any service serves. -/
def State.empty : State μ := ⟨[], fun _ => [], fun _ => false, 0⟩

/-- The steps of the server. -/
inductive Action (μ : Type)
  | deliver (r : ℕ) (t : Tag) (ok : Bool) (m : μ)
  | handle (q : ℕ) (script : Script μ)
  | lockWriter (r : ℕ) (w : WriterMethod μ)
  | stepWriter (r i : ℕ)
  | stopServing (service : ℕ)

/-- The cell of `r` after a function ran on it, with what the function pushed in its event queue. -/
def State.store (r : ℕ) (c : Ctx μ) (s : State μ) : State μ :=
  { s with
    cells := s.cells.set r c.toCell
    eventQueues := Function.update s.eventQueues c.rpc.eventQueue
      (s.eventQueues c.rpc.eventQueue ++ c.outbox.map (r, ·)) }

/-- `event_queue_selector_()`. -/
def State.selectEventQueue (cfg : Config) (s : State μ) : ℕ × State μ :=
  (cfg.eventQueueSelector s.selections, { s with selections := s.selections + 1 })

/-- Adds the listening `Rpc`. -/
def State.addRpc (rpc : Rpc μ) (s : State μ) : Except Fatal (State μ) := do
  let c ← listen rpc
  return { s with cells := s.cells ++ [c.toCell] }

/-! ### Serving -/

/-- `grpc::internal::RpcServiceMethod`, with the null handler of an asynchronous method. -/
structure RpcServiceMethod where
  name : String
  methodType : RpcType
  deriving DecidableEq, Repr

/-- The loop of `Service::Service`: `AddMethod` appends to the methods gRPC knows of the service, and
gRPC calls a method by its position there. -/
def addMethods (infos : List RpcHandlerInfo) : List RpcServiceMethod :=
  infos.foldl (fun methods info => methods ++ [⟨info.fullyQualifiedName, info.rpcType⟩]) []

/-- The body of the loops of `Service::StartServing`. -/
def startListening (cfg : Config) (service methodIndex : ℕ) (info : RpcHandlerInfo) (s : State μ)
    (completionQueue : ℕ) : Except Fatal (State μ) :=
  let (q, s) := s.selectEventQueue cfg
  s.addRpc (newRpc methodIndex completionQueue q info service)

/-- `Service::StartServing`: over the methods, and for each over the completion queues. -/
def startServing (cfg : Config) (service : ℕ) (infos : List RpcHandlerInfo) (s : State μ) :
    Except Fatal (State μ) :=
  infos.zipIdx.foldlM (fun s p => (List.range cfg.completionQueues).foldlM
    (startListening cfg service p.2 p.1) s) s

/-- The part of `Server::Start` that makes all services serve. -/
def start (cfg : Config) : Except Fatal (State μ) :=
  cfg.services.zipIdx.foldlM (fun s p => startServing cfg p.2 p.1 s) State.empty

/-! ### Steps -/

/-- An event thread takes the event `e` of `r` from the queue `q`, of which `rest` remains, and
handles it. -/
def handleNext (cfg : Config) (q r : ℕ) (e : RpcEvent) (rest : List (ℕ × RpcEvent))
    (script : Script μ) (c : Cell μ) (s : State μ) : Except Fatal (State μ) := do
  let (c', new) ← handle (s.shuttingDown c.rpc.service) e script ⟨c, []⟩
  let s := { s with eventQueues := Function.update s.eventQueues q rest }.store r c'
  match new with
  | none => return s
  | some rpc =>
    let (q', s) := s.selectEventQueue cfg
    s.addRpc (setEventQueue q' rpc)

/-- The step function of the server. -/
def step (cfg : Config) (s : State μ) : Action μ → Option (Except Fatal (State μ))
  | .deliver r t ok m =>
    match s.cells[r]? with
    | some c =>
      if deliverable t c then
        some (.ok (s.store r ⟨deliver t ok m c, [.completion t]⟩))
      else none
    | none => none
  | .handle q script =>
    match s.eventQueues q with
    | [] => none
    | (r, e) :: rest =>
      match s.cells[r]? with
      | some c => some (handleNext cfg q r e rest script c s)
      | none => none
  | .lockWriter r w =>
    match s.cells[r]? with
    | some c => if c.writer then some (.ok (s.store r ⟨lockWriter w c, []⟩)) else none
    | none => none
  | .stepWriter r i =>
    match s.cells[r]? with
    | some c =>
      match c.calls[i]? with
      | some k => if k.holds then some ((s.store r ·) <$> stepWriter i k ⟨c, []⟩) else none
      | none => none
    | none => none
  | .stopServing service =>
    some (.ok { s with shuttingDown := Function.update s.shuttingDown service true })

/-- The server started with `cfg`. -/
def server (μ : Type) (cfg : Config) : Machine (State μ) (Action μ) Fatal where
  init := (start cfg).toOption.getD State.empty
  step := step cfg

/-- `ActiveRpcs::~ActiveRpcs` of the service does not reach `LOG(FATAL)`: `rpcs_` is empty. -/
def noRpcsInFlight (service : ℕ) (s : State μ) : Bool :=
  s.cells.all fun c => c.rpc.service ≠ service || !c.active

end AsyncGrpc.Model.Server
