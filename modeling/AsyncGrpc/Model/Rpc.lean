import AsyncGrpc.Model.Types

/-! # The methods of `Rpc` and `ActiveRpcs`

The functions of `rpc.cc`, as functions of the cell they run on. A method touches its own object,
the operations gRPC holds for it, its own entry in `ActiveRpcs` and the event queue it points to;
what it pushes there is collected in `outbox`. A failed `CHECK`, a `LOG(FATAL)` or a null pointer
that is dereferenced is an error. -/

namespace AsyncGrpc.Model.Rpc

open AsyncGrpc.Model.Types

variable {μ : Type}

/-! ### Construction -/

/-- `Rpc::InitializeReadersAndWriters`: the pointers that are set afterwards. -/
def initializeReadersAndWriters : RpcType → ReaderWriter → Bool
  | .bidiStreaming, .serverAsyncReaderWriter => true
  | .clientStreaming, .serverAsyncReader => true
  | .normalRpc, .serverAsyncResponseWriter => true
  | .serverStreaming, .serverAsyncWriter => true
  | _, _ => false

/-- The constructor of `Rpc`. -/
def newRpc (methodIndex serverCompletionQueue eventQueue : ℕ) (info : RpcHandlerInfo)
    (service : ℕ) : Rpc μ where
  methodIndex := methodIndex
  serverCompletionQueue := serverCompletionQueue
  eventQueue := eventQueue
  rpcHandlerInfo := info
  service := service
  events := fun _ => ⟨false, false⟩
  request := none
  response := none
  handler := false
  readersAndWriters := initializeReadersAndWriters info.rpcType
  sendQueue := []

/-- `Rpc::Clone`. -/
def clone (rpc : Rpc μ) : Rpc μ :=
  newRpc rpc.methodIndex rpc.serverCompletionQueue rpc.eventQueue rpc.rpcHandlerInfo rpc.service

/-- `Rpc::SetEventQueue`. -/
def setEventQueue (eventQueue : ℕ) (rpc : Rpc μ) : Rpc μ := { rpc with eventQueue := eventQueue }

/-- The cell of a new `Rpc`, before `ActiveRpcs::Add`. -/
def newCell (rpc : Rpc μ) : Ctx μ where
  rpc := rpc
  active := false
  ops := fun _ => 0
  accepted := none
  writer := false
  calls := []
  history := []

/-! ### Records -/

/-- Adds to the history. -/
def log (a : Act μ) (c : Ctx μ) : Ctx μ := { c with history := c.history ++ [a] }

/-- A member of the object is used. -/
def use (m : Member) (c : Ctx μ) : Ctx μ := log (.use m) c

/-- Hands an operation to gRPC. -/
def startOp (op : Op μ) (c : Ctx μ) : Ctx μ :=
  log (.start op) { c with ops := Function.update c.ops op.tag (c.ops op.tag + 1) }

/-- `*GetRpcEventState(event) = pending` for the event of the tag `t`. -/
def setPending (t : Tag) (pending : Bool) (rpc : Rpc μ) : Rpc μ :=
  { rpc with events := Function.update rpc.events t { rpc.events t with pending := pending } }

/-! ### Events and interfaces -/

/-- `Rpc::GetRpcEvent`. -/
def getRpcEvent : Event → Except Fatal Tag
  | .newConnection => .ok .newConnection
  | .read => .ok .read
  | .writeNeeded => .error .getRpcEvent
  | .write => .ok .write
  | .finish => .ok .finish
  | .done => .ok .done

/-- `Rpc::SetRpcEventState`. -/
def setRpcEventState (event : Event) (pending : Bool) (c : Ctx μ) : Except Fatal (Ctx μ) := do
  let t ← getRpcEvent event
  return { c with rpc := setPending t pending c.rpc }

/-- `Rpc::IsRpcEventPending`. -/
def isRpcEventPending (event : Event) (c : Ctx μ) : Except Fatal Bool := do
  let t ← getRpcEvent event
  return (c.rpc.events t).pending

/-- `Rpc::IsAnyEventPending`. -/
def isAnyEventPending (c : Ctx μ) : Except Fatal Bool := do
  return (← isRpcEventPending .done c) || (← isRpcEventPending .read c) ||
    (← isRpcEventPending .write c) || (← isRpcEventPending .finish c)

/-- `Rpc::streaming_interface`. -/
def streamingInterface (c : Ctx μ) : ReaderWriter :=
  match c.rpc.rpcHandlerInfo.rpcType with
  | .bidiStreaming => .serverAsyncReaderWriter
  | .clientStreaming => .serverAsyncReader
  | .normalRpc => .serverAsyncResponseWriter
  | .serverStreaming => .serverAsyncWriter

/-- `Rpc::async_reader_interface`. -/
def asyncReaderInterface (c : Ctx μ) : Except Fatal ReaderWriter :=
  match c.rpc.rpcHandlerInfo.rpcType with
  | .bidiStreaming => .ok .serverAsyncReaderWriter
  | .clientStreaming => .ok .serverAsyncReader
  | .normalRpc => .error .asyncReaderInterface
  | .serverStreaming => .error .asyncReaderInterface

/-- `Rpc::async_writer_interface`. -/
def asyncWriterInterface (c : Ctx μ) : Except Fatal ReaderWriter :=
  match c.rpc.rpcHandlerInfo.rpcType with
  | .bidiStreaming => .ok .serverAsyncReaderWriter
  | .clientStreaming => .error .asyncWriterInterface
  | .normalRpc => .error .asyncWriterInterface
  | .serverStreaming => .ok .serverAsyncWriter

/-- Starts an operation through one of the readers and writers, which must have been created. -/
def startVia (rw : ReaderWriter) (op : Op μ) (c : Ctx μ) : Except Fatal (Ctx μ) :=
  if c.rpc.readersAndWriters rw then .ok (startOp op c) else .error .nullReaderWriter

/-! ### `ActiveRpcs` -/

/-- `ActiveRpcs::Add`. -/
def add (c : Ctx μ) : Except Fatal (Ctx μ) :=
  if c.active then .error .rpcAlreadyActive else .ok { c with active := true }

/-- `ActiveRpcs::Remove`. -/
def remove (site : RemoveSite) (c : Ctx μ) : Ctx μ :=
  if c.active then log (.remove site) { c with active := false } else c

/-- `ActiveRpcs::GetWeakPtr`. -/
def getWeakPtr (c : Ctx μ) : Except Fatal Unit :=
  if c.active then .ok () else .error .getWeakPtr

/-! ### Sending -/

/-- `Rpc::EnqueueMessage`. -/
def enqueueMessage (item : SendItem μ) (call : Option ℕ) (c : Ctx μ) : Ctx μ :=
  log (.enqueue item call) { c with rpc := { c.rpc with sendQueue := c.rpc.sendQueue ++ [item] } }

/-- `event_queue_->Push` of a new `InternalRpcEvent` with `Event::WRITE_NEEDED`. -/
def pushWriteNeeded (call : Option ℕ) (c : Ctx μ) : Ctx μ :=
  log (.push call) { c with outbox := c.outbox ++ [.writeNeeded] }

/-- `Rpc::Write` and `Rpc::Finish` from the item on that they enqueue. -/
def send (item : SendItem μ) (c : Ctx μ) : Except Fatal (Ctx μ) := do
  let c := enqueueMessage item none c
  getWeakPtr c
  return pushWriteNeeded none c

/-- `Rpc::Write`. -/
def write (message : Option μ) (c : Ctx μ) : Except Fatal (Ctx μ) := send ⟨message, .OK⟩ c

/-- `Rpc::Finish`. -/
def finish (status : Status) (c : Ctx μ) : Except Fatal (Ctx μ) := send ⟨none, status⟩ c

/-- `response_ = std::move(message)`. -/
def setResponse (message : Option μ) (c : Ctx μ) : Ctx μ :=
  log (.setResponse message) { c with rpc := { c.rpc with response := message } }

/-- `SendUnaryFinish`. -/
def sendUnaryFinish (rw : ReaderWriter) (status : Status) (msg : Option μ) (c : Ctx μ) :
    Except Fatal (Ctx μ) :=
  match msg with
  | some m => startVia rw (.finish (some m) status) c
  | none => startVia rw (.finishWithError status) c

/-- `Rpc::PerformFinish`. -/
def performFinish (message : Option μ) (status : Status) (c : Ctx μ) : Except Fatal (Ctx μ) := do
  let c ← setRpcEventState .finish true c
  match c.rpc.rpcHandlerInfo.rpcType with
  | .bidiStreaming =>
    if message.isSome then throw .performFinishMessage
    startVia .serverAsyncReaderWriter (.finish none status) c
  | .clientStreaming =>
    let c := setResponse message c
    sendUnaryFinish .serverAsyncReader status c.rpc.response c
  | .normalRpc =>
    let c := setResponse message c
    sendUnaryFinish .serverAsyncResponseWriter status c.rpc.response c
  | .serverStreaming =>
    if message.isSome then throw .performFinishMessage
    startVia .serverAsyncWriter (.finish none status) c

/-- `Rpc::PerformWrite`; the status is not used. -/
def performWrite (message : Option μ) (_status : Status) (c : Ctx μ) : Except Fatal (Ctx μ) :=
  match message with
  | none => .error .performWriteNullMessage
  | some m => do
    if c.rpc.rpcHandlerInfo.rpcType = .normalRpc then throw .performWriteNormalRpc
    if c.rpc.rpcHandlerInfo.rpcType = .clientStreaming then throw .performWriteClientStreaming
    let c ← setRpcEventState .write true c
    let c := setResponse (some m) c
    let rw ← asyncWriterInterface c
    startVia rw (.write m) c

/-- `Rpc::HandleSendQueue`. -/
def handleSendQueue (c : Ctx μ) : Except Fatal (Ctx μ) := do
  match c.rpc.sendQueue with
  | [] => return c
  | item :: rest =>
    if (← isRpcEventPending .write c) || (← isRpcEventPending .finish c) then return c
    let c := { c with rpc := { c.rpc with sendQueue := rest } }
    if item.msg.isNone || c.rpc.rpcHandlerInfo.rpcType = .normalRpc ||
        c.rpc.rpcHandlerInfo.rpcType = .clientStreaming then
      performFinish item.msg item.status c
    else performWrite item.msg item.status c

/-! ### The handler -/

/-- A call of a `Writer` method made by the handler itself, on the event thread. -/
def callWriter (w : WriterMethod μ) (c : Ctx μ) : Except Fatal (Ctx μ) :=
  if c.writer && c.alive then
    match w with
    | .write m => write m c
    | .writesDone => finish .OK c
    | .finish st => do
      let c ← finish st c
      if c.rpc.handler then return c else throw .traceSpan
  else .ok c

/-- One thing a handler does in a callback. -/
def handlerCall (c : Ctx μ) : HandlerCall μ → Except Fatal (Ctx μ)
  | .send m => write m c
  | .finish st => finish st c
  | .getWriter => do
    getWeakPtr c
    return { c with writer := true }
  | .writer w => callWriter w c

/-- A callback on the handler, in which it makes the calls `calls`. -/
def callback (cb : Callback μ) (calls : List (HandlerCall μ)) (c : Ctx μ) :
    Except Fatal (Ctx μ) :=
  calls.foldlM handlerCall (log (.callback cb) c)

/-- A callback through `handler_`. -/
def callHandler (cb : Callback μ) (calls : List (HandlerCall μ)) (c : Ctx μ) :
    Except Fatal (Ctx μ) :=
  if c.rpc.handler then callback cb calls c else .error .nullHandler

/-- `Rpc::OnRequest`. -/
def onRequest (script : Script μ) (c : Ctx μ) : Except Fatal (Ctx μ) :=
  callHandler (.onRequest c.rpc.request) script.onRequest c

/-- `Rpc::OnReadsDone`. -/
def onReadsDone (script : Script μ) (c : Ctx μ) : Except Fatal (Ctx μ) :=
  callHandler .onReadsDone script.onReadsDone c

/-- `Rpc::OnFinish`. -/
def onFinish (script : Script μ) (c : Ctx μ) : Except Fatal (Ctx μ) :=
  callHandler .onFinish script.onFinish c

/-- `Rpc::RequestStreamingReadIfNeeded`. -/
def requestStreamingReadIfNeeded (script : Script μ) (c : Ctx μ) : Except Fatal (Ctx μ) := do
  match c.rpc.rpcHandlerInfo.rpcType with
  | .bidiStreaming | .clientStreaming =>
    let c ← setRpcEventState .read true c
    let rw ← asyncReaderInterface c
    startVia rw .read c
  | .normalRpc | .serverStreaming =>
    let c ← onRequest script c
    onReadsDone script c

/-- `Rpc::OnConnection`. The handler factory runs `Initialize` on the new handler before `handler_`
is assigned. -/
def onConnection (script : Script μ) (c : Ctx μ) : Except Fatal (Ctx μ) := do
  let c ←
    if c.rpc.handler then pure c
    else do
      let c ← callback .initializeHandler script.initializeHandler c
      pure { c with rpc := { c.rpc with handler := true } }
  requestStreamingReadIfNeeded script c

/-- `Rpc::RequestNextMethodInvocation`. -/
def requestNextMethodInvocation (c : Ctx μ) : Except Fatal (Ctx μ) := do
  let c ← setRpcEventState .done true c
  let c := startOp .asyncNotifyWhenDone c
  let c ← setRpcEventState .newConnection true c
  startVia (streamingInterface c) (.requestAsync c.rpc.rpcHandlerInfo.rpcType) c

end AsyncGrpc.Model.Rpc
