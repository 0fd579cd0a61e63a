import AsyncGrpc.Model.Rpc

/-! # The event handlers of `Service`, and the steps of one `Rpc`

The functions of `service.cc` and the `Handle` functions of the two kinds of events. Apart from the
listener that `HandleNewConnection` clones, they touch only the `Rpc` of the event and its entry in
`ActiveRpcs`, so they are functions of its cell.

The other steps of one `Rpc` are here as well: a completion that `RunCompletionQueue` takes from gRPC
(`deliver`), and the steps of a `Writer` call on another thread (`lockWriter`, `stepWriter`). -/

namespace AsyncGrpc.Model.Service

open AsyncGrpc.Model.Types AsyncGrpc.Model.Rpc

variable {μ : Type}

/-! ### Handlers of events -/

/-- `Service::RemoveIfNotPending`. -/
def removeIfNotPending (c : Ctx μ) : Except Fatal (Ctx μ) := do
  let c := use .isAnyEventPending c
  if ← isAnyEventPending c then return c
  return remove .removeIfNotPending c

/-- `Service::HandleNewConnection`, up to the new listener: with the cell it gives the clone that is
then added, if any. -/
def handleNewConnection (shuttingDown ok : Bool) (script : Script μ) (c : Ctx μ) :
    Except Fatal (Ctx μ × Option (Rpc μ)) := do
  if shuttingDown then return (remove .handleNewConnection c, none)
  let c := if ok then c else remove .handleNewConnection c
  let c ← if ok then onConnection script (use .onConnection c) else pure c
  let c := use .clone c
  return (c, some (clone c.rpc))

/-- `Service::HandleRead`. -/
def handleRead (ok : Bool) (script : Script μ) (c : Ctx μ) : Except Fatal (Ctx μ) := do
  if ok then
    let c ← onRequest script (use .onRequest c)
    requestStreamingReadIfNeeded script (use .requestStreamingReadIfNeeded c)
  else
    let c ← onReadsDone script (use .onReadsDone c)
    removeIfNotPending c

/-- `Service::HandleWrite`; `ok` is only logged. -/
def handleWrite (_ok : Bool) (c : Ctx μ) : Except Fatal (Ctx μ) := do
  let c ← handleSendQueue (use .handleSendQueue c)
  removeIfNotPending c

/-- `Service::HandleFinish`; `ok` is only logged. -/
def handleFinish (_ok : Bool) (script : Script μ) (c : Ctx μ) : Except Fatal (Ctx μ) := do
  let c ← onFinish script (use .onFinish c)
  removeIfNotPending c

/-- `Service::HandleDone`. -/
def handleDone (_ok : Bool) (c : Ctx μ) : Except Fatal (Ctx μ) := removeIfNotPending c

/-- `Service::HandleEvent`. -/
def handleEvent (shuttingDown : Bool) (event : Event) (ok : Bool) (script : Script μ) (c : Ctx μ) :
    Except Fatal (Ctx μ × Option (Rpc μ)) :=
  match event with
  | .newConnection => handleNewConnection shuttingDown ok script c
  | .read => (·, none) <$> handleRead ok script c
  | .writeNeeded | .write => (·, none) <$> handleWrite ok c
  | .finish => (·, none) <$> handleFinish ok script c
  | .done => (·, none) <$> handleDone ok c

/-- `CompletionQueueRpcEvent::Handle`. -/
def handleCompletion (shuttingDown : Bool) (t : Tag) (script : Script μ) (c : Ctx μ) :
    Except Fatal (Ctx μ × Option (Rpc μ)) :=
  let ok := (c.rpc.events t).ok
  let c := log (.handle t ok) { c with rpc := setPending t false c.rpc }
  handleEvent shuttingDown t.event ok script (use .service c)

/-- `InternalRpcEvent::Handle`: the event is stale when the weak pointer cannot be locked. -/
def handleInternal (shuttingDown : Bool) (script : Script μ) (c : Ctx μ) :
    Except Fatal (Ctx μ × Option (Rpc μ)) :=
  if c.alive then handleEvent shuttingDown .writeNeeded true script (use .service (log .wake c))
  else .ok (c, none)

/-- `EventBase::Handle`. -/
def handle (shuttingDown : Bool) (e : RpcEvent) (script : Script μ) (c : Ctx μ) :
    Except Fatal (Ctx μ × Option (Rpc μ)) :=
  match e with
  | .completion t => handleCompletion shuttingDown t script c
  | .writeNeeded => handleInternal shuttingDown script c

/-- `ActiveRpcs::Add` and `RequestNextMethodInvocation` on a new `Rpc`, as `StartServing` and
`HandleNewConnection` do them. -/
def listen (rpc : Rpc μ) : Except Fatal (Ctx μ) := do
  let c ← add (newCell rpc)
  requestNextMethodInvocation c

/-! ### Completions -/

/-- gRPC can deliver the tag `t`: it holds an operation under it, and `DONE` only comes after
`NEW_CONNECTION` came with `ok`. -/
def deliverable (t : Tag) (c : Cell μ) : Bool :=
  decide (0 < c.ops t) && (t ≠ .done || c.accepted == some true)

/-- gRPC has stored a message in `request_` with this completion. -/
def storesRequest (t : Tag) (ok : Bool) (rpcType : RpcType) : Bool :=
  ok && match t, rpcType with
    | .read, _ => true
    | .newConnection, .normalRpc => true
    | .newConnection, .serverStreaming => true
    | _, _ => false

/-- One round of `Server::RunCompletionQueue`: the tag `t` comes out of gRPC with `ok` (and the
message `m`, if one was received), `ok` is stored in the event, and the event is pushed. -/
def deliver (t : Tag) (ok : Bool) (m : μ) (c : Cell μ) : Cell μ :=
  { c with
    rpc := { c.rpc with
      events := Function.update c.rpc.events t { c.rpc.events t with ok := ok }
      request :=
        if storesRequest t ok c.rpc.rpcHandlerInfo.rpcType then some m else c.rpc.request }
    ops := Function.update c.ops t (c.ops t - 1)
    accepted := if t = .newConnection then some ok else c.accepted
    history := c.history ++ [.deliver t ok m] }

/-! ### Writer calls on other threads -/

/-- A thread enters a method of a `Writer`: `rpc_.lock()`. -/
def lockWriter (w : WriterMethod μ) (c : Cell μ) : Cell μ :=
  { c with calls := c.calls ++ [⟨w, if c.alive then .locked else .returned false⟩] }

/-- The call number `i` moves on. -/
def setPc (i : ℕ) (k : WriterCall μ) (pc : WriterPc) (c : Ctx μ) : Ctx μ :=
  { c with calls := c.calls.set i { k with pc := pc } }

/-- The next step of the `Writer` call `k`, which is the call number `i`: `EnqueueMessage`,
`GetWeakPtr`, the `Push`, and the release of the reference with the return, before which `Finish`
goes through `handler()`. -/
def stepWriter (i : ℕ) (k : WriterCall μ) (c : Ctx μ) : Except Fatal (Ctx μ) :=
  match k.pc with
  | .locked => .ok (setPc i k .enqueued (enqueueMessage k.method.item (some i) c))
  | .enqueued => do
    getWeakPtr c
    return setPc i k .gotWeakPtr c
  | .gotWeakPtr => .ok (setPc i k .pushed (pushWriteNeeded (some i) c))
  | .pushed =>
    match k.method with
    | .finish _ =>
      if c.rpc.handler then .ok (setPc i k (.returned true) c) else .error .traceSpan
    | _ => .ok (setPc i k (.returned true) c)
  | .returned _ => .ok c

end AsyncGrpc.Model.Service
