import AsyncGrpc.Lib.Runs
import AsyncGrpc.Single.Machine

/-! # One `Rpc` whose events are handled step by step

In `Single.Machine` the handling of an event is one step. Here the event thread goes through it task by
task, and through a callback call by call, while completions come in and other threads use their
`Writer`s in between. `OnConnection` is where this makes a difference: the handler factory runs
`Initialize` on the new handler, and `handler_` is assigned only when it returns.

`outbox` holds the events that wait in the event queue, oldest first. -/

namespace AsyncGrpc.Single.EventThread

open AsyncGrpc.Lib.Runs AsyncGrpc.Model.Types AsyncGrpc.Model.Rpc AsyncGrpc.Model.Service
open AsyncGrpc.Single.Machine

variable {μ : Type}

/-- What the event thread does for an event, apart from the calls that a handler makes in a callback. -/
inductive Task
  | use (m : Member)
  | onConnection
  | requestStreamingReadIfNeeded
  | onRequest
  | onReadsDone
  | onFinish
  | handleSendQueue
  | removeIfNotPending
  deriving DecidableEq, Repr

/-- The callback that the event thread is in: `Initialize`, in the handler factory, or one that was made
through `handler_`. -/
inductive Inside
  | initializeHandler
  | throughHandler
  deriving DecidableEq, Repr

/-- One `Rpc` with its waiting events, what the event thread still has to do for the event that it
handles, and the callback that it is in. -/
structure Busy (μ : Type) where
  ctx : Ctx μ
  todo : List Task
  inside : Option Inside

/-! ### The parts of the handling -/

/-- `HandleWrite`, for both events that lead to it. -/
def writeTasks : List Task := [.use .handleSendQueue, .handleSendQueue, .removeIfNotPending]

/-- `Service::HandleEvent` for the event of the tag `t`. -/
def completionTasks (shuttingDown : Bool) (t : Tag) (ok : Bool) (c : Ctx μ) : Ctx μ × List Task :=
  match t with
  | .newConnection =>
    if shuttingDown then (remove .handleNewConnection c, [])
    else if ok then
      (c, [.use .onConnection, .onConnection, .requestStreamingReadIfNeeded, .use .clone])
    else (remove .handleNewConnection c, [.use .clone])
  | .read =>
    if ok then
      (c, [.use .onRequest, .onRequest, .use .requestStreamingReadIfNeeded,
        .requestStreamingReadIfNeeded])
    else (c, [.use .onReadsDone, .onReadsDone, .removeIfNotPending])
  | .write => (c, writeTasks)
  | .finish => (c, [.use .onFinish, .onFinish, .removeIfNotPending])
  | .done => (c, [.removeIfNotPending])

/-- The event thread takes up an event. -/
def takeUp (shuttingDown : Bool) (e : RpcEvent) (c : Ctx μ) : Ctx μ × List Task :=
  match e with
  | .completion t =>
    let ok := (c.rpc.events t).ok
    let c := log (.handle t ok) { c with rpc := setPending t false c.rpc }
    completionTasks shuttingDown t ok (use .service c)
  | .writeNeeded => if c.alive then (use .service (log .wake c), writeTasks) else (c, [])

/-- A callback through `handler_` begins. -/
def enter (cb : Callback μ) (todo : List Task) (c : Ctx μ) : Except Fatal (Busy μ) :=
  if c.rpc.handler then .ok ⟨log (.callback cb) c, todo, some .throughHandler⟩
  else .error .nullHandler

/-- The next task. -/
def perform (c : Ctx μ) (todo : List Task) : Task → Except Fatal (Busy μ)
  | .use m => .ok ⟨use m c, todo, none⟩
  | .onConnection =>
    if c.rpc.handler then .ok ⟨c, todo, none⟩
    else .ok ⟨log (.callback .initializeHandler) c, todo, some .initializeHandler⟩
  | .requestStreamingReadIfNeeded =>
    match c.rpc.rpcHandlerInfo.rpcType with
    | .bidiStreaming | .clientStreaming => do
      let c ← setRpcEventState .read true c
      let rw ← asyncReaderInterface c
      let c ← startVia rw .read c
      return ⟨c, todo, none⟩
    | .normalRpc | .serverStreaming => .ok ⟨c, .onRequest :: .onReadsDone :: todo, none⟩
  | .onRequest => enter (.onRequest c.rpc.request) todo c
  | .onReadsDone => enter .onReadsDone todo c
  | .onFinish => enter .onFinish todo c
  | .handleSendQueue => do
    let c ← handleSendQueue c
    return ⟨c, todo, none⟩
  | .removeIfNotPending => do
    let c ← removeIfNotPending c
    return ⟨c, todo, none⟩

/-- The callback returns. When it is `Initialize`, so does the factory, and `handler_` is assigned. -/
def leave (c : Ctx μ) (todo : List Task) : Inside → Busy μ
  | .initializeHandler => ⟨{ c with rpc := { c.rpc with handler := true } }, todo, none⟩
  | .throughHandler => ⟨c, todo, none⟩

/-! ### The machine -/

/-- The steps: the event thread takes up an event, goes on, or is in a callback in which the handler
makes a call; a completion comes in; another thread enters a method of a `Writer` or goes on in it. -/
inductive BusyStep (μ : Type)
  | takeUp (shuttingDown : Bool)
  | goOn
  | call (k : HandlerCall μ)
  | deliver (t : Tag) (ok : Bool) (m : μ)
  | lockWriter (w : WriterMethod μ)
  | stepWriter (i : ℕ)

/-- The step function. -/
def Busy.step (s : Busy μ) : BusyStep μ → Option (Except Fatal (Busy μ))
  | .takeUp shuttingDown =>
    match s.ctx.outbox, s.todo, s.inside with
    | e :: rest, [], none =>
      let (c, todo) := takeUp shuttingDown e { s.ctx with outbox := rest }
      some (.ok ⟨c, todo, none⟩)
    | _, _, _ => none
  | .goOn =>
    match s.inside, s.todo with
    | some p, todo => some (.ok (leave s.ctx todo p))
    | none, task :: todo => some (perform s.ctx todo task)
    | none, [] => none
  | .call k =>
    match s.inside with
    | some _ => some ((fun c => { s with ctx := c }) <$> handlerCall s.ctx k)
    | none => none
  | .deliver t ok m =>
    if deliverable t s.ctx.toCell then
      some (.ok { s with ctx := ⟨deliver t ok m s.ctx.toCell, s.ctx.outbox ++ [.completion t]⟩ })
    else none
  | .lockWriter w =>
    if s.ctx.writer then
      some (.ok { s with ctx := ⟨lockWriter w s.ctx.toCell, s.ctx.outbox⟩ })
    else none
  | .stepWriter i =>
    match s.ctx.calls[i]? with
    | some k =>
      if k.holds then some ((fun c => { s with ctx := c }) <$> stepWriter i k s.ctx) else none
    | none => none

/-- The event thread handles no event of the `Rpc`. -/
def idle (l : Conn μ) : Busy μ := ⟨⟨l.cell, l.inbox⟩, [], none⟩

/-- The runs of an `Rpc` from `l` on. -/
def interleaved (l : Conn μ) : Machine (Busy μ) (BusyStep μ) Fatal where
  init := idle l
  step := Busy.step

end AsyncGrpc.Single.EventThread
