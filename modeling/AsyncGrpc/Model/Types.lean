import Mathlib.Data.Nat.Notation
import Mathlib.Logic.Function.Basic

/-! # The data of the server side: events, send items, the `Rpc` object and what surrounds it

The types of `rpc.h`, and the two things an `Rpc` lives between: the operations that gRPC holds for
it (`ops`, under the five tags) and the calls of its `Writer`s that are under way on other threads
(`calls`). `μ` stands for `google::protobuf::Message`.

`history` records, oldest first, what happened to the `Rpc`: the operations handed to gRPC, the
completions delivered and handled, the items enqueued, the callbacks made on the handler, the uses
that `Service` makes of the object and the removal of its entry from `ActiveRpcs`. No function of
the model reads it. -/

namespace AsyncGrpc.Model.Types

/-! ### Types of gRPC -/

/-- `::grpc::internal::RpcMethod::RpcType`. -/
inductive RpcType
  | normalRpc
  | clientStreaming
  | serverStreaming
  | bidiStreaming
  deriving DecidableEq, Repr

/-- `::grpc::StatusCode`. -/
inductive StatusCode
  | ok
  | cancelled
  | unknown
  | invalidArgument
  | deadlineExceeded
  | notFound
  | alreadyExists
  | permissionDenied
  | resourceExhausted
  | failedPrecondition
  | aborted
  | outOfRange
  | unimplemented
  | internal
  | unavailable
  | dataLoss
  | unauthenticated
  deriving DecidableEq, Repr

/-- `::grpc::Status`. -/
structure Status where
  errorCode : StatusCode
  errorMessage : String
  deriving DecidableEq, Repr

/-- `::grpc::Status::OK`. -/
def Status.OK : Status := ⟨.ok, ""⟩

/-! ### Events -/

/-- `Rpc::Event`. -/
inductive Event
  | newConnection
  | read
  | writeNeeded
  | write
  | finish
  | done
  deriving DecidableEq, Repr

/-- The five `CompletionQueueRpcEvent` members of an `Rpc`; their addresses are the tags of its
operations in gRPC. -/
inductive Tag
  | newConnection
  | read
  | write
  | finish
  | done
  deriving DecidableEq, Repr

/-- The `event` field of a `CompletionQueueRpcEvent`. -/
def Tag.event : Tag → Event
  | .newConnection => .newConnection
  | .read => .read
  | .write => .write
  | .finish => .finish
  | .done => .done

/-- The mutable fields of a `CompletionQueueRpcEvent`. -/
structure CompletionQueueRpcEvent where
  ok : Bool
  pending : Bool
  deriving DecidableEq, Repr

/-- An event of one `Rpc` in an event queue: one of its five members, or an `InternalRpcEvent` with
`Event::WRITE_NEEDED` and a weak pointer to the `Rpc`. -/
inductive RpcEvent
  | completion (t : Tag)
  | writeNeeded
  deriving DecidableEq, Repr

/-! ### The `Rpc` object -/

/-- An `RpcHandlerFactory`, known by the type of the handlers that it makes. -/
structure RpcHandlerFactory where
  rpcHandlerType : String
  deriving DecidableEq, Repr

/-- `RpcHandlerInfo`, without the descriptors of the messages. -/
structure RpcHandlerInfo where
  rpcHandlerFactory : RpcHandlerFactory
  rpcType : RpcType
  fullyQualifiedName : String
  deriving DecidableEq, Repr

/-- `Rpc::SendItem`. -/
structure SendItem (μ : Type) where
  msg : Option μ
  status : Status
  deriving DecidableEq, Repr

/-- The four objects of which `InitializeReadersAndWriters` creates one. -/
inductive ReaderWriter
  | serverAsyncResponseWriter
  | serverAsyncReader
  | serverAsyncReaderWriter
  | serverAsyncWriter
  deriving DecidableEq, Repr

/-- The fields of an `Rpc`. `request` and `response` are `none` while they hold the prototype
message; `handler` tells whether `handler_` is set, `readersAndWriters` which of the four pointers
are. -/
structure Rpc (μ : Type) where
  methodIndex : ℕ
  serverCompletionQueue : ℕ
  eventQueue : ℕ
  rpcHandlerInfo : RpcHandlerInfo
  service : ℕ
  events : Tag → CompletionQueueRpcEvent
  request : Option μ
  response : Option μ
  handler : Bool
  readersAndWriters : ReaderWriter → Bool
  sendQueue : List (SendItem μ)

/-- The operations an `Rpc` hands to gRPC. -/
inductive Op (μ : Type)
  | asyncNotifyWhenDone
  | requestAsync (t : RpcType)
  | read
  | write (msg : μ)
  | finish (msg : Option μ) (status : Status)
  | finishWithError (status : Status)
  deriving DecidableEq, Repr

/-- The tag an operation is started with. -/
def Op.tag {μ : Type} : Op μ → Tag
  | .asyncNotifyWhenDone => .done
  | .requestAsync _ => .newConnection
  | .read => .read
  | .write _ => .write
  | .finish _ _ => .finish
  | .finishWithError _ => .finish

/-! ### Handlers and Writers -/

/-- The callbacks made on a handler. -/
inductive Callback (μ : Type)
  | initializeHandler
  | onRequest (request : Option μ)
  | onReadsDone
  | onFinish
  deriving DecidableEq, Repr

/-- The methods of `RpcHandler::Writer`. -/
inductive WriterMethod (μ : Type)
  | write (message : Option μ)
  | writesDone
  | finish (status : Status)
  deriving DecidableEq, Repr

/-- The item that a method of `Writer` enqueues. -/
def WriterMethod.item {μ : Type} : WriterMethod μ → SendItem μ
  | .write m => ⟨m, .OK⟩
  | .writesDone => ⟨none, .OK⟩
  | .finish st => ⟨none, st⟩

/-- What a handler can do to its `Rpc` in a callback: `Send`, `Finish`, `GetWriter`, and calls of a
`Writer` that it has obtained before. -/
inductive HandlerCall (μ : Type)
  | send (response : Option μ)
  | finish (status : Status)
  | getWriter
  | writer (w : WriterMethod μ)
  deriving DecidableEq, Repr

/-- What the handler does in each callback made while one event is handled. -/
structure Script (μ : Type) where
  initializeHandler : List (HandlerCall μ) := []
  onRequest : List (HandlerCall μ) := []
  onReadsDone : List (HandlerCall μ) := []
  onFinish : List (HandlerCall μ) := []

/-- Where a call of a `Writer` method stands: it has locked the weak pointer, enqueued its item,
obtained the weak pointer of the new event, pushed the event, or returned. From `locked` to
`pushed` it holds a strong reference. -/
inductive WriterPc
  | locked
  | enqueued
  | gotWeakPtr
  | pushed
  | returned (result : Bool)
  deriving DecidableEq, Repr

/-- A call of a `Writer` method on some thread. -/
structure WriterCall (μ : Type) where
  method : WriterMethod μ
  pc : WriterPc
  deriving DecidableEq, Repr

/-- The call holds a strong reference to the `Rpc`. -/
def WriterCall.holds {μ : Type} (k : WriterCall μ) : Bool :=
  match k.pc with
  | .returned _ => false
  | _ => true

/-! ### The history -/

/-- The members of an `Rpc` that `Service` and the `Handle` functions use. -/
inductive Member
  | service
  | onConnection
  | clone
  | onRequest
  | requestStreamingReadIfNeeded
  | onReadsDone
  | handleSendQueue
  | onFinish
  | isAnyEventPending
  deriving DecidableEq, Repr

/-- The two ways an entry leaves `ActiveRpcs`. -/
inductive RemoveSite
  | handleNewConnection
  | removeIfNotPending
  deriving DecidableEq, Repr

/-- What can happen to an `Rpc`. `call` is the number of the `Writer` call that enqueues or pushes,
`none` when the handler does it in a callback. -/
inductive Act (μ : Type)
  | start (op : Op μ)
  | deliver (t : Tag) (ok : Bool) (m : μ)
  | handle (t : Tag) (ok : Bool)
  | wake
  | enqueue (item : SendItem μ) (call : Option ℕ)
  | push (call : Option ℕ)
  | use (m : Member)
  | remove (site : RemoveSite)
  | callback (cb : Callback μ)
  | setResponse (msg : Option μ)
  deriving DecidableEq, Repr

/-! ### The surroundings of an `Rpc` -/

/-- One `Rpc` with its surroundings. `active` tells whether `ActiveRpcs::rpcs_` has an entry for it,
`ops t` how many operations gRPC holds under the tag `t`, `accepted` with which `ok` the tag
`NEW_CONNECTION` was delivered, `writer` whether the handler has obtained a `Writer`. -/
structure Cell (μ : Type) where
  rpc : Rpc μ
  active : Bool
  ops : Tag → ℕ
  accepted : Option Bool
  writer : Bool
  calls : List (WriterCall μ)
  history : List (Act μ)

/-- A cell while a function runs on it; `outbox` is what the function has pushed to
`*event_queue_`. -/
structure Ctx (μ : Type) extends Cell μ where
  outbox : List RpcEvent := []

/-- Somebody holds a strong reference: the entry of `ActiveRpcs` or a `Writer` call. -/
def Cell.alive {μ : Type} (c : Cell μ) : Bool := c.active || c.calls.any (·.holds)

/-- The reasons for which the process ends: a failed `CHECK`, a `LOG(FATAL)`, or a null pointer that
is dereferenced. `nullHandler` is that of the callbacks of `Rpc`, `traceSpan` that of
`Writer::Finish`, which asks the handler for its span. -/
inductive Fatal
  | getWeakPtr
  | rpcAlreadyActive
  | getRpcEvent
  | performFinishMessage
  | performWriteNullMessage
  | performWriteNormalRpc
  | performWriteClientStreaming
  | asyncReaderInterface
  | asyncWriterInterface
  | nullReaderWriter
  | nullHandler
  | traceSpan
  deriving DecidableEq, Repr

end AsyncGrpc.Model.Types
