import AsyncGrpc.Model.Retry

/-! # `Client`: calls that block

The four specialisations of `Client` in `client.h`. None of them is thread safe, so a client is a
machine with one thread; what gRPC returns is chosen by the environment with the step. `κ` stands for
`RequestType`, `ρ` for `ResponseType`.

`Client<NORMAL_RPC>` (`UnaryClient`) steps through `Write`: it begins, a `BlockingUnaryCall` returns and the
retry loop goes on up to its delay, the delay passes and the context is reset, it returns. The readings
of the clock do not decrease. Every `Write` keeps the calls that it has made.

A client that streams (`StreamClient`) makes one step for each of its methods, with what the underlying
stream returns to it. The three `Write`s have one body, the other methods differ in when they create
the stream. -/

namespace AsyncGrpc.Model.BlockingClient

open AsyncGrpc.Lib.Runs AsyncGrpc.Model.Types AsyncGrpc.Model.Retry

/-! ### `Client<NORMAL_RPC>` -/

/-- `std::chrono::system_clock::time_point`, in ticks. -/
abbrev Time := ℤ

/-- A `::grpc::ClientContext`; `id` tells the objects apart. -/
structure ClientContext where
  id : ℕ
  deadline : Option Time
  deriving DecidableEq, Repr

/-- A `BlockingUnaryCall` that has returned `status` at the time `time`. -/
structure UnaryCall (κ : Type) where
  context : ClientContext
  request : κ
  status : Status
  time : Time
  deriving DecidableEq, Repr

/-- A `Write` that is under way since `start`: its variables, where its retry loop stands and the calls
that it has made. `wantsStatus` tells whether `status` is not null. -/
structure Writing (κ : Type) where
  request : κ
  wantsStatus : Bool
  start : Time
  internalStatus : Status
  deadline : Option Time
  retry : RetryLoop
  calls : List (UnaryCall κ)
  deriving DecidableEq, Repr

/-- A `Write` that has returned `result`; `status` is what it has stored in `*status`, if anything, and
`wantsStatus` whether it was given a pointer to store it. -/
structure Written (κ : Type) where
  wantsStatus : Bool
  start : Time
  calls : List (UnaryCall κ)
  result : Bool
  status : Option Status
  deriving DecidableEq, Repr

/-- `timeout_` and `retry_strategy_`, which the constructors set. -/
structure Settings where
  timeout : Option Duration
  retryStrategy : Option RetryStrategy

/-- The constructor without a timeout. -/
def Settings.ofChannel : Settings := ⟨none, none⟩

/-- The constructor with a timeout and a retry strategy, which may be empty. -/
def Settings.ofTimeout (timeout : Duration) (retryStrategy : Option RetryStrategy) : Settings :=
  ⟨some timeout, retryStrategy⟩

/-- A client; `contexts` counts the `ClientContext`s that were made, `clock` is the last reading of the
clock, if any, `past` holds the `Write`s that have returned. -/
structure UnaryClient (κ ρ : Type) where
  clientContext : ClientContext
  response : ρ
  contexts : ℕ
  clock : Option Time
  write : Option (Writing κ)
  past : List (Written κ)

variable {κ ρ : Type}

/-- A client after its constructor. -/
def UnaryClient.construct [Inhabited ρ] : UnaryClient κ ρ where
  clientContext := ⟨0, none⟩
  response := default
  contexts := 1
  clock := none
  write := none
  past := []

/-- `client_context_ = ResetContext(deadline)`. -/
def UnaryClient.resetContext (deadline : Option Time) (c : UnaryClient κ ρ) : UnaryClient κ ρ :=
  { c with clientContext := ⟨c.contexts, deadline⟩, contexts := c.contexts + 1 }

/-- `Write` up to its retry loop. -/
def UnaryClient.beginWrite (settings : Settings) (request : κ) (wantsStatus : Bool) (now : Time)
    (c : UnaryClient κ ρ) : UnaryClient κ ρ :=
  let deadline := settings.timeout.map (now + ·)
  { c.resetContext deadline with
    clock := some now
    write := some ⟨request, wantsStatus, now, .OK, deadline, .begin, []⟩ }

/-- `WriteImpl`, when its `BlockingUnaryCall` returns `status`; a response comes with success. The
retry loop stands at `retry` afterwards. -/
def UnaryClient.writeImpl (w : Writing κ) (status : Status) (response : ρ) (now : Time)
    (c : UnaryClient κ ρ) (retry : RetryLoop) : UnaryClient κ ρ :=
  { c with
    response := if isOk status then response else c.response
    clock := some now
    write := some { w with
      internalStatus := status
      retry := retry
      calls := w.calls ++ [⟨c.clientContext, w.request, status, now⟩] } }

/-- The end of `Write`. -/
def UnaryClient.endWrite (w : Writing κ) (result : Bool) (c : UnaryClient κ ρ) : UnaryClient κ ρ :=
  { c with
    write := none
    past := c.past ++ [⟨w.wantsStatus, w.start, w.calls, result,
      if w.wantsStatus then some w.internalStatus else none⟩] }

/-- The steps of a client. -/
inductive UnaryAction (κ ρ : Type)
  | write (request : κ) (wantsStatus : Bool) (now : Time)
  | call (status : Status) (response : ρ) (now : Time)
  | sleep
  | endWrite

/-- The step function of a client. -/
def UnaryClient.step (settings : Settings) (c : UnaryClient κ ρ) :
    UnaryAction κ ρ → Option (Except RetryFatal (UnaryClient κ ρ))
  | .write request wantsStatus now =>
    if c.write.isNone && c.clock.all (· ≤ now) then
      some (.ok (c.beginWrite settings request wantsStatus now))
    else none
  | .call status response now =>
    match c.write with
    | none => none
    | some w =>
      if c.clock.all (· ≤ now) then
        (w.retry.step settings.retryStrategy true (.op status)).map fun r =>
          c.writeImpl w status response now <$> r
      else none
  | .sleep =>
    match c.write with
    | none => none
    | some w =>
      (w.retry.step settings.retryStrategy true .sleep).map fun r =>
        (fun retry => { c.resetContext w.deadline with write := some { w with retry := retry } }) <$> r
  | .endWrite =>
    match c.write with
    | none => none
    | some w =>
      match w.retry.pc with
      | .returned result => some (.ok (c.endWrite w result))
      | _ => none

/-- `Client<NORMAL_RPC>`. -/
def unary (κ ρ : Type) [Inhabited ρ] (settings : Settings) :
    Machine (UnaryClient κ ρ) (UnaryAction κ ρ) RetryFatal where
  init := .construct
  step := UnaryClient.step settings

/-! ### The clients that stream -/

/-- What ends the process: the `CHECK(client_reader_)` of `Client<SERVER_STREAMING>`. -/
inductive StreamFatal
  | nullClientReader
  deriving DecidableEq, Repr

/-- A call of a method with what the underlying stream returns to it; `accepted` is the result of the
`Write` of the stream. -/
inductive StreamCall (κ : Type)
  | write (request : κ) (wantsStatus accepted : Bool)
  | streamRead (ok : Bool)
  | streamWritesDone (ok : Bool)
  | streamFinish (status : Status)
  deriving DecidableEq, Repr

/-- What a method returns; `Write` also stores a status, if it is asked to. -/
inductive StreamReturn
  | write (result : Bool) (status : Option Status)
  | streamRead (ok : Bool)
  | streamWritesDone (ok : Bool)
  | streamFinish (status : Status)
  deriving DecidableEq, Repr

/-- A client that streams: whether `client_writer_`, `client_reader_` or `client_reader_writer_` is set,
the calls that have returned, and the numbers of the calls that created a stream. -/
structure StreamClient (κ : Type) where
  stream : Bool
  returns : List (StreamCall κ × StreamReturn)
  created : List ℕ

namespace StreamClient

/-- A client after its constructor. -/
def construct : StreamClient κ := ⟨false, [], []⟩

/-- A stream is created and kept in place of the one before. -/
def instantiate (c : StreamClient κ) : StreamClient κ :=
  { c with stream := true, created := c.created ++ [c.returns.length] }

/-- A stream is created if there is none. -/
def instantiateIfNeeded (c : StreamClient κ) : StreamClient κ := if !c.stream then c.instantiate else c

/-- The call returns. -/
def record (call : StreamCall κ) (ret : StreamReturn) (c : StreamClient κ) : StreamClient κ :=
  { c with returns := c.returns ++ [(call, ret)] }

/-- The body of the three `Write`s. `writeImpl` gets the variable that `status` points to and returns
it as it is afterwards; its result is not used. -/
def writeWith (writeImpl : Status → StreamClient κ → (Bool × Status) × StreamClient κ)
    (wantsStatus : Bool) (c : StreamClient κ) : StreamReturn × StreamClient κ :=
  let ((_, internalStatus), c) := writeImpl .OK c
  (.write (isOk internalStatus) (if wantsStatus then some internalStatus else none), c)

end StreamClient

open StreamClient

/-! ### `Client<CLIENT_STREAMING>` -/

namespace ClientStreaming

/-- `WriteImpl`, when the `Write` of `client_writer_` returns `accepted`. -/
def writeImpl (accepted : Bool) (status : Status) (c : StreamClient κ) :
    (Bool × Status) × StreamClient κ :=
  ((accepted, status), c.instantiateIfNeeded)

/-- The methods. There is no `StreamRead`. -/
def step (c : StreamClient κ) (call : StreamCall κ) : Option (Except StreamFatal (StreamClient κ)) :=
  match call with
  | .write _ wantsStatus accepted =>
    let (ret, c) := writeWith (writeImpl accepted) wantsStatus c
    some (.ok (c.record call ret))
  | .streamRead _ => none
  | .streamWritesDone ok => some (.ok (c.instantiateIfNeeded.record call (.streamWritesDone ok)))
  | .streamFinish status => some (.ok (c.instantiateIfNeeded.record call (.streamFinish status)))

end ClientStreaming

/-- `Client<CLIENT_STREAMING>`. -/
def clientStreaming (κ : Type) : Machine (StreamClient κ) (StreamCall κ) StreamFatal where
  init := .construct
  step := ClientStreaming.step

/-! ### `Client<SERVER_STREAMING>` -/

namespace ServerStreaming

/-- `WriteImpl`: every call creates a reader. -/
def writeImpl (status : Status) (c : StreamClient κ) : (Bool × Status) × StreamClient κ :=
  ((true, status), c.instantiate)

/-- `CHECK(client_reader_)`. -/
def checkClientReader (c : StreamClient κ) : Except StreamFatal (StreamClient κ) :=
  if c.stream then .ok c else .error .nullClientReader

/-- The methods. There is no `StreamWritesDone`; a stream of this kind accepts nothing by itself. -/
def step (c : StreamClient κ) (call : StreamCall κ) : Option (Except StreamFatal (StreamClient κ)) :=
  match call with
  | .write _ wantsStatus _ =>
    let (ret, c) := writeWith writeImpl wantsStatus c
    some (.ok (c.record call ret))
  | .streamRead ok => some (record call (.streamRead ok) <$> checkClientReader c)
  | .streamWritesDone _ => none
  | .streamFinish status => some (record call (.streamFinish status) <$> checkClientReader c)

end ServerStreaming

/-- `Client<SERVER_STREAMING>`. -/
def serverStreaming (κ : Type) : Machine (StreamClient κ) (StreamCall κ) StreamFatal where
  init := .construct
  step := ServerStreaming.step

/-! ### `Client<BIDI_STREAMING>` -/

namespace BidiStreaming

/-- `WriteImpl`, when the `Write` of `client_reader_writer_` returns `accepted`. -/
def writeImpl (accepted : Bool) (status : Status) (c : StreamClient κ) :
    (Bool × Status) × StreamClient κ :=
  ((accepted, status), c.instantiateIfNeeded)

/-- The methods. -/
def step (c : StreamClient κ) (call : StreamCall κ) : Option (Except StreamFatal (StreamClient κ)) :=
  match call with
  | .write _ wantsStatus accepted =>
    let (ret, c) := writeWith (writeImpl accepted) wantsStatus c
    some (.ok (c.record call ret))
  | .streamRead ok => some (.ok (c.instantiateIfNeeded.record call (.streamRead ok)))
  | .streamWritesDone ok => some (.ok (c.instantiateIfNeeded.record call (.streamWritesDone ok)))
  | .streamFinish status => some (.ok (c.instantiateIfNeeded.record call (.streamFinish status)))

end BidiStreaming

/-- `Client<BIDI_STREAMING>`. -/
def bidiStreaming (κ : Type) : Machine (StreamClient κ) (StreamCall κ) StreamFatal where
  init := .construct
  step := BidiStreaming.step

end AsyncGrpc.Model.BlockingClient
