import AsyncGrpc.Lib.Runs
import AsyncGrpc.Model.Types

/-! # `AsyncClient`: calls whose answers come as callbacks

The two specialisations of `AsyncClient`, for `NORMAL_RPC` (`Unary`) and for `SERVER_STREAMING`
(`Streaming`), each as a machine that starts after one `WriteAsync`. Its steps are those of the thread
of the completion queue: `Next` returns the tag of an operation and `HandleEvent` runs up to the
callback, if it makes one (`complete`), and the callback returns and `HandleEvent` goes on
(`callbackReturns`). gRPC chooses `ok`, the response and the status that come with a tag.

`history` records what happened, oldest first; no function of the model reads it. `ρ` stands for
`ResponseType`. -/

namespace AsyncGrpc.Model.AsyncClient

open AsyncGrpc.Lib.Runs AsyncGrpc.Model.Types

variable {ρ : Type}

/-- `CompletionQueue::ClientEvent::Event`. -/
inductive ClientEvent
  | finish
  | read
  | write
  deriving DecidableEq, Repr

/-- What ends the process in `HandleEvent`: the `LOG(FATAL)` for an event that is not handled, and the
use of `response_reader_` before `WriteAsync`. -/
inductive ClientFatal
  | unhandledEvent (event : ClientEvent)
  | nullResponseReader
  deriving DecidableEq, Repr

/-- What happens to a client. -/
inductive ClientAct (ρ : Type)
  | start (event : ClientEvent)
  | complete (event : ClientEvent) (ok : Bool) (response : ρ) (status : Status)
  | callback (status : Status) (response : Option ρ)
  | returned
  deriving DecidableEq, Repr

/-- Where the thread of the completion queue stands: outside `HandleEvent`, or in the callback that
is made for an event. -/
inductive Position
  | idle
  | inCallback (event : ClientEvent)
  deriving DecidableEq, Repr

/-- The members of the two specialisations that are assigned after construction: whether `callback_`
and `response_reader_` are set, the `ok` of the events, `status_`, `response_`, `finish_status_`; and
how many operations gRPC holds under each tag. -/
structure Client (ρ : Type) where
  callback : Bool
  responseReader : Bool
  ok : ClientEvent → Bool
  status : Status
  response : ρ
  finishStatus : Status
  ops : ClientEvent → ℕ
  position : Position
  history : List (ClientAct ρ)

/-- The constructor; `callback` tells whether the function that it gets is not empty. -/
def Client.construct [Inhabited ρ] (callback : Bool) : Client ρ where
  callback := callback
  responseReader := false
  ok := fun _ => false
  status := .OK
  response := default
  finishStatus := .OK
  ops := fun _ => 0
  position := .idle
  history := []

/-- An operation is handed to gRPC with the event as its tag. -/
def startOp (event : ClientEvent) (c : Client ρ) : Client ρ :=
  { c with
    ops := Function.update c.ops event (c.ops event + 1)
    history := c.history ++ [.start event] }

/-- `callback_(status, response)`, up to the moment it is entered. -/
def invoke (event : ClientEvent) (status : Status) (response : Option ρ) (c : Client ρ) : Client ρ :=
  { c with position := .inCallback event, history := c.history ++ [.callback status response] }

/-- `Next` returns the tag, and `RunCompletionQueue` stores `ok` in the event. -/
def complete (event : ClientEvent) (ok : Bool) (response : ρ) (status : Status) (c : Client ρ) :
    Client ρ :=
  { c with
    ok := Function.update c.ok event ok
    ops := Function.update c.ops event (c.ops event - 1)
    history := c.history ++ [.complete event ok response status] }

/-! ### `AsyncClient<NORMAL_RPC>` -/

namespace Unary

/-- `WriteAsync`. -/
def writeAsync (c : Client ρ) : Client ρ := startOp .finish { c with responseReader := true }

/-- What gRPC has stored with the tag: the status, and the response if the call succeeded. -/
def store (event : ClientEvent) (_ok : Bool) (response : ρ) (status : Status) (c : Client ρ) :
    Client ρ :=
  match event with
  | .finish =>
    { c with
      status := status
      response := if status.errorCode = .ok then response else c.response }
  | _ => c

/-- `HandleFinishEvent`. -/
def handleFinishEvent (c : Client ρ) : Client ρ :=
  if c.callback then
    invoke .finish c.status (if c.status.errorCode = .ok then some c.response else none) c
  else c

/-- `HandleEvent`. -/
def handleEvent (event : ClientEvent) (c : Client ρ) : Except ClientFatal (Client ρ) :=
  match event with
  | .finish => .ok (handleFinishEvent c)
  | event => .error (.unhandledEvent event)

/-- Nothing follows the callback. -/
def afterCallback (_event : ClientEvent) (c : Client ρ) : Except ClientFatal (Client ρ) := .ok c

end Unary

/-! ### `AsyncClient<SERVER_STREAMING>` -/

namespace Streaming

/-- The status of a call that could not be started. -/
def writeFailed : Status := ⟨.internal, "Write failed in async server streaming."⟩

/-- The status of a call whose `Finish` failed. -/
def finishFailed : Status := ⟨.internal, "Finish failed in async server streaming."⟩

/-- `WriteAsync`. -/
def writeAsync (c : Client ρ) : Client ρ := startOp .write { c with responseReader := true }

/-- What gRPC has stored with the tag: a response with a `Read` that succeeded, the status of the call
with `Finish`. -/
def store (event : ClientEvent) (ok : Bool) (response : ρ) (status : Status) (c : Client ρ) :
    Client ρ :=
  match event with
  | .read => if ok then { c with response := response } else c
  | .finish => { c with finishStatus := status }
  | .write => c

/-- `response_reader_->Read(&response_, &read_event_)`. -/
def read (c : Client ρ) : Except ClientFatal (Client ρ) :=
  if c.responseReader then .ok (startOp .read c) else .error .nullResponseReader

/-- `response_reader_->Finish(&finish_status_, &finish_event_)` after `finish_status_` was set. -/
def finish (finishStatus : Status) (c : Client ρ) : Except ClientFatal (Client ρ) :=
  if c.responseReader then .ok (startOp .finish { c with finishStatus := finishStatus })
  else .error .nullResponseReader

/-- `HandleWriteEvent`. -/
def handleWriteEvent (c : Client ρ) : Except ClientFatal (Client ρ) :=
  if c.ok .write then read c
  else if c.callback then .ok (invoke .write writeFailed none c)
  else finish writeFailed c

/-- `HandleReadEvent`. -/
def handleReadEvent (c : Client ρ) : Except ClientFatal (Client ρ) :=
  if c.ok .read then
    if c.callback then .ok (invoke .read .OK (some c.response) c) else read c
  else finish .OK c

/-- `HandleFinishEvent`. -/
def handleFinishEvent (c : Client ρ) : Client ρ :=
  if c.callback then invoke .finish (if c.ok .finish then .OK else finishFailed) none c else c

/-- `HandleEvent`; the three cases are all there are. -/
def handleEvent (event : ClientEvent) (c : Client ρ) : Except ClientFatal (Client ρ) :=
  match event with
  | .write => handleWriteEvent c
  | .read => handleReadEvent c
  | .finish => .ok (handleFinishEvent c)

/-- What follows the callback in the three functions; `HandleReadEvent` looks at `ok` again. -/
def afterCallback (event : ClientEvent) (c : Client ρ) : Except ClientFatal (Client ρ) :=
  match event with
  | .write => finish writeFailed { c with callback := false }
  | .read => read (if c.ok .read then c else { c with callback := false })
  | .finish => .ok { c with callback := false }

end Streaming

/-! ### Machines -/

/-- The steps of the thread of the completion queue. -/
inductive ClientAction (ρ : Type)
  | complete (event : ClientEvent) (ok : Bool) (response : ρ) (status : Status)
  | callbackReturns

/-- The step function, for what gRPC stores and the handlers of one specialisation. -/
def step (store : ClientEvent → Bool → ρ → Status → Client ρ → Client ρ)
    (handleEvent afterCallback : ClientEvent → Client ρ → Except ClientFatal (Client ρ))
    (c : Client ρ) : ClientAction ρ → Option (Except ClientFatal (Client ρ))
  | .complete event ok response status =>
    if c.position = .idle ∧ 0 < c.ops event then
      some (handleEvent event (store event ok response status (complete event ok response status c)))
    else none
  | .callbackReturns =>
    match c.position with
    | .inCallback event =>
      some (afterCallback event
        { c with position := .idle, history := c.history ++ [.returned] })
    | .idle => none

/-- An `AsyncClient<NORMAL_RPC>` after `WriteAsync`. -/
def unary (ρ : Type) [Inhabited ρ] (callback : Bool) :
    Machine (Client ρ) (ClientAction ρ) ClientFatal where
  init := Unary.writeAsync (.construct callback)
  step := step Unary.store Unary.handleEvent Unary.afterCallback

/-- An `AsyncClient<SERVER_STREAMING>` after `WriteAsync`. -/
def streaming (ρ : Type) [Inhabited ρ] (callback : Bool) :
    Machine (Client ρ) (ClientAction ρ) ClientFatal where
  init := Streaming.writeAsync (.construct callback)
  step := step Streaming.store Streaming.handleEvent Streaming.afterCallback

end AsyncGrpc.Model.AsyncClient
