import AsyncGrpc.Lib.Links
import AsyncGrpc.Model.BlockingClient
import AsyncGrpc.Service.Callbacks
import AsyncGrpc.Client.Streaming

/-! # A client, the server, and gRPC between them

A call is a client of `async_client.h` or `client.h` beside the whole server, whose `Rpc` number `r`
takes the call; other clients may call the other `Rpc`s of the server meanwhile, in any way. gRPC is what
is between the two. Nothing is built into the machines about it: what it is assumed to carry is stated as
conditions on the steps of a run, one for each thing that a result needs.

* `carriesRequest`, `carriesResponses`, `endsResponses`, `completes`, `carriesAnswers`: what an `AsyncClient`
  and its handler may rely on.
* `carriesRequests`, `endsRequests`, `acceptsNoMore`, `carriesStatus`: the same for a `Client` that writes a
  stream of requests. A `Read` of the server fails when the client is done, or when the call was finished.
* `historyOf r s`: what happened to the `Rpc` number `r`. It only grows (`historyOf_grows`), and of the
  steps of the server only a completion for `r` adds one to it (`observe_step`).
* `responses_eq`: what an `Rpc` has sent, in terms of what its handler has enqueued. -/

namespace AsyncGrpc.EndToEnd.Wire

open AsyncGrpc.Lib.Runs AsyncGrpc.Lib.Links
open AsyncGrpc.Model.Types AsyncGrpc.Model.Service AsyncGrpc.Model.Server
open AsyncGrpc.Model.AsyncClient AsyncGrpc.Model.BlockingClient
open AsyncGrpc.Single.Machine AsyncGrpc.Single.Moves AsyncGrpc.Single.Project
open AsyncGrpc.Single.Lifecycle AsyncGrpc.Single.Ledger AsyncGrpc.Single.Order
open AsyncGrpc.Service.Callbacks

variable {μ : Type} {cfg : Config} {r : ℕ}

/-! ### What is on the wire -/

/-- What happened to the `Rpc` number `r`; nothing before it was created. -/
def historyOf (r : ℕ) (s : State μ) : List (Act μ) := s.cells[r]?.elim [] (·.history)

/-- The message of a `Write`; the other operations that send end the call. -/
def writtenMsg : Op μ → Option μ
  | .write m => some m
  | _ => none

/-- The messages that were written to the client before the call was finished. -/
def responses (h : List (Act μ)) : List μ := content writtenMsg (sentOps h)

/-- The operation that finished the call. -/
def finishOp (h : List (Act μ)) : Option (Op μ) := closing writtenMsg (sentOps h)

/-- The status that an operation sends. -/
def statusOf : Op μ → Option Status
  | .finish _ status => some status
  | .finishWithError status => some status
  | _ => none

/-- What a client without a stream is told by the operation that finished its call; gRPC does not
accept a `FinishWithError` with `OK`. -/
def toldBy : Op μ → Option (Status × Option μ)
  | .finish msg status => some (status, if status.errorCode = .ok then msg else none)
  | .finishWithError status => if status.errorCode = .ok then none else some (status, none)
  | _ => none

/-- The request of a `Write` that the stream accepted. -/
def acceptedOf : StreamCall μ × StreamReturn → Option μ
  | (.write request _ true, _) => some request
  | _ => none

/-- The requests that the stream accepted, oldest first. -/
def accepted (t : StreamClient μ) : List μ := t.returns.filterMap acceptedOf

/-- The call is `StreamWritesDone`. -/
def isWritesDone : StreamCall μ → Bool
  | .streamWritesDone _ => true
  | _ => false

/-- The client has called `StreamWritesDone`. -/
def writesDone (t : StreamClient μ) : Bool := t.returns.any (isWritesDone ·.1)

/-! ### What gRPC is assumed to carry -/

section Assumptions

/-- A `Read` of the client fails only when the call was finished and all its responses were received. -/
def endsResponses (r : ℕ) : State μ × Client μ → Action μ ⊕ ClientAction μ → Bool
  | (s, t), .inr (.complete .read false _ _) => (finishOp (historyOf r s)).isSome &&
      (responses (historyOf r s)).length = (Client.Streaming.received t.history).length
  | _, _ => true

/-- The call of a streaming client is started, and its `Finish` succeeds. -/
def completes : State μ × Client μ → Action μ ⊕ ClientAction μ → Bool
  | _, .inr (.complete .write ok _ _) => ok
  | _, .inr (.complete .finish ok _ _) => ok
  | _, _ => true

/-- A `Read` of the server fails only when the call was finished, or when the client has called
`StreamWritesDone` and all its requests were received. -/
def endsRequests (r : ℕ) : State μ × StreamClient μ → Action μ ⊕ StreamCall μ → Bool
  | (s, t), .inl (.deliver r' .read false _) => r' ≠ r || (finishOp (historyOf r s)).isSome ||
      writesDone t && (received (historyOf r s)).length = (accepted t).length
  | _, _ => true

/-- The stream accepts no request after `StreamWritesDone`. -/
def acceptsNoMore : State μ × StreamClient μ → Action μ ⊕ StreamCall μ → Bool
  | (_, t), .inr (.write _ _ true) => !writesDone t
  | _, _ => true

/-- `StreamFinish` gets the status that the call was finished with. -/
def carriesStatus (r : ℕ) : State μ × StreamClient μ → Action μ ⊕ StreamCall μ → Bool
  | (s, _), .inr (.streamFinish status) => (finishOp (historyOf r s)).bind statusOf = some status
  | _, _ => true

variable [DecidableEq μ]

/-- The one request of the client comes with the connection. -/
def carriesRequest {τ β : Type} (r : ℕ) (request : μ) : State μ × τ → Action μ ⊕ β → Bool
  | _, .inl (.deliver r' .newConnection true m) => r' ≠ r || m = request
  | _, _ => true

/-- A `Read` of the client that succeeds gets the next response that was written. -/
def carriesResponses (r : ℕ) : State μ × Client μ → Action μ ⊕ ClientAction μ → Bool
  | (s, t), .inr (.complete .read true m _) =>
    (responses (historyOf r s))[(Client.Streaming.received t.history).length]? = some m
  | _, _ => true

/-- A client without streams that is told a status of the kind `p` is told what the server sent. -/
def carriesAnswers (r : ℕ) (p : Status → Bool) : State μ × Client μ → Action μ ⊕ ClientAction μ → Bool
  | (s, _), .inr (.complete _ _ m status) => !p status ||
      (finishOp (historyOf r s)).bind toldBy =
        some (status, if status.errorCode = .ok then some m else none)
  | _, _ => true

/-- A `Read` of the server that succeeds gets the next request that the client's stream accepted. -/
def carriesRequests (r : ℕ) : State μ × StreamClient μ → Action μ ⊕ StreamCall μ → Bool
  | (s, t), .inl (.deliver r' .read true m) =>
    r' ≠ r || (accepted t)[(received (historyOf r s)).length]? = some m
  | _, _ => true

end Assumptions

/-- An `AsyncClient<SERVER_STREAMING>` beside the server. -/
def streamingCall (μ : Type) [Inhabited μ] (cfg : Config) :
    Machine (State μ × Client μ) (Action μ ⊕ ClientAction μ) (Fatal ⊕ ClientFatal) :=
  beside (server μ cfg) (Model.AsyncClient.streaming μ true)

/-- An `AsyncClient<NORMAL_RPC>` beside the server. -/
def unaryCall (μ : Type) [Inhabited μ] (cfg : Config) :
    Machine (State μ × Client μ) (Action μ ⊕ ClientAction μ) (Fatal ⊕ ClientFatal) :=
  beside (server μ cfg) (Model.AsyncClient.unary μ true)

/-- A `Client<CLIENT_STREAMING>` or `Client<BIDI_STREAMING>` beside the server. -/
def requestStream (cfg : Config) (M : Machine (StreamClient μ) (StreamCall μ) StreamFatal) :
    Machine (State μ × StreamClient μ) (Action μ ⊕ StreamCall μ) (Fatal ⊕ StreamFatal) :=
  beside (server μ cfg) M

/-! ### Steps of the server -/

section Server
variable {s s' : State μ} {a : Action μ} {c : Cell μ}

theorem historyOf_eq (hc : s.cells[r]? = some c) : historyOf r s = c.history := by
  simp [historyOf, hc]

theorem historyOf_conn {l : Conn μ} (hl : conn s r = some l) : historyOf r s = l.cell.history :=
  historyOf_eq (conn_eq_some.mp hl).1

/-- The completion that a step of an `Rpc` is, if it is one. -/
def completionOf : Option (Step μ) → List (Act μ)
  | some (.deliver t ok m) => [.deliver t ok m]
  | _ => []

/-- The completion for `r` that a step of the server is, if it is one. -/
def completionFor (r : ℕ) : Action μ → List (Act μ)
  | .deliver r' t ok m => if r' = r then [.deliver t ok m] else []
  | _ => []

theorem completionFor_eq (a : Action μ) : completionFor r a = completionOf (actOf s a r) := by
  cases a with
  | deliver r' t ok m =>
    by_cases h : r' = r <;> simp [completionFor, actOf, h, completionOf]
  | handle q script =>
    unfold actOf
    dsimp only
    split
    · split_ifs <;> rfl
    · rfl
  | lockWriter r' w => by_cases h : r' = r <;> simp [completionFor, actOf, h, completionOf]
  | stepWriter r' i => by_cases h : r' = r <;> simp [completionFor, actOf, h, completionOf]
  | stopServing service => rfl

/-- The entry is a completion. -/
def isCompletion : Act μ → Bool
  | .deliver .. => true
  | _ => false

theorem historyOf_init : (historyOf r (server μ cfg).init).all (!isCompletion ·) = true := by
  cases hl : conn (server μ cfg).init r with
  | none =>
    have hc : (server μ cfg).init.cells[r]? = none := by simpa [conn] using hl
    simp [historyOf, hc]
  | some l =>
    obtain ⟨ty, hh⟩ := fresh_history (init_fresh hl)
    rw [historyOf_conn hl, hh]
    rfl

/-- The history of an `Rpc` only grows. -/
theorem historyOf_grows (hr : Reachable (server μ cfg) s) (hs : (server μ cfg).Step s a s') :
    historyOf r s <+: historyOf r s' := by
  cases hl : conn s r with
  | none =>
    have hc : s.cells[r]? = none := by simpa [conn] using hl
    simp [historyOf, hc]
  | some l =>
    obtain ⟨l', hl', ⟨-, rfl⟩ | ⟨b, -, hm⟩⟩ := moved_or_eq hr hs hl
    · rw [historyOf_conn hl, historyOf_conn hl']
    · obtain ⟨acts, h⟩ := history_grows hm
      rw [historyOf_conn hl, historyOf_conn hl', h]
      exact List.prefix_append _ _

/-- **Of the completions an `Rpc` sees those delivered to it.** -/
theorem observe_step {β : Type} {f : Act μ → Option β} (hf : ∀ a, isCompletion a = false → f a = none)
    (hr : Reachable (server μ cfg) s) (hs : (server μ cfg).Step s a s') :
    (historyOf r s').filterMap f = (historyOf r s).filterMap f ++ (completionFor r a).filterMap f := by
  cases hl : conn s r with
  | none =>
    have hc : s.cells[r]? = none := by simpa [conn] using hl
    have hnone : completionFor r a = [] := by
      cases a with
      | deliver r' t ok m =>
        refine if_neg ?_
        rintro rfl
        have hstep : Model.Server.step cfg s (.deliver r' t ok m) = some (.ok s') := hs
        simp [Model.Server.step, hc] at hstep
      | _ => rfl
    have h0 : historyOf r s = [] := by simp [historyOf, hc]
    rw [hnone, h0]
    cases hl' : conn s' r with
    | none =>
      have hc' : s'.cells[r]? = none := by simpa [conn] using hl'
      simp [historyOf, hc']
    | some l' =>
      obtain ⟨ty, hh⟩ := fresh_history ((components μ cfg).step_new _ _ _ hr hs _ hl _ hl')
      rw [historyOf_conn hl', hh]
      simp [hf (.start .asyncNotifyWhenDone) rfl, hf (.start (.requestAsync ty)) rfl]
  | some l =>
    have hinv := invariant_of_walk (walks_of_reachable hr hl)
    obtain ⟨l', hl', ⟨hb, rfl⟩ | ⟨b, hb, hm⟩⟩ := moved_or_eq hr hs hl
    · rw [historyOf_conn hl, historyOf_conn hl', completionFor_eq (s := s), hb]
      exact (List.append_nil _).symm
    · rw [historyOf_conn hl, historyOf_conn hl', completionFor_eq (s := s), hb]
      have hwriter : ∀ {l l' : Conn μ}, WriterMoved l l' →
          l'.cell.history.filterMap f = l.cell.history.filterMap f ++ [] := fun hw =>
        (hw.observe fun a ha => hf a (by cases a <;> simp_all [byWriter, isCompletion])).trans
          (List.append_nil _).symm
      cases hm.kind with
      | delivered hd => exact List.filterMap_append
      | @handled sd script e rest c' hi hh =>
        refine (observe_handled (fun a ha => hf a ?_) hinv hi hh).trans ?_
        · cases a <;> simp_all [inHandler, isCompletion]
        · cases e <;> simp [eventActs, completionOf, hf (.handle _ _) rfl]
      | locked hw => exact hwriter hw
      | stepped hw => exact hwriter hw

end Server

/-! ### What an `Rpc` sends -/

section Sends
variable {s : State μ} {c : Cell μ} {h h' : List (Act μ)} {op : Op μ}

theorem sentOps_mono (hh : h <+: h') : sentOps h <+: sentOps h' := hh.filterMap sentAct

theorem responses_mono (hh : h <+: h') : responses h <+: responses h' := content_mono (sentOps_mono hh)

theorem finishOp_mono (hh : h <+: h') (hop : finishOp h = some op) : finishOp h' = some op :=
  closing_mono (sentOps_mono hh) hop

/-- Nothing is added to the responses of a call that was finished. -/
theorem responses_of_finished (hh : h <+: h') (hop : finishOp h ≠ none) : responses h' = responses h :=
  content_of_closed (sentOps_mono hh) hop

/-- The messages that a handler has given, up to the first item without one. -/
def given (items : List (SendItem μ)) : List μ := content (·.msg) items

/-- The item with which a handler ends a stream of responses. -/
def verdict (items : List (SendItem μ)) : Option (SendItem μ) := closing (·.msg) items

theorem writtenMsg_opOf {ty : RpcType} (ht : responseStreaming ty = true) (item : SendItem μ) :
    writtenMsg (opOf ty item) = item.msg := by
  unfold opOf
  rw [ht]
  cases item.msg <;> rfl

theorem statusOf_opOf {ty : RpcType} {item : SendItem μ} (hm : item.msg = none) :
    statusOf (opOf ty item) = some item.status := by
  unfold opOf
  rw [hm]
  split <;> simp_all [statusOf]

theorem verdict_msg {items : List (SendItem μ)} {item : SendItem μ} (h : verdict items = some item) :
    item.msg = none := by
  induction items with
  | nil => cases h
  | cons x items ih =>
    unfold verdict closing at h
    split_ifs at h with hx
    · exact ih h
    · cases h
      simpa using hx

/-- **What was sent of a stream of responses.** It is what the handler gave, from the first message on, and
all of it once the call was finished, with the status of the item that ended the stream. -/
theorem responses_eq (hs : Reachable (server μ cfg) s) (hc : s.cells[r]? = some c)
    (ht : responseStreaming c.rpc.rpcHandlerInfo.rpcType = true) :
    responses c.history <+: given (enqueued c.history) ∧
      ∀ op, finishOp c.history = some op → responses c.history = given (enqueued c.history) ∧
        ∃ item, verdict (enqueued c.history) = some item ∧ statusOf op = some item.status := by
  obtain ⟨sent, h1, h2⟩ := inOrder_of_walk (walks_of_reachable hs (conn_of_cell hc))
  replace h1 : enqueued c.history = sent ++ c.rpc.sendQueue := h1
  replace h2 : sentOps c.history = sent.map (opOf c.rpc.rpcHandlerInfo.rpcType) := h2
  have hfun : (fun item : SendItem μ => writtenMsg (opOf c.rpc.rpcHandlerInfo.rpcType item)) =
      (·.msg) := funext (writtenMsg_opOf ht)
  have hsent : sent <+: enqueued c.history := h1 ▸ List.prefix_append _ _
  have hresp : responses c.history = given sent := by
    unfold responses given
    rw [h2, content_map, hfun]
  refine ⟨hresp ▸ content_mono hsent, fun op hop => ?_⟩
  unfold finishOp at hop
  rw [h2, closing_map, hfun] at hop
  obtain ⟨item, hitem, rfl⟩ := Option.map_eq_some_iff.mp hop
  refine ⟨hresp.trans (content_of_closed hsent (by rw [hitem]; simp)).symm, item,
    closing_mono hsent hitem, statusOf_opOf (verdict_msg hitem)⟩

/-- **The one response of a call without a stream** is the first item that was enqueued. -/
theorem finishOp_eq (hs : Reachable (server μ cfg) s) (hc : s.cells[r]? = some c)
    (ht : responseStreaming c.rpc.rpcHandlerInfo.rpcType = false)
    (hop : finishOp c.history = some op) : ∃ item, (enqueued c.history).head? = some item ∧
      op = opOf c.rpc.rpcHandlerInfo.rpcType item := by
  obtain ⟨sent, h1, h2⟩ := inOrder_of_walk (walks_of_reachable hs (conn_of_cell hc))
  replace h1 : enqueued c.history = sent ++ c.rpc.sendQueue := h1
  replace h2 : sentOps c.history = sent.map (opOf c.rpc.rpcHandlerInfo.rpcType) := h2
  unfold finishOp at hop
  rw [h2] at hop
  cases sent with
  | nil => cases hop
  | cons item sent =>
    refine ⟨item, by rw [h1]; rfl, ?_⟩
    have hno : writtenMsg (opOf c.rpc.rpcHandlerInfo.rpcType item) = none := by
      unfold opOf
      rw [ht]
      cases item.msg <;> rfl
    simpa [closing, hno] using hop.symm

/-- The item that the call is finished with: the first one without a message, or the first one at all where
there is one response. -/
def concluding (ty : RpcType) (items : List (SendItem μ)) : Option (SendItem μ) :=
  if responseStreaming ty then verdict items else items.head?

theorem concluding_eq (hs : Reachable (server μ cfg) s) (hc : s.cells[r]? = some c)
    (hop : finishOp c.history = some op) :
    ∃ item, concluding c.rpc.rpcHandlerInfo.rpcType (enqueued c.history) = some item ∧
      statusOf op = some item.status := by
  unfold concluding
  cases ht : responseStreaming c.rpc.rpcHandlerInfo.rpcType with
  | true => exact ((responses_eq hs hc ht).2 op hop).2
  | false =>
    obtain ⟨item, hitem, rfl⟩ := finishOp_eq hs hc ht hop
    refine ⟨item, hitem, ?_⟩
    unfold opOf
    rw [ht]
    cases item.msg <;> rfl

end Sends

end AsyncGrpc.EndToEnd.Wire
