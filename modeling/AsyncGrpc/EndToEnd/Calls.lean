import AsyncGrpc.Client.Sessions
import AsyncGrpc.EndToEnd.Wire

/-! # Calls from end to end

What a client is told of what a handler did, and a handler of what a client did, in every interleaving of
the two and of the rest of the server, given what gRPC carries between them (`EndToEnd.Wire`).

* `streaming_call`: the callbacks of an `AsyncClient<SERVER_STREAMING>` pass on the messages that the handler
  gave, in order and none twice, and where nothing breaks all of them before the last callback, which is
  told `OK` whatever status the handler gave.
* `unary_call`: the callback of an `AsyncClient<NORMAL_RPC>` is told the first thing the handler sent.
* `request_stream`: `OnRequest` gets the requests that the stream of the client accepted, in order, and all
  of them before `OnReadsDone` unless the call was finished, and `StreamFinish` returns the status that the
  handler finished the call with. -/

namespace AsyncGrpc.EndToEnd.Calls

open AsyncGrpc.Lib.Runs AsyncGrpc.Lib.Links
open AsyncGrpc.Model.Types AsyncGrpc.Model.Service AsyncGrpc.Model.Server
open AsyncGrpc.Model.AsyncClient AsyncGrpc.Model.BlockingClient
open AsyncGrpc.Single.Machine AsyncGrpc.Single.Moves AsyncGrpc.Single.Project
open AsyncGrpc.Single.Lifecycle AsyncGrpc.Single.Ledger AsyncGrpc.Single.Buffers
open AsyncGrpc.Service.Callbacks AsyncGrpc.EndToEnd.Wire
open AsyncGrpc.Client.Sessions (CreatesIfNeeded)
open AsyncGrpc.Client.Streaming (callbacks holding holding_pos holding_start holding_complete Stage
  stage_of_reachable Told Delivered delivered_step delivered_of_run StartSucceeds FinishDelivered
  lastStatus At UnaryStage unaryStage_of_reachable)

variable {μ : Type} {cfg : Config} {r : ℕ} {request : μ}

/-! ### The request -/

/-- The only request of the client is the one that the `Rpc` got with its connection. -/
theorem requested_of_run [DecidableEq μ] {τ β δ : Type} {B : Machine τ β δ} {s : State μ} {t : τ}
    {as : List (Action μ ⊕ β)} (hr : Run (beside (server μ cfg) B) as (s, t))
    (hk : Keeps (beside (server μ cfg) B) (carriesRequest r request) as) :
    ∀ m ∈ requested (historyOf r s), m = request := by
  have hf : ∀ a : Act μ, isCompletion a = false → requestedAct a = none := by
    intro a ha
    cases a <;> simp_all [isCompletion, requestedAct]
  refine inv_of_beside (I := fun s _ => ∀ m ∈ requested (historyOf r s), m = request) ?_ ?_ ?_ hr hk
  · intro m hm
    obtain ⟨a, ha, hreq⟩ := List.mem_filterMap.mp hm
    have hno : ∀ a ∈ historyOf r (server μ cfg).init, (!isCompletion a) = true :=
      List.all_eq_true.mp historyOf_init
    rw [hf a (by simpa using hno a ha)] at hreq
    cases hreq
  · intro s t a s' hs _ hi hg hstep m hm
    unfold requested at hm
    rw [observe_step hf hs hstep, List.mem_append] at hm
    rcases hm with hm | hm
    · exact hi m hm
    · cases a with
      | deliver r' tag ok m' =>
        by_cases hr : r' = r
        · cases tag <;> cases ok <;> simp [completionFor, hr, requestedAct] at hm
          subst hm
          simpa [carriesRequest, hr] using hg
        · simp [completionFor, hr] at hm
      | _ => simp [completionFor] at hm
  · exact fun _ _ _ _ _ _ hi _ _ => hi

/-- Where requests are not streamed, the handler sees the request of the connection and no other. -/
theorem passed_unary {s : State μ} {c : Cell μ} (hs : Reachable (server μ cfg) s)
    (hc : s.cells[r]? = some c) (ht : requestStreaming c.rpc.rpcHandlerInfo.rpcType = false)
    (hreq : ∀ m ∈ requested c.history, m = request) :
    passed c.history = [] ∨ passed c.history = [some request] := by
  have hconv : Conversed c := conversed_of_walk (walks_of_reachable hs (conn_of_cell hc))
  have hpass := observe_conversation (f := passedAct)
    (fun a ha => by unfold conversationAct at ha; split at ha <;> simp_all [passedAct]) c.history
  cases hh : c.rpc.handler with
  | false =>
    rw [hconv.silent hh] at hpass
    exact Or.inl hpass.symm
  | true =>
    obtain ⟨m, hm, hcv⟩ := hconv.unary hh ht
    obtain rfl := hreq m (by rw [hm]; simp)
    rw [hcv] at hpass
    exact Or.inr hpass.symm

/-! ### `AsyncClient<SERVER_STREAMING>` -/

section Streaming
variable {c c' : Client μ} {a : ClientAction μ}

/-- The client waits for the first `Read`, for the next one, or for its callback. -/
def Waiting (c : Client μ) : Prop :=
  c.position = .idle ∧ (c.ops = holding (some .write) ∨ c.ops = holding (some .read)) ∨
    c.position = .inCallback .read

/-- The ways a streaming client makes a step. -/
inductive Took (c : Client μ) : ClientAction μ → Client μ → Prop
  | started {c' : Client μ} {m : μ} {st : Status} (hw : Waiting c')
      (hr : Client.Streaming.received c'.history = Client.Streaming.received c.history) :
      Took c (.complete .write true m st) c'
  | refused {c' : Client μ} {m : μ} {st : Status}
      (hr : Client.Streaming.received c'.history = Client.Streaming.received c.history) :
      Took c (.complete .write false m st) c'
  | passes {c' : Client μ} {m : μ} {st : Status} (hw : Waiting c')
      (hr : Client.Streaming.received c'.history = Client.Streaming.received c.history ++ [m]) :
      Took c (.complete .read true m st) c'
  | drained {c' : Client μ} {m : μ} {st : Status}
      (hr : Client.Streaming.received c'.history = Client.Streaming.received c.history) :
      Took c (.complete .read false m st) c'
  | finished {c' : Client μ} {ok : Bool} {m : μ} {st : Status} (hw : ¬ Waiting c)
      (hr : Client.Streaming.received c'.history = Client.Streaming.received c.history) :
      Took c (.complete .finish ok m st) c'
  | returned {c' : Client μ} (hw : Waiting c → Waiting c')
      (hr : Client.Streaming.received c'.history = Client.Streaming.received c.history) :
      Took c .callbackReturns c'

theorem ops_of_inCallback {e : ClientEvent} (h : Stage c) (hp : c.position = .inCallback e) :
    c.ops = holding none := by
  cases h <;> first | exact At.ops ‹_› | cases (At.position ‹_›).symm.trans hp

/-- What a `Read` or `Finish` that is started adds to nothing outstanding. -/
theorem ops_startOp {e : ClientEvent} (h : c.ops = holding none) :
    (startOp e c).ops = holding (some e) := by
  rw [← holding_start, ← h]
  rfl

theorem ops_complete {e : ClientEvent} (ok : Bool) (m : μ) (st : Status)
    (h : c.ops = holding (some e)) : (complete e ok m st c).ops = holding none := by
  rw [← holding_complete, ← h]
  rfl

theorem read_eq_ok (hr : c.responseReader = true) (h : Streaming.read c = .ok c') :
    c' = startOp .read c := by
  rw [Streaming.read, if_pos hr] at h
  exact (Except.ok.inj h).symm

theorem finish_eq_ok {st : Status} (hr : c.responseReader = true) (h : Streaming.finish st c = .ok c') :
    c' = startOp .finish { c with finishStatus := st } := by
  rw [Streaming.finish, if_pos hr] at h
  exact (Except.ok.inj h).symm

theorem took_write {ok : Bool} {m : μ} {st : Status} (hr : c.responseReader = true)
    (hp : c.position = .idle) (ho : c.ops = holding (some .write))
    (h : Streaming.handleWriteEvent (complete .write ok m st c) = .ok c') :
    Took c (.complete .write ok m st) c' := by
  cases ok with
  | true =>
    replace h : Streaming.read (complete .write true m st c) = .ok c' := h
    obtain rfl := read_eq_ok (c := complete .write true m st c) hr h
    refine .started (.inl ⟨hp, .inr (ops_startOp (ops_complete _ _ _ ho))⟩) ?_
    simp [startOp, complete, Client.Streaming.received, Client.Streaming.receivedAct,
      List.filterMap_cons]
  | false =>
    refine .refused ?_
    replace h : (if c.callback then _ else Streaming.finish Streaming.writeFailed
      (complete .write false m st c)) = Except.ok c' := h
    split_ifs at h
    · cases h
      simp [invoke, complete, Client.Streaming.received, Client.Streaming.receivedAct,
      List.filterMap_cons]
    · obtain rfl := finish_eq_ok (c := complete .write false m st c) hr h
      simp [startOp, complete, Client.Streaming.received, Client.Streaming.receivedAct,
      List.filterMap_cons]

theorem took_read {ok : Bool} {m : μ} {st : Status} (hr : c.responseReader = true)
    (hp : c.position = .idle) (ho : c.ops = holding (some .read))
    (h : Streaming.handleReadEvent (Streaming.store .read ok m st (complete .read ok m st c)) = .ok c') :
    Took c (.complete .read ok m st) c' := by
  cases ok with
  | true =>
    replace h : (if c.callback then _ else Streaming.read
      { complete .read true m st c with response := m }) = Except.ok c' := h
    split_ifs at h
    · cases h
      refine .passes (.inr rfl) ?_
      simp [invoke, Streaming.store, complete, Client.Streaming.received, Client.Streaming.receivedAct,
      List.filterMap_cons]
    · obtain rfl := read_eq_ok (c := { complete .read true m st c with response := m }) hr h
      refine .passes (.inl ⟨hp, .inr (ops_startOp ?_)⟩) ?_
      · exact ops_complete true m st ho
      · simp [startOp, complete, Client.Streaming.received, Client.Streaming.receivedAct,
      List.filterMap_cons]
  | false =>
    replace h : Streaming.finish .OK (complete .read false m st c) = .ok c' := h
    obtain rfl := finish_eq_ok (c := complete .read false m st c) hr h
    refine .drained ?_
    simp [startOp, complete, Client.Streaming.received, Client.Streaming.receivedAct,
      List.filterMap_cons]

theorem took_finish {ok : Bool} {m : μ} {st : Status} (hp : c.position = .idle)
    (ho : c.ops = holding (some .finish))
    (h : Streaming.handleFinishEvent (Streaming.store .finish ok m st (complete .finish ok m st c)) = c') :
    Took c (.complete .finish ok m st) c' := by
  refine .finished ?_ ?_
  · rintro (⟨-, hw | hw⟩ | hw)
    · cases congrFun (hw.symm.trans ho) .write
    · cases congrFun (hw.symm.trans ho) .read
    · cases hp.symm.trans hw
  · rw [← h]
    unfold Streaming.handleFinishEvent
    split_ifs <;> simp [invoke, Streaming.store, complete, Client.Streaming.received,
      Client.Streaming.receivedAct, List.filterMap_cons]

theorem took_returned {e : ClientEvent} (hr : c.responseReader = true) (hp : c.position = .inCallback e)
    (ho : c.ops = holding none)
    (h : Streaming.afterCallback e { c with position := .idle, history := c.history ++ [.returned] } =
      .ok c') : Took c .callbackReturns c' := by
  cases e with
  | write =>
    refine .returned ?_ ?_
    · rintro (⟨hi, -⟩ | hi)
      · cases hp.symm.trans hi
      · cases hp.symm.trans hi
    · obtain rfl := finish_eq_ok (c := { c with
        position := .idle, history := c.history ++ [.returned], callback := false }) hr h
      simp [startOp, Client.Streaming.received, Client.Streaming.receivedAct,
      List.filterMap_cons]
  | read =>
    have hc' : ∃ d : Client μ, c' = startOp .read d ∧ d.ops = c.ops ∧ d.position = .idle ∧
        d.history = c.history ++ [.returned] := by
      rw [Streaming.afterCallback] at h
      refine ⟨_, read_eq_ok ?_ h, ?_⟩
      · split_ifs <;> exact hr
      · split_ifs <;> exact ⟨rfl, rfl, rfl⟩
    obtain ⟨d, rfl, h1, h2, h3⟩ := hc'
    refine .returned (fun _ => .inl ⟨h2, .inr (ops_startOp (h1.trans ho))⟩) ?_
    simp [startOp, h3, Client.Streaming.received, Client.Streaming.receivedAct,
      List.filterMap_cons]
  | finish =>
    refine .returned ?_ ?_
    · rintro (⟨hi, -⟩ | hi)
      · cases hp.symm.trans hi
      · cases hp.symm.trans hi
    · cases h
      simp [Client.Streaming.received, Client.Streaming.receivedAct,
      List.filterMap_cons]

/-- **The steps of a streaming client.** -/
theorem took_of_step [Inhabited μ] (h : Stage c) (hs : (streaming μ true).Step c a c') :
    Took c a c' := by
  have hr : c.responseReader = true := by cases h <;> exact At.reader ‹_›
  replace hs : Model.AsyncClient.step Streaming.store Streaming.handleEvent Streaming.afterCallback
    c a = some (.ok c') := hs
  cases a with
  | complete e ok m st =>
    simp only [Model.AsyncClient.step, Option.ite_none_right_eq_some, Option.some.injEq] at hs
    obtain ⟨⟨hp, hop⟩, hs⟩ := hs
    obtain ⟨o, ho⟩ : ∃ o, c.ops = holding o := by cases h <;> exact ⟨_, At.ops ‹_›⟩
    rw [ho] at hop
    obtain rfl := holding_pos hop
    cases e with
    | write => exact took_write hr hp ho hs
    | read => exact took_read hr hp ho hs
    | finish => exact took_finish hp ho (Except.ok.inj hs)
  | callbackReturns =>
    cases hp : c.position with
    | idle => simp [Model.AsyncClient.step, hp] at hs
    | inCallback e =>
      simp only [Model.AsyncClient.step, hp, Option.some.injEq] at hs
      exact took_returned hr hp (ops_of_inCallback h hp) hs

variable [Inhabited μ] {s s' : State μ} {t t' : Client μ}

/-- What the client has received are the responses that were written first. -/
def Got (r : ℕ) (s : State μ) (t : Client μ) : Prop :=
  Client.Streaming.received t.history <+: responses (historyOf r s)

/-- Where nothing breaks: the client has received all responses once it has stopped to read. -/
structure Carried (r : ℕ) (s : State μ) (t : Client μ) : Prop where
  got : Got r s t
  kept : Delivered t
  drained : Waiting t ∨ finishOp (historyOf r s) ≠ none ∧
    Client.Streaming.received t.history = responses (historyOf r s)

omit [Inhabited μ] in
theorem Got.grows (h : Got r s t) (hh : historyOf r s <+: historyOf r s') : Got r s' t :=
  h.trans (responses_mono hh)

theorem Got.step [DecidableEq μ] {a : ClientAction μ} (h : Got r s t) (hst : Stage t)
    (hg : carriesResponses r (s, t) (.inr a) = true) (hs : (streaming μ true).Step t a t') :
    Got r s t' := by
  unfold Got
  cases took_of_step hst hs with
  | started _ hr | refused hr | drained hr | finished _ hr | returned _ hr => exact hr ▸ h
  | passes _ hr =>
    rw [hr]
    exact prefix_snoc h (by simpa [carriesResponses] using hg)

theorem carried_init : Carried r (server μ cfg).init (streaming μ true).init where
  got := List.nil_prefix
  kept := delivered_of_run Run.init (along_nil _) (along_nil _)
  drained := .inl (.inl ⟨rfl, .inl (holding_start _)⟩)

/-- What the client has received, as long as gRPC carries the responses in their order. -/
theorem got_of_run [DecidableEq μ] {as : List (Action μ ⊕ ClientAction μ)}
    (hr : Run (streamingCall μ cfg) as (s, t))
    (hk : Keeps (streamingCall μ cfg) (carriesResponses r) as) : Got r s t :=
  inv_of_beside (A := server μ cfg) (B := streaming μ true) (I := Got r) carried_init.got
    (fun _ _ _ _ hs _ hi _ hstep => hi.grows (historyOf_grows hs hstep))
    (fun _ _ _ _ _ ht hi hg hstep => hi.step (stage_of_reachable ht) hg hstep) hr hk

omit [Inhabited μ] in
theorem Carried.grows (h : Carried r s t) (hh : historyOf r s <+: historyOf r s') : Carried r s' t where
  got := h.got.grows hh
  kept := h.kept
  drained := by
    refine h.drained.imp_right fun ⟨hop, hall⟩ => ?_
    obtain ⟨op, hop'⟩ := Option.ne_none_iff_exists'.mp hop
    exact ⟨by rw [finishOp_mono hh hop']; simp, hall.trans (responses_of_finished hh hop).symm⟩

theorem Carried.step [DecidableEq μ] {a : ClientAction μ} (h : Carried r s t) (hst : Stage t)
    (hg : carriesResponses r (s, t) (.inr a) = true) (he : endsResponses r (s, t) (.inr a) = true)
    (hc : completes (s, t) (.inr a) = true) (hs : (streaming μ true).Step t a t') : Carried r s t' := by
  have hkept : Delivered t' := by
    refine delivered_step h.kept hst hs ?_ ?_
    · cases a with
      | complete e ok m st => cases e <;> simp_all [StartSucceeds, completes]
      | callbackReturns => trivial
    · cases a with
      | complete e ok m st => cases e <;> simp_all [FinishDelivered, completes]
      | callbackReturns => trivial
  refine ⟨h.got.step hst hg hs, hkept, ?_⟩
  cases took_of_step hst hs with
  | started hw => exact .inl hw
  | refused => cases hc
  | passes hw => exact .inl hw
  | drained hr =>
    rw [hr]
    obtain ⟨hop, hlen⟩ : (finishOp (historyOf r s)).isSome = true ∧ (responses (historyOf r s)).length =
        (Client.Streaming.received t.history).length := by
      simpa [endsResponses] using he
    exact .inr ⟨Option.isSome_iff_ne_none.mp hop, h.got.eq_of_length hlen.symm⟩
  | finished hw hr =>
    rw [hr]
    exact .inr (h.drained.resolve_left hw)
  | returned hw hr =>
    rw [hr]
    exact h.drained.imp_left hw

/-- What the client has received when nothing breaks. -/
theorem carried_of_run [DecidableEq μ] {as : List (Action μ ⊕ ClientAction μ)}
    (hr : Run (streamingCall μ cfg) as (s, t))
    (hk : Keeps (streamingCall μ cfg) (carriesResponses r) as)
    (he : Keeps (streamingCall μ cfg) (endsResponses r) as)
    (hc : Keeps (streamingCall μ cfg) completes as) : Carried r s t := by
  refine inv_of_beside (I := Carried r) carried_init
    (fun _ _ _ _ hs _ hi _ hstep => hi.grows (historyOf_grows hs hstep))
    (fun _ _ _ _ _ ht hi hg hstep => ?_) hr ((hk.and he).and hc)
  simp only [Bool.and_eq_true] at hg
  exact hi.step (stage_of_reachable ht) hg.1.1 hg.1.2 hg.2 hstep

omit [Inhabited μ] in
theorem eq_of_holding {o : Option ClientEvent} {e : ClientEvent} (h : holding o = holding (some e)) :
    o = some e :=
  holding_pos (by rw [h]; simp [holding])

omit [Inhabited μ] in
theorem not_waiting {p : Position} {o : Option ClientEvent} {cb : Bool} (h : At t p o cb)
    (hp : p ≠ .inCallback .read) (hw : o ≠ some .write) (hr : o ≠ some .read) : ¬ Waiting t := by
  rintro (⟨-, ho | ho⟩ | hi)
  · exact hw (eq_of_holding (h.ops.symm.trans ho))
  · exact hr (eq_of_holding (h.ops.symm.trans ho))
  · exact hp (h.position.symm.trans hi)

omit [Inhabited μ] in
/-- A call that could not be started is not one that is kept. -/
theorem Delivered.not_refused {p : Position} {o : Option ClientEvent} {cb : Bool} (hd : Delivered t)
    (h : At t p o cb) (hw : t.ok .write = false) (ho : o ≠ some .write) : False := by
  rcases hd.started with hok | ⟨-, hops⟩
  · cases hw.symm.trans hok
  · exact ho (eq_of_holding (h.ops.symm.trans hops))

omit [Inhabited μ] in
/-- The callbacks of a client: its responses, and at most one more, after which it does not wait. -/
theorem callbacks_of_stage (h : Stage t) : ∃ last,
    callbacks t.history = (Client.Streaming.received t.history).map (fun m => (.OK, some m)) ++ last ∧
      (last = [] ∨ (∃ st, last = [(st, none)]) ∧ ¬ Waiting t ∧
        (Delivered t → last = [(.OK, none)])) := by
  have hlast : ∀ {b : Bool}, Told t.history b [(lastStatus t, none)] [t.finishStatus] → Delivered t →
      [(lastStatus t, (none : Option μ))] = [(.OK, none)] := by
    intro b ht hd
    have hok : t.ok .finish = true := hd.finished (by rw [ht.ended]; simp)
    rw [lastStatus, if_pos hok]
  cases h with
  | starting h ht => exact ⟨[], ht.passed, .inl rfl⟩
  | refusing h hw ht =>
    exact ⟨_, ht.passed, .inr ⟨⟨_, rfl⟩, not_waiting h (by simp) (by simp) (by simp),
      fun hd => (Delivered.not_refused hd h hw (by simp)).elim⟩⟩
  | refused h hw ht =>
    exact ⟨_, ht.passed, .inr ⟨⟨_, rfl⟩, not_waiting h (by simp) (by simp) (by simp),
      fun hd => (Delivered.not_refused hd h hw (by simp)).elim⟩⟩
  | reading h ht => exact ⟨[], ht.passed, .inl rfl⟩
  | passing h hr ht => exact ⟨[], ht.passed, .inl rfl⟩
  | finishing h ht => exact ⟨[], ht.passed, .inl rfl⟩
  | ending h ht =>
    exact ⟨_, ht.passed, .inr ⟨⟨_, rfl⟩, not_waiting h (by simp) (by simp) (by simp), hlast ht⟩⟩
  | ended h hst ht =>
    refine ⟨_, ht.passed, .inr ⟨⟨_, rfl⟩, not_waiting h (by simp) (by simp) (by simp), fun hd => ?_⟩⟩
    rcases hst with hw | rfl
    · exact (Delivered.not_refused hd h hw (by simp)).elim
    · exact hlast ht hd

/-- **A stream of responses from end to end.**
If gRPC carries the request of the client, the handler gets this request and no other. If gRPC carries the
responses in their order, the callbacks of the client pass on, with `OK`, messages that the handler gave,
from the first one on, in order and none twice, and at most one more callback follows. If moreover a `Read`
fails only after all of them, the call is started and its `Finish` succeeds, then the last callback comes
when the handler has ended the stream and all its messages have been passed on, and it is told `OK` whatever
status the handler gave. -/
theorem streaming_call [DecidableEq μ] {c : Cell μ} {as : List (Action μ ⊕ ClientAction μ)}
    (hr : Run (streamingCall μ cfg) as (s, t)) (hc : s.cells[r]? = some c)
    (hty : c.rpc.rpcHandlerInfo.rpcType = .serverStreaming) :
    (∀ request, Keeps (streamingCall μ cfg) (carriesRequest r request) as →
      passed c.history = [] ∨ passed c.history = [some request]) ∧
      (Keeps (streamingCall μ cfg) (carriesResponses r) as →
        ∃ ms last, callbacks t.history = ms.map (fun m => (.OK, some m)) ++ last ∧
          ms <+: given (enqueued c.history) ∧ (last = [] ∨ ∃ st, last = [(st, none)]) ∧
          (Keeps (streamingCall μ cfg) (endsResponses r) as → Keeps (streamingCall μ cfg) completes as →
            last ≠ [] → last = [(.OK, none)] ∧ ms = given (enqueued c.history) ∧
              verdict (enqueued c.history) ≠ none)) := by
  obtain ⟨hs, ht⟩ := reachable_of_beside hr.reachable
  replace hs : Reachable (server μ cfg) s := hs
  refine ⟨fun request hk => ?_, fun hk => ?_⟩
  · have hreq := requested_of_run hr hk
    rw [historyOf_eq hc] at hreq
    exact passed_unary hs hc (by rw [hty]; rfl) hreq
  · obtain ⟨hresp, hfin⟩ := responses_eq hs hc (by rw [hty]; rfl)
    obtain ⟨last, hcb, hlast⟩ := callbacks_of_stage (stage_of_reachable ht)
    have hgot := got_of_run hr hk
    rw [Got, historyOf_eq hc] at hgot
    refine ⟨_, last, hcb, hgot.trans hresp, hlast.imp_right (·.1), fun he hcomp hne => ?_⟩
    obtain ⟨-, hkept, hdrained⟩ := carried_of_run hr hk he hcomp
    rw [historyOf_eq hc] at hdrained
    obtain ⟨-, hw, hok⟩ := hlast.resolve_left hne
    obtain ⟨hop, hall⟩ := hdrained.resolve_left hw
    obtain ⟨op, hop⟩ := Option.ne_none_iff_exists'.mp hop
    obtain ⟨heq, item, hitem, -⟩ := hfin op hop
    exact ⟨hok hkept, hall.trans heq, by rw [hitem]; simp⟩

/-- Two responses and a call that ends with `NOT_FOUND`. -/
def twoResponses : List (Action ℕ ⊕ ClientAction ℕ) :=
  [.inl (.deliver 0 .newConnection true 7),
    .inl (.handle 0 { onRequest := [.send (some 1), .send (some 2),
      .finish ⟨.notFound, "no such map"⟩] }),
    .inl (.handle 0 {}), .inr (.complete .write true 0 .OK), .inr (.complete .read true 1 .OK),
    .inl (.handle 0 {}), .inl (.handle 0 {}), .inl (.deliver 0 .write true 0), .inl (.handle 0 {}),
    .inr .callbackReturns, .inl (.deliver 0 .write true 0), .inl (.handle 0 {}),
    .inr (.complete .read true 2 .OK), .inr .callbackReturns, .inr (.complete .read false 0 .OK),
    .inr (.complete .finish true 0 ⟨.notFound, "no such map"⟩)]

theorem streaming_call_two : ∃ (s : State ℕ) (t : Client ℕ) (c : Cell ℕ),
    Run (streamingCall ℕ (.single .serverStreaming)) twoResponses (s, t) ∧ s.cells[0]? = some c ∧
      enqueued c.history = [⟨some 1, .OK⟩, ⟨some 2, .OK⟩, ⟨none, ⟨.notFound, "no such map"⟩⟩] ∧
      passed c.history = [some 7] ∧
      callbacks t.history = [(.OK, some 1), (.OK, some 2), (.OK, none)] := by
  obtain ⟨⟨s, t⟩, hr, hp⟩ := exists_run (streamingCall ℕ (.single .serverStreaming)) twoResponses
    (fun p : State ℕ × Client ℕ => p.1.cells[0]?.any (fun c : Cell ℕ => decide (
      c.rpc.rpcHandlerInfo.rpcType = .serverStreaming ∧ enqueued c.history = [⟨some 1, .OK⟩,
        ⟨some 2, .OK⟩, ⟨none, ⟨.notFound, "no such map"⟩⟩] ∧ passed c.history ≠ [])) &&
      decide ((callbacks p.2.history).length = 3)) (by decide)
  simp only [Bool.and_eq_true, Option.any_eq_true, decide_eq_true_eq] at hp
  obtain ⟨⟨c, hc, hty, henq, hne⟩, hlen⟩ := hp
  obtain ⟨hreq, hresp⟩ := streaming_call hr hc hty
  obtain ⟨ms, last, hcb, hms, hlast, hend⟩ := hresp (keeps_of_check (by decide))
  refine ⟨s, t, c, hr, hc, henq, (hreq 7 (keeps_of_check (by decide))).resolve_left hne, ?_⟩
  have hgiven : given (enqueued c.history) = [1, 2] := by rw [henq]; rfl
  rw [hgiven] at hms hend
  have hne' : last ≠ [] := by
    rintro rfl
    have h2 := hms.length_le
    simp [hcb] at hlen h2
    omega
  obtain ⟨rfl, rfl, -⟩ := hend (keeps_of_check (by decide)) (keeps_of_check (by decide)) hne'
  exact hcb

end Streaming

/-! ### `AsyncClient<NORMAL_RPC>` -/

section Unary
variable [Inhabited μ] {s s' : State μ} {t t' : Client μ} {a : ClientAction μ}

/-- A unary client makes its callback with what gRPC stored, and no other. -/
theorem callbacks_of_step (h : UnaryStage t) (hs : (unary μ true).Step t a t') :
    callbacks t'.history = callbacks t.history ∧ a = .callbackReturns ∨
      ∃ e ok m st, a = .complete e ok m st ∧ callbacks t.history = [] ∧
        callbacks t'.history = [(st, if st.errorCode = .ok then some m else none)] := by
  replace hs : Model.AsyncClient.step Unary.store Unary.handleEvent Unary.afterCallback t a =
    some (.ok t') := hs
  cases a with
  | complete e ok m st =>
    simp only [Model.AsyncClient.step, Option.ite_none_right_eq_some, Option.some.injEq] at hs
    obtain ⟨⟨-, hop⟩, hs⟩ := hs
    cases h with
    | answered ho =>
      rw [ho] at hop
      cases holding_pos hop
    | waiting hp ho hcb hc hf =>
      rw [ho] at hop
      cases holding_pos hop
      refine .inr ⟨_, ok, m, st, rfl, hc, ?_⟩
      have ht' := Except.ok.inj hs
      rw [Unary.handleFinishEvent, if_pos (by exact hcb)] at ht'
      rw [← ht']
      refine (Client.Streaming.callbacks_snoc (t.history ++ [.complete .finish ok m st]) _).trans ?_
      rw [Client.Streaming.callbacks_snoc, hc]
      by_cases hst : st.errorCode = .ok <;>
        simp [Client.Streaming.callbackAct, Unary.store, complete, hst]
  | callbackReturns =>
    refine .inl ⟨?_, rfl⟩
    cases hp : t.position with
    | idle => simp [Model.AsyncClient.step, hp] at hs
    | inCallback e =>
      simp only [Model.AsyncClient.step, hp, Option.some.injEq] at hs
      cases hs
      simp [Client.Streaming.callbackAct]

variable [DecidableEq μ]

/-- What the callback was told with a status of the kind `p` is what the operation that finished the call
says. -/
def Answered (r : ℕ) (p : Status → Bool) (s : State μ) (t : Client μ) : Prop :=
  ∀ told ∈ callbacks t.history, p told.1 = true → (finishOp (historyOf r s)).bind toldBy = some told

theorem answered_of_run {p : Status → Bool} {as : List (Action μ ⊕ ClientAction μ)}
    (hr : Run (unaryCall μ cfg) as (s, t)) (hk : Keeps (unaryCall μ cfg) (carriesAnswers r p) as) :
    Answered r p s t := by
  refine inv_of_beside (I := Answered r p) ?_ ?_ ?_ hr hk
  · rintro told ⟨⟩
  · intro s t a s' hs _ hi _ hstep told hmem hp
    obtain ⟨op, h1, h2⟩ := Option.bind_eq_some_iff.mp (hi told hmem hp)
    rw [finishOp_mono (historyOf_grows hs hstep) h1]
    exact h2
  · intro s t a t' _ ht hi hg hstep told hmem hp
    rcases callbacks_of_step (unaryStage_of_reachable ht) hstep with
      ⟨hcb, -⟩ | ⟨e, ok, m, st, rfl, -, hcb⟩
    · exact hi told (hcb ▸ hmem) hp
    · rw [hcb, List.mem_singleton] at hmem
      subst hmem
      simpa [carriesAnswers, show p st = true from hp] using hg

/-- **A call without streams from end to end.** If gRPC carries the request of the client, the handler gets
this request and no other. The client gets at most one callback. If gRPC carries the answers with a status
of some kind, all or only those with `OK` for example, then a callback with such a status is told the status
of the first item that the handler enqueued, with its message if the status is `OK`. -/
theorem unary_call {c : Cell μ} {as : List (Action μ ⊕ ClientAction μ)}
    (hr : Run (unaryCall μ cfg) as (s, t)) (hc : s.cells[r]? = some c)
    (hty : c.rpc.rpcHandlerInfo.rpcType = .normalRpc) :
    (∀ request, Keeps (unaryCall μ cfg) (carriesRequest r request) as →
      passed c.history = [] ∨ passed c.history = [some request]) ∧
      (callbacks t.history).length ≤ 1 ∧
      ∀ p : Status → Bool, Keeps (unaryCall μ cfg) (carriesAnswers r p) as →
        ∀ told ∈ callbacks t.history, p told.1 = true →
          ∃ item, (enqueued c.history).head? = some item ∧
            told = (item.status, if item.status.errorCode = .ok then item.msg else none) := by
  obtain ⟨hs, ht⟩ := reachable_of_beside hr.reachable
  replace hs : Reachable (server μ cfg) s := hs
  refine ⟨fun request hk => ?_, ?_, fun p hk told hmem hp => ?_⟩
  · have hreq := requested_of_run hr hk
    rw [historyOf_eq hc] at hreq
    exact passed_unary hs hc (by rw [hty]; rfl) hreq
  · cases unaryStage_of_reachable ht with
    | waiting _ _ _ hcb => simp [hcb]
    | answered _ hcb => simp [hcb]
  · have hop := answered_of_run hr hk told hmem hp
    rw [historyOf_eq hc] at hop
    obtain ⟨op, h1, h2⟩ := Option.bind_eq_some_iff.mp hop
    obtain ⟨item, hitem, rfl⟩ := finishOp_eq hs hc (by rw [hty]; rfl) h1
    refine ⟨item, hitem, ?_⟩
    rw [hty] at h2
    rcases hm : item.msg with _ | m
    · simp only [opOf, hm, responseStreaming, toldBy, Option.ite_none_left_eq_some,
        Option.some.injEq] at h2
      rw [if_neg h2.1]
      exact h2.2.symm
    · simpa [opOf, hm, responseStreaming, toldBy] using h2.symm

/-- A handler that answers twice: the first answer counts. -/
def twoAnswers : List (Action ℕ ⊕ ClientAction ℕ) :=
  [.inl (.deliver 0 .newConnection true 7),
    .inl (.handle 0 { onRequest := [.send (some 1), .finish ⟨.aborted, ""⟩] }),
    .inl (.handle 0 {}), .inr (.complete .finish true 1 .OK), .inr .callbackReturns]

theorem unary_call_first : ∃ (s : State ℕ) (t : Client ℕ) (c : Cell ℕ),
    Run (unaryCall ℕ (.single .normalRpc)) twoAnswers (s, t) ∧ s.cells[0]? = some c ∧
      enqueued c.history = [⟨some 1, .OK⟩, ⟨none, ⟨.aborted, ""⟩⟩] ∧ passed c.history = [some 7] ∧
      callbacks t.history = [(.OK, some 1)] := by
  obtain ⟨⟨s, t⟩, hr, hp⟩ := exists_run (unaryCall ℕ (.single .normalRpc)) twoAnswers
    (fun p : State ℕ × Client ℕ => p.1.cells[0]?.any (fun c : Cell ℕ => decide (
      c.rpc.rpcHandlerInfo.rpcType = .normalRpc ∧
        enqueued c.history = [⟨some 1, .OK⟩, ⟨none, ⟨.aborted, ""⟩⟩] ∧ passed c.history ≠ [])) &&
      decide (callbacks p.2.history ≠ [])) (by decide)
  simp only [Bool.and_eq_true, Option.any_eq_true, decide_eq_true_eq] at hp
  obtain ⟨⟨c, hc, hty, henq, hne⟩, hcb⟩ := hp
  obtain ⟨hreq, hlen, htold⟩ := unary_call hr hc hty
  refine ⟨s, t, c, hr, hc, henq, (hreq 7 (keeps_of_check (by decide))).resolve_left hne, ?_⟩
  obtain ⟨told, hp⟩ := List.length_eq_one_iff.mp (Nat.le_antisymm hlen (List.length_pos_iff.mpr hcb))
  obtain ⟨item, hitem, rfl⟩ :=
    htold (fun _ => true) (keeps_of_check (by decide)) told (by rw [hp]; simp) rfl
  rw [henq] at hitem
  cases hitem
  exact hp

end Unary

/-! ### Streams of requests -/

section Requests
variable {M : Machine (StreamClient μ) (StreamCall μ) StreamFatal} {s s' : State μ}
  {t t' : StreamClient μ} {call : StreamCall μ}

/-- A call is recorded with what it returns; `StreamFinish` returns the status that it got. -/
theorem returns_of_step (hM : CreatesIfNeeded M) (hs : M.Step t call t') :
    ∃ ret, t'.returns = t.returns ++ [(call, ret)] ∧
      ∀ st, ret = .streamFinish st → call = .streamFinish st := by
  have hkeep : t.instantiateIfNeeded.returns = t.returns := by
    unfold StreamClient.instantiateIfNeeded
    split_ifs <;> rfl
  have hrec : ∀ ret, (t.instantiateIfNeeded.record call ret).returns = t.returns ++ [(call, ret)] :=
    fun ret => congrArg (· ++ [(call, ret)]) hkeep
  rcases hM with rfl | rfl
  · replace hs : ClientStreaming.step t call = some (.ok t') := hs
    cases call with
    | write request wantsStatus ok =>
      cases hs
      exact ⟨_, hrec _, by rintro st ⟨⟩⟩
    | streamRead ok => cases hs
    | streamWritesDone ok =>
      cases hs
      exact ⟨_, hrec _, by rintro st ⟨⟩⟩
    | streamFinish status =>
      cases hs
      exact ⟨_, hrec _, by rintro st ⟨⟩; rfl⟩
  · replace hs : BidiStreaming.step t call = some (.ok t') := hs
    cases call with
    | write request wantsStatus ok =>
      cases hs
      exact ⟨_, hrec _, by rintro st ⟨⟩⟩
    | streamRead ok =>
      cases hs
      exact ⟨_, hrec _, by rintro st ⟨⟩⟩
    | streamWritesDone ok =>
      cases hs
      exact ⟨_, hrec _, by rintro st ⟨⟩⟩
    | streamFinish status =>
      cases hs
      exact ⟨_, hrec _, by rintro st ⟨⟩; rfl⟩

theorem received_step {a : Action μ} (hs : Reachable (server μ cfg) s)
    (hstep : (server μ cfg).Step s a s') :
    received (historyOf r s') = received (historyOf r s) ++ received (completionFor r a) :=
  observe_step (fun a ha => by cases a <;> simp_all [isCompletion, receivedAct]) hs hstep

theorem deliveredOks_step {a : Action μ} (hs : Reachable (server μ cfg) s)
    (hstep : (server μ cfg).Step s a s') : deliveredOks .read (historyOf r s') =
      deliveredOks .read (historyOf r s) ++ deliveredOks .read (completionFor r a) :=
  observe_step (fun a ha => by cases a <;> simp_all [isCompletion, deliveredAct]) hs hstep

/-- What the `Rpc` has received are the requests that were accepted first. -/
def GotRequests (r : ℕ) (s : State μ) (t : StreamClient μ) : Prop :=
  received (historyOf r s) <+: accepted t

/-- Once a `Read` of the `Rpc` has failed, the call was finished, or the client is done and the `Rpc` has
all its requests. -/
structure Drained (r : ℕ) (s : State μ) (t : StreamClient μ) : Prop where
  got : GotRequests r s t
  drained : false ∈ deliveredOks .read (historyOf r s) → finishOp (historyOf r s) ≠ none ∨
    writesDone t = true ∧ received (historyOf r s) = accepted t

/-- `StreamFinish` has returned what the call was finished with. -/
def Finished (r : ℕ) (s : State μ) (t : StreamClient μ) : Prop :=
  ∀ p ∈ t.returns, ∀ st, p.2 = .streamFinish st → (finishOp (historyOf r s)).bind statusOf = some st

theorem init_returns (hM : CreatesIfNeeded M) : M.init.returns = [] := by
  rcases hM with rfl | rfl <;> rfl

theorem no_completion {β : Type} {f : Act μ → Option β} (hf : ∀ a, isCompletion a = false → f a = none) :
    (historyOf r (server μ cfg).init).filterMap f = [] := by
  have hno : ∀ a ∈ historyOf r (server μ cfg).init, (!isCompletion a) = true :=
    List.all_eq_true.mp historyOf_init
  exact List.filterMap_eq_nil_iff.mpr fun a ha => hf a (by simpa using hno a ha)

theorem gotRequests_init : GotRequests r (server μ cfg).init t := by
  have hrec : received (historyOf r (server μ cfg).init) = [] :=
    no_completion fun a ha => by cases a <;> simp_all [isCompletion, receivedAct]
  rw [GotRequests, hrec]
  exact List.nil_prefix

theorem drained_init : Drained r (server μ cfg).init t where
  got := gotRequests_init
  drained := fun hm => by
    have hoks : deliveredOks .read (historyOf r (server μ cfg).init) = [] :=
      no_completion fun a ha => by cases a <;> simp_all [isCompletion, deliveredAct]
    rw [hoks] at hm
    cases hm

/-- What a step of the server has to do with the `Read`s of the `Rpc`: nothing, or one of them completes. -/
theorem read_or_other (r : ℕ) (a : Action μ) :
    received (completionFor r a) = [] ∧ deliveredOks .read (completionFor r a) = [] ∨
      (∃ m, a = .deliver r .read true m) ∨ ∃ m, a = .deliver r .read false m := by
  cases a with
  | deliver r' tag ok m =>
    by_cases hr : r' = r
    · subst hr
      cases tag with
      | read =>
        cases ok with
        | true => exact .inr (.inl ⟨m, rfl⟩)
        | false => exact .inr (.inr ⟨m, rfl⟩)
      | _ =>
        exact .inl ⟨by simp [completionFor, received, receivedAct],
          by simp [completionFor, deliveredOks, deliveredAct]⟩
    · exact .inl ⟨by simp [completionFor, hr, received], by simp [completionFor, hr, deliveredOks]⟩
  | _ => exact .inl ⟨rfl, rfl⟩

theorem received_completion (r : ℕ) (ok : Bool) (m : μ) :
    received (completionFor r (.deliver r .read ok m)) = if ok then [m] else [] := by
  cases ok <;> simp [completionFor, received, receivedAct]

theorem deliveredOks_completion (r : ℕ) (ok : Bool) (m : μ) :
    deliveredOks .read (completionFor r (.deliver r .read ok m)) = [ok] := by
  simp [completionFor, deliveredOks, deliveredAct]

/-- What a call adds to the accepted requests. -/
theorem accepted_step (hM : CreatesIfNeeded M) (hstep : M.Step t call t') :
    ∃ ret, t'.returns = t.returns ++ [(call, ret)] ∧
      accepted t' = accepted t ++ (acceptedOf (call, ret)).toList := by
  obtain ⟨ret, hret, -⟩ := returns_of_step hM hstep
  refine ⟨ret, hret, ?_⟩
  unfold accepted
  rw [hret, List.filterMap_append]
  cases ha : acceptedOf (call, ret) <;> simp [ha]

theorem GotRequests.client (h : GotRequests r s t) (hM : CreatesIfNeeded M) (hstep : M.Step t call t') :
    GotRequests r s t' := by
  obtain ⟨ret, -, hacc⟩ := accepted_step hM hstep
  rw [GotRequests, hacc]
  exact h.trans (List.prefix_append _ _)

theorem Drained.client (h : Drained r s t) (hM : CreatesIfNeeded M)
    (hg : acceptsNoMore (s, t) (.inr call) = true) (hstep : M.Step t call t') : Drained r s t' := by
  refine ⟨h.got.client hM hstep, fun hm => (h.drained hm).imp_right fun ⟨hdone, heq⟩ => ?_⟩
  obtain ⟨ret, hret, hacc⟩ := accepted_step hM hstep
  -- nothing is accepted after `StreamWritesDone`
  have hnone : acceptedOf (call, ret) = none := by
    cases call with
    | write request wantsStatus ok =>
      cases ok with
      | true => simp [acceptsNoMore, hdone] at hg
      | false => rfl
    | _ => rfl
  rw [hacc, hnone, Option.toList_none, List.append_nil]
  refine ⟨?_, heq⟩
  unfold writesDone at hdone ⊢
  rw [hret, List.any_append, hdone, Bool.true_or]

theorem Finished.client (h : Finished r s t) (hM : CreatesIfNeeded M)
    (hg : carriesStatus r (s, t) (.inr call) = true) (hstep : M.Step t call t') : Finished r s t' := by
  obtain ⟨ret, hret, hfinish⟩ := returns_of_step hM hstep
  intro p hp st hst
  rw [hret, List.mem_append, List.mem_singleton] at hp
  rcases hp with hp | rfl
  · exact h p hp st hst
  · obtain rfl := hfinish st hst
    simpa [carriesStatus] using hg

/-- `StreamFinish` returns what the call was finished with, as long as gRPC carries the status. -/
theorem finished_of_run (hM : CreatesIfNeeded M) {as : List (Action μ ⊕ StreamCall μ)}
    (hr : Run (requestStream cfg M) as (s, t))
    (hk : Keeps (requestStream cfg M) (carriesStatus r) as) : Finished r s t := by
  refine inv_of_beside (I := Finished r) ?_ ?_ (fun _ _ _ _ _ _ hi hg hstep => hi.client hM hg hstep) hr hk
  · intro p hp
    rw [init_returns hM] at hp
    cases hp
  · intro s t a s' hs _ hi _ hstep p hp st hst
    obtain ⟨op, h1, h2⟩ := Option.bind_eq_some_iff.mp (hi p hp st hst)
    rw [finishOp_mono (historyOf_grows hs hstep) h1]
    exact h2

variable [DecidableEq μ]

theorem GotRequests.server {a : Action μ} (h : GotRequests r s t) (hs : Reachable (server μ cfg) s)
    (hg : carriesRequests r (s, t) (.inl a) = true) (hstep : (server μ cfg).Step s a s') :
    GotRequests r s' t := by
  have hrec := received_step (r := r) hs hstep
  unfold GotRequests
  rcases read_or_other r a with ⟨h1, -⟩ | ⟨m, rfl⟩ | ⟨m, rfl⟩
  · rw [hrec, h1, List.append_nil]
    exact h
  · rw [hrec, received_completion]
    exact prefix_snoc h (by simpa [carriesRequests] using hg)
  · rw [hrec, received_completion, if_neg Bool.false_ne_true, List.append_nil]
    exact h

theorem Drained.server {a : Action μ} (h : Drained r s t) (hs : Reachable (server μ cfg) s)
    (hg : carriesRequests r (s, t) (.inl a) = true) (he : endsRequests r (s, t) (.inl a) = true)
    (hstep : (server μ cfg).Step s a s') : Drained r s' t := by
  have hgot := h.got.server hs hg hstep
  have hrec := received_step (r := r) hs hstep
  have hoks := deliveredOks_step (r := r) hs hstep
  have hfin : finishOp (historyOf r s) ≠ none → finishOp (historyOf r s') ≠ none := by
    intro hne
    obtain ⟨op, hop⟩ := Option.ne_none_iff_exists'.mp hne
    rw [finishOp_mono (historyOf_grows hs hstep) hop]
    simp
  refine ⟨hgot, fun hm => ?_⟩
  rcases read_or_other r a with ⟨h1, h2⟩ | ⟨m, rfl⟩ | ⟨m, rfl⟩
  · rw [hoks, h2, List.append_nil] at hm
    rw [hrec, h1, List.append_nil]
    exact (h.drained hm).imp_left hfin
  · -- after a `Read` that failed there is no next request, unless the call was finished
    rw [hoks, deliveredOks_completion] at hm
    have hold : false ∈ deliveredOks .read (historyOf r s) := by simpa using hm
    refine .inl ((h.drained hold).elim hfin fun hdone => ?_)
    obtain ⟨-, hall⟩ := hdone
    have hnext : (accepted t)[(received (historyOf r s)).length]? = some m := by
      simpa [carriesRequests] using hg
    rw [hall] at hnext
    simp at hnext
  · have hcond : (finishOp (historyOf r s)).isSome = true ∨ writesDone t = true ∧
        (received (historyOf r s)).length = (accepted t).length := by
      simpa [endsRequests] using he
    rw [hrec, received_completion]
    refine hcond.imp (fun hop => hfin (Option.isSome_iff_ne_none.mp hop)) fun ⟨hdone, hlen⟩ => ?_
    exact ⟨hdone, by simpa using h.got.eq_of_length hlen⟩

/-- What the `Rpc` has received, as long as gRPC carries the requests in their order. -/
theorem gotRequests_of_run (hM : CreatesIfNeeded M) {as : List (Action μ ⊕ StreamCall μ)}
    (hr : Run (requestStream cfg M) as (s, t))
    (hk : Keeps (requestStream cfg M) (carriesRequests r) as) : GotRequests r s t :=
  inv_of_beside (I := GotRequests r) gotRequests_init
    (fun _ _ _ _ hs _ hi hg hstep => hi.server hs hg hstep)
    (fun _ _ _ _ _ _ hi _ hstep => hi.client hM hstep) hr hk

theorem drained_of_run (hM : CreatesIfNeeded M) {as : List (Action μ ⊕ StreamCall μ)}
    (hr : Run (requestStream cfg M) as (s, t)) (hk : Keeps (requestStream cfg M) (carriesRequests r) as)
    (he : Keeps (requestStream cfg M) (endsRequests r) as)
    (ha : Keeps (requestStream cfg M) acceptsNoMore as) : Drained r s t := by
  refine inv_of_beside (I := Drained r) drained_init (fun _ _ _ _ hs _ hi hg hstep => ?_)
    (fun _ _ _ _ _ _ hi hg hstep => ?_) hr ((hk.and he).and ha)
  · simp only [Bool.and_eq_true] at hg
    exact hi.server hs hg.1.1 hg.1.2 hstep
  · simp only [Bool.and_eq_true] at hg
    exact hi.client hM hg.2 hstep

omit [DecidableEq μ] in
/-- `OnReadsDone` is called when a `Read` has failed and all that was received has been passed on. -/
theorem drained_of_onReadsDone {c : Cell μ} (hs : Reachable (server μ cfg) s)
    (hc : s.cells[r]? = some c) (hty : requestStreaming c.rpc.rpcHandlerInfo.rpcType = true)
    (hm : .callback .onReadsDone ∈ c.history) : false ∈ deliveredOks .read c.history ∧
      passed c.history = (received c.history).map some := by
  have hwalk := walks_of_reachable hs (conn_of_cell hc)
  have hconv : Conversed c := conversed_of_walk hwalk
  have hmem : .callback .onReadsDone ∈ conversation c.history :=
    List.mem_filterMap.mpr ⟨_, hm, rfl⟩
  have hh : c.rpc.handler = true := by
    by_contra hne
    rw [hconv.silent (by simpa using hne)] at hmem
    cases hmem
  obtain ⟨ms, done, h1, hpend⟩ := hconv.streaming hh hty
  have hdone : done = true := by
    by_contra hne
    simp [h1, streamed, ended, hne] at hmem
  constructor
  · have hread : .handle .read false ∈ conversation c.history := by simp [h1, ended, hdone]
    obtain ⟨a, ha, hact⟩ := List.mem_filterMap.mp hread
    have hoks : false ∈ handledOks .read c.history := by
      refine List.mem_filterMap.mpr ⟨a, ha, ?_⟩
      unfold conversationAct at hact
      split at hact <;> simp_all [handledAct]
    have hmatch := matched_of_walk hwalk .read
    exact hmatch.symm ▸ List.mem_append_left _ hoks
  · have hfed := (buffered_of_walk hwalk).fed hty
    have hnone : waitingRequest ⟨c, pick r (s.eventQueues c.rpc.eventQueue)⟩ = [] := by
      refine if_neg fun hin => ?_
      have hp := ((invariant_of_walk hwalk).tally.of_mem hin.1).1
      cases (hpend hdone).symm.trans hp
    rw [hnone, List.append_nil] at hfed
    exact hfed.symm

/-- **A stream of requests from end to end.**
If gRPC carries the requests in their order, `OnRequest` gets requests that the stream of the client
accepted, from the first one on, in order and none twice. If moreover a `Read` fails only when the client is
done and all its requests were received, or when the call was finished, and the stream accepts nothing after
`StreamWritesDone`, then `OnReadsDone` comes when the call was finished, or when the client has called
`StreamWritesDone` and all its requests have been passed on. If gRPC carries the status, `StreamFinish`
returns that of the item with which the handler ended the call. -/
theorem request_stream {c : Cell μ} (hM : CreatesIfNeeded M) {as : List (Action μ ⊕ StreamCall μ)}
    (hr : Run (requestStream cfg M) as (s, t)) (hc : s.cells[r]? = some c)
    (hty : requestStreaming c.rpc.rpcHandlerInfo.rpcType = true) :
    (Keeps (requestStream cfg M) (carriesRequests r) as →
      passed c.history <+: (accepted t).map some ∧
        (Keeps (requestStream cfg M) (endsRequests r) as → Keeps (requestStream cfg M) acceptsNoMore as →
          .callback .onReadsDone ∈ c.history →
          finishOp c.history ≠ none ∨ writesDone t = true ∧ passed c.history = (accepted t).map some)) ∧
      (Keeps (requestStream cfg M) (carriesStatus r) as → ∀ p ∈ t.returns, ∀ st, p.2 = .streamFinish st →
        ∃ item, concluding c.rpc.rpcHandlerInfo.rpcType (enqueued c.history) = some item ∧
          item.status = st) := by
  obtain ⟨hs, -⟩ := reachable_of_beside hr.reachable
  replace hs : Reachable (server μ cfg) s := hs
  have hfed := (buffered_of_walk (walks_of_reachable hs (conn_of_cell hc))).fed hty
  refine ⟨fun hk => ⟨?_, fun he ha hm => ?_⟩, fun hk p hp st hst => ?_⟩
  · have hgot := gotRequests_of_run hM hr hk
    rw [GotRequests, historyOf_eq hc] at hgot
    have hpass : passed c.history <+: (received c.history).map some := by
      rw [hfed]
      exact List.prefix_append _ _
    exact hpass.trans (hgot.map some)
  · obtain ⟨hfail, hall⟩ := drained_of_onReadsDone hs hc hty hm
    have hdrained := (drained_of_run hM hr hk he ha).drained
    rw [historyOf_eq hc] at hdrained
    exact (hdrained hfail).imp_right fun ⟨hdone, heq⟩ => ⟨hdone, by rw [hall, heq]⟩
  · have hfinished := finished_of_run hM hr hk p hp st hst
    rw [historyOf_eq hc] at hfinished
    obtain ⟨op, h1, h2⟩ := Option.bind_eq_some_iff.mp hfinished
    obtain ⟨item, hitem, h3⟩ := concluding_eq hs hc h1
    exact ⟨item, hitem, Option.some.inj (h3.symm.trans h2)⟩

/-- Two requests, after which the client is done. -/
def twoRequests : List (Action ℕ ⊕ StreamCall ℕ) :=
  [.inr (.write 5 true true), .inl (.deliver 0 .newConnection true 0), .inl (.handle 0 {}),
    .inr (.write 6 true true), .inl (.deliver 0 .read true 5), .inr (.streamWritesDone true),
    .inl (.handle 0 {}), .inl (.deliver 0 .read true 6), .inl (.handle 0 {}),
    .inl (.deliver 0 .read false 0), .inl (.handle 0 { onReadsDone := [.finish ⟨.notFound, ""⟩] })]

/-- The handler gets both requests and answers with an error, which `StreamFinish` returns. -/
theorem request_stream_two : ∃ (s s' : State ℕ) (t t' : StreamClient ℕ) (c c' : Cell ℕ),
    Run (requestStream (.single .bidiStreaming) (bidiStreaming ℕ)) twoRequests (s, t) ∧
      s.cells[0]? = some c ∧ .callback .onReadsDone ∈ c.history ∧ passed c.history = [some 5, some 6] ∧
      Run (requestStream (.single .bidiStreaming) (bidiStreaming ℕ))
        (twoRequests ++ [.inl (.handle 0 {}), .inr (.streamFinish ⟨.notFound, ""⟩)]) (s', t') ∧
      s'.cells[0]? = some c' ∧
      ∃ item, verdict (enqueued c'.history) = some item ∧ item.status = ⟨.notFound, ""⟩ := by
  obtain ⟨⟨s, t⟩, hr, hp⟩ :=
    exists_run (requestStream (.single .bidiStreaming) (bidiStreaming ℕ)) twoRequests
      (fun p : State ℕ × StreamClient ℕ => p.1.cells[0]?.any (fun c : Cell ℕ => decide (
        c.rpc.rpcHandlerInfo.rpcType = .bidiStreaming ∧ Act.callback .onReadsDone ∈ c.history ∧
          (finishOp c.history).isNone = true)) && decide (accepted p.2 = [5, 6])) (by decide)
  obtain ⟨⟨s', t'⟩, hr', hp'⟩ :=
    exists_run (requestStream (.single .bidiStreaming) (bidiStreaming ℕ))
      (twoRequests ++ [.inl (.handle 0 {}), .inr (.streamFinish ⟨.notFound, ""⟩)])
      (fun p : State ℕ × StreamClient ℕ => p.1.cells[0]?.any (fun c : Cell ℕ => decide (
        c.rpc.rpcHandlerInfo.rpcType = .bidiStreaming)) &&
        decide (p.2.returns.getLast?.map Prod.snd = some (.streamFinish ⟨.notFound, ""⟩))) (by decide)
  simp only [Bool.and_eq_true, Option.any_eq_true, decide_eq_true_eq] at hp hp'
  obtain ⟨⟨c, hc, hty, hm, hnone⟩, hacc⟩ := hp
  obtain ⟨⟨c', hc', hty'⟩, hlast⟩ := hp'
  obtain ⟨hgot, -⟩ := request_stream (.inr rfl) hr hc (by rw [hty]; rfl)
  obtain ⟨-, hdone⟩ := hgot (keeps_of_check (by decide))
  obtain ⟨-, hfin⟩ := request_stream (.inr rfl) hr' hc' (by rw [hty']; rfl)
  have hpass := (hdone (keeps_of_check (by decide)) (keeps_of_check (by decide)) hm).resolve_left
    (not_not.mpr (Option.isNone_iff_eq_none.mp hnone))
  obtain ⟨p, hp, hp2⟩ := Option.map_eq_some_iff.mp hlast
  obtain ⟨item, hitem, hst⟩ := hfin (keeps_of_check (by decide)) p (List.mem_of_getLast? hp) _ hp2
  rw [hty'] at hitem
  exact ⟨s, s', t, t', c, c', hr, hc, hm, by rw [hpass.2, hacc]; rfl, hr', hc', item, hitem, hst⟩

end Requests

end AsyncGrpc.EndToEnd.Calls
