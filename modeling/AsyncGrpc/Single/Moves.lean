import AsyncGrpc.Lib.Runs
import AsyncGrpc.Single.Machine

/-! # What handling an event can do to an `Rpc`

`Handled sd e c c'` lists, once and for all, the ways in which a handled event `e` changes the cell
`c` of its `Rpc` when no `CHECK` fails; the handler appears only as the items it enqueues in its
callbacks. `Moved l b l'` adds the completions and the steps of `Writer` calls. `handled_of_handle`
and `moved_of_step` prove the lists complete; the invariants of the other modules are proved over
them, or over `Kind`, where the steps of `Writer` calls are one case. -/

namespace AsyncGrpc.Single.Moves

open AsyncGrpc.Lib.Runs AsyncGrpc.Model.Types AsyncGrpc.Model.Rpc AsyncGrpc.Model.Service
open AsyncGrpc.Single.Machine

variable {μ : Type}

/-! ### The effects -/

/-- The requests of the client are a stream. -/
def requestStreaming : RpcType → Bool
  | .bidiStreaming | .clientStreaming => true
  | .normalRpc | .serverStreaming => false

/-- The responses are a stream. -/
def responseStreaming : RpcType → Bool
  | .bidiStreaming | .serverStreaming => true
  | .normalRpc | .clientStreaming => false

/-- The operation that sends the item: a message of a response stream is written, everything else
finishes the call. -/
def opOf (rpcType : RpcType) (item : SendItem μ) : Op μ :=
  match item.msg, responseStreaming rpcType with
  | some m, true => .write m
  | some m, false => .finish (some m) item.status
  | none, true => .finish none item.status
  | none, false => .finishWithError item.status

/-- What the items leave in the history when the handler enqueues them. -/
def sendActs (items : List (SendItem μ)) : List (Act μ) :=
  items.flatMap fun item => [.enqueue item none, .push none]

/-- The handler enqueues the items. -/
def sends (items : List (SendItem μ)) (c : Ctx μ) : Ctx μ :=
  { c with
    rpc := { c.rpc with sendQueue := c.rpc.sendQueue ++ items }
    history := c.history ++ sendActs items
    outbox := c.outbox ++ List.replicate items.length .writeNeeded }

/-- The callback `cb`, in which the handler enqueues the items; `w` tells whether it has a `Writer`
afterwards. -/
def calledBack (cb : Callback μ) (items : List (SendItem μ)) (w : Bool) (c : Ctx μ) : Ctx μ :=
  { sends items (log (.callback cb) c) with writer := w }

/-- `Initialize` on the new handler, and the assignment of `handler_`. -/
def initialized (items : List (SendItem μ)) (w : Bool) (c : Ctx μ) : Ctx μ :=
  let c1 := calledBack .initializeHandler items w c
  { c1 with rpc := { c1.rpc with handler := true } }

/-- The handler has enqueued only while the `Rpc` is active. -/
def Sent (c : Ctx μ) (items : List (SendItem μ)) (w : Bool) : Prop :=
  (c.writer = true → w = true) ∧ ((items ≠ [] ∨ w ≠ c.writer) → c.active = true) ∧
    ∀ item ∈ items, item.msg.isSome → item.status = .OK

/-- An operation is started and its event marked as pending. -/
def begins (op : Op μ) (c : Ctx μ) : Ctx μ :=
  startOp op { c with rpc := setPending op.tag true c.rpc }

/-- The head of the send queue is handed to gRPC. -/
def issues (item : SendItem μ) (rest : List (SendItem μ)) (c : Ctx μ) : Ctx μ :=
  let c1 := { c with rpc := { c.rpc with sendQueue := rest } }
  begins (opOf c.rpc.rpcHandlerInfo.rpcType item)
    (if item.msg.isSome || !responseStreaming c.rpc.rpcHandlerInfo.rpcType then
      setResponse item.msg c1 else c1)

/-- The flags that `IsAnyEventPending` looks at. -/
def anyPending (rpc : Rpc μ) : Bool :=
  (rpc.events .done).pending || (rpc.events .read).pending || (rpc.events .write).pending ||
    (rpc.events .finish).pending

/-- `RemoveIfNotPending` as a total function. -/
def tidies (c : Ctx μ) : Ctx μ :=
  if anyPending c.rpc then use .isAnyEventPending c
  else remove .removeIfNotPending (use .isAnyEventPending c)

/-- `CompletionQueueRpcEvent::Handle` up to `HandleEvent`. -/
def pops (t : Tag) (c : Ctx μ) : Ctx μ :=
  use .service (log (.handle t (c.rpc.events t).ok) { c with rpc := setPending t false c.rpc })

/-- `InternalRpcEvent::Handle` up to `HandleEvent`. -/
def wakes (c : Ctx μ) : Ctx μ := use .service (log .wake c)

section Fields
variable (c : Ctx μ)

/-- The fields of an `Rpc` that are set when it is constructed and never assigned again. -/
def fixedPart (rpc : Rpc μ) : ℕ × ℕ × ℕ × RpcHandlerInfo × ℕ × (ReaderWriter → Bool) :=
  (rpc.methodIndex, rpc.serverCompletionQueue, rpc.eventQueue, rpc.rpcHandlerInfo, rpc.service,
    rpc.readersAndWriters)

@[simp] theorem remove_rpc (site : RemoveSite) : (remove site c).rpc = c.rpc := by
  unfold remove; split_ifs <;> rfl

@[simp] theorem remove_active (site : RemoveSite) : (remove site c).active = false := by
  unfold remove; split_ifs with h
  · rfl
  · simpa using h

@[simp] theorem remove_ops (site : RemoveSite) : (remove site c).ops = c.ops := by
  unfold remove; split_ifs <;> rfl

@[simp] theorem remove_accepted (site : RemoveSite) : (remove site c).accepted = c.accepted := by
  unfold remove; split_ifs <;> rfl

@[simp] theorem remove_writer (site : RemoveSite) : (remove site c).writer = c.writer := by
  unfold remove; split_ifs <;> rfl

@[simp] theorem remove_calls (site : RemoveSite) : (remove site c).calls = c.calls := by
  unfold remove; split_ifs <;> rfl

@[simp] theorem remove_outbox (site : RemoveSite) : (remove site c).outbox = c.outbox := by
  unfold remove; split_ifs <;> rfl

theorem remove_history (site : RemoveSite) :
    (remove site c).history = c.history ++ if c.active then [.remove site] else [] := by
  unfold remove; split_ifs
  · rfl
  · simp

@[simp] theorem tidies_rpc : (tidies c).rpc = c.rpc := by
  unfold tidies; split_ifs <;> simp [use, log]

@[simp] theorem tidies_active : (tidies c).active = (c.active && anyPending c.rpc) := by
  unfold tidies; split_ifs with h <;> simp [use, log, h]

@[simp] theorem tidies_ops : (tidies c).ops = c.ops := by
  unfold tidies; split_ifs <;> simp [use, log]

@[simp] theorem tidies_accepted : (tidies c).accepted = c.accepted := by
  unfold tidies; split_ifs <;> simp [use, log]

@[simp] theorem tidies_writer : (tidies c).writer = c.writer := by
  unfold tidies; split_ifs <;> simp [use, log]

@[simp] theorem tidies_calls : (tidies c).calls = c.calls := by
  unfold tidies; split_ifs <;> simp [use, log]

@[simp] theorem tidies_outbox : (tidies c).outbox = c.outbox := by
  unfold tidies; split_ifs <;> simp [use, log]

theorem tidies_history :
    (tidies c).history = c.history ++ .use .isAnyEventPending ::
      if c.active && !anyPending c.rpc then [.remove .removeIfNotPending] else [] := by
  unfold tidies; split_ifs with h h1 h1 <;> simp_all [use, log, remove]

theorem use_history (m : Member) : (use m c).history = c.history ++ [.use m] := rfl

theorem pops_history (t : Tag) :
    (pops t c).history = c.history ++ [.handle t (c.rpc.events t).ok, .use .service] := by
  simp [pops, use, log]

theorem wakes_history : (wakes c).history = c.history ++ [.wake, .use .service] := by
  simp [wakes, use, log]

theorem calledBack_history (cb : Callback μ) (items : List (SendItem μ)) (w : Bool) :
    (calledBack cb items w c).history = c.history ++ .callback cb :: sendActs items := by
  simp [calledBack, sends, log]

theorem initialized_history (items : List (SendItem μ)) (w : Bool) :
    (initialized items w c).history =
      c.history ++ .callback .initializeHandler :: sendActs items := by
  simp [initialized, calledBack, sends, log]

theorem begins_history (op : Op μ) : (begins op c).history = c.history ++ [.start op] := rfl

/-- Sending an item replaces the response, except when it finishes a response stream. -/
def responseActs (rpcType : RpcType) (item : SendItem μ) : List (Act μ) :=
  if item.msg.isSome || !responseStreaming rpcType then [.setResponse item.msg] else []

/-- What sending an item leaves in the history. -/
def issueActs (rpcType : RpcType) (item : SendItem μ) : List (Act μ) :=
  responseActs rpcType item ++ [.start (opOf rpcType item)]

theorem issues_history (item : SendItem μ) (rest : List (SendItem μ)) :
    (issues item rest c).history = c.history ++ issueActs c.rpc.rpcHandlerInfo.rpcType item := by
  unfold issues issueActs responseActs
  dsimp only
  rw [begins_history]
  split_ifs <;> simp [setResponse, log]

end Fields

/-! ### The relations -/

/-- `RequestStreamingReadIfNeeded`. -/
inductive Invited : Ctx μ → Ctx μ → Prop
  | streaming {c : Ctx μ} (ht : requestStreaming c.rpc.rpcHandlerInfo.rpcType = true) :
      Invited c (begins .read c)
  | unary {c : Ctx μ} {items items' : List (SendItem μ)} {w w' : Bool}
      (ht : requestStreaming c.rpc.rpcHandlerInfo.rpcType = false) (hh : c.rpc.handler = true)
      (hs : Sent c items w) (hs' : Sent (calledBack (.onRequest c.rpc.request) items w c) items' w') :
      Invited c
        (calledBack .onReadsDone items' w' (calledBack (.onRequest c.rpc.request) items w c))

/-- `HandleSendQueue`. -/
inductive SentQueue : Ctx μ → Ctx μ → Prop
  | idle {c : Ctx μ} (h : c.rpc.sendQueue = [] ∨ (c.rpc.events .write).pending = true ∨
      (c.rpc.events .finish).pending = true) : SentQueue c c
  | issued {c : Ctx μ} {item : SendItem μ} {rest : List (SendItem μ)}
      (hq : c.rpc.sendQueue = item :: rest) (hw : (c.rpc.events .write).pending = false)
      (hf : (c.rpc.events .finish).pending = false) : SentQueue c (issues item rest c)

/-- What handling an event does. -/
inductive Handled : Bool → RpcEvent → Ctx μ → Ctx μ → Prop
  | refused {c : Ctx μ} :
      Handled true (.completion .newConnection) c
        (remove .handleNewConnection (pops .newConnection c))
  | failed {c : Ctx μ} (hok : (c.rpc.events .newConnection).ok = false) :
      Handled false (.completion .newConnection) c
        (use .clone (remove .handleNewConnection (pops .newConnection c)))
  | accepted {c c' : Ctx μ} {items : List (SendItem μ)} {w : Bool}
      (hok : (c.rpc.events .newConnection).ok = true) (hh : c.rpc.handler = false)
      (hs : Sent c items w)
      (hi : Invited (initialized items w (use .onConnection (pops .newConnection c))) c') :
      Handled false (.completion .newConnection) c (use .clone c')
  | reaccepted {c c' : Ctx μ} (hok : (c.rpc.events .newConnection).ok = true)
      (hh : c.rpc.handler = true) (hi : Invited (use .onConnection (pops .newConnection c)) c') :
      Handled false (.completion .newConnection) c (use .clone c')
  | read {sd : Bool} {c c' : Ctx μ} {items : List (SendItem μ)} {w : Bool}
      (hok : (c.rpc.events .read).ok = true) (hh : c.rpc.handler = true) (hs : Sent c items w)
      (hi : Invited (use .requestStreamingReadIfNeeded
        (calledBack (.onRequest c.rpc.request) items w (use .onRequest (pops .read c)))) c') :
      Handled sd (.completion .read) c c'
  | readsDone {sd : Bool} {c : Ctx μ} {items : List (SendItem μ)} {w : Bool}
      (hok : (c.rpc.events .read).ok = false) (hh : c.rpc.handler = true) (hs : Sent c items w) :
      Handled sd (.completion .read) c
        (tidies (calledBack .onReadsDone items w (use .onReadsDone (pops .read c))))
  | write {sd : Bool} {c c' : Ctx μ} (hq : SentQueue (use .handleSendQueue (pops .write c)) c') :
      Handled sd (.completion .write) c (tidies c')
  | finish {sd : Bool} {c : Ctx μ} {items : List (SendItem μ)} {w : Bool}
      (hh : c.rpc.handler = true) (hs : Sent c items w) :
      Handled sd (.completion .finish) c
        (tidies (calledBack .onFinish items w (use .onFinish (pops .finish c))))
  | done {sd : Bool} {c : Ctx μ} : Handled sd (.completion .done) c (tidies (pops .done c))
  | writeNeeded {sd : Bool} {c c' : Ctx μ} (ha : c.alive = true)
      (hq : SentQueue (use .handleSendQueue (wakes c)) c') :
      Handled sd .writeNeeded c (tidies c')
  | stale {sd : Bool} {c : Ctx μ} (ha : c.alive = false) : Handled sd .writeNeeded c c

/-- What a step of one `Rpc` does. -/
inductive Moved (l : Conn μ) : Step μ → Conn μ → Prop
  | delivered {t : Tag} {ok : Bool} {m : μ} (hd : deliverable t l.cell = true) :
      Moved l (.deliver t ok m) ⟨deliver t ok m l.cell, l.inbox ++ [.completion t]⟩
  | handled {sd : Bool} {script : Script μ} {e : RpcEvent} {rest : List RpcEvent} {c' : Ctx μ}
      (hi : l.inbox = e :: rest) (hh : Handled sd e ⟨l.cell, []⟩ c') :
      Moved l (.handle sd script) (ofCtx rest c')
  | locked {w : WriterMethod μ} (hw : l.cell.writer = true) :
      Moved l (.lockWriter w) ⟨lockWriter w l.cell, l.inbox⟩
  | enqueued {i : ℕ} {k : WriterCall μ} (hk : l.cell.calls[i]? = some k) (hp : k.pc = .locked) :
      Moved l (.stepWriter i) (ofCtx l.inbox (setPc i k .enqueued
        (enqueueMessage k.method.item (some i) ⟨l.cell, []⟩)))
  | gotWeakPtr {i : ℕ} {k : WriterCall μ} (hk : l.cell.calls[i]? = some k) (hp : k.pc = .enqueued)
      (ha : l.cell.active = true) :
      Moved l (.stepWriter i) (ofCtx l.inbox (setPc i k .gotWeakPtr ⟨l.cell, []⟩))
  | pushed {i : ℕ} {k : WriterCall μ} (hk : l.cell.calls[i]? = some k) (hp : k.pc = .gotWeakPtr) :
      Moved l (.stepWriter i) (ofCtx l.inbox (setPc i k .pushed
        (pushWriteNeeded (some i) ⟨l.cell, []⟩)))
  | returned {i : ℕ} {k : WriterCall μ} (hk : l.cell.calls[i]? = some k) (hp : k.pc = .pushed) :
      Moved l (.stepWriter i) (ofCtx l.inbox (setPc i k (.returned true) ⟨l.cell, []⟩))

/-! ### The fixed fields -/

theorem Invited.fixed {c c' : Ctx μ} (h : Invited c c') : fixedPart c'.rpc = fixedPart c.rpc := by
  cases h <;> rfl

theorem SentQueue.fixed {c c' : Ctx μ} (h : SentQueue c c') :
    fixedPart c'.rpc = fixedPart c.rpc := by
  cases h with
  | idle => rfl
  | issued => unfold issues; dsimp only; split_ifs <;> rfl

theorem Handled.fixed {sd : Bool} {e : RpcEvent} {c c' : Ctx μ} (h : Handled sd e c c') :
    fixedPart c'.rpc = fixedPart c.rpc := by
  cases h with
  | refused => rw [remove_rpc]; rfl
  | failed => simp only [use, log, remove_rpc]; rfl
  | accepted _ _ _ hi => exact hi.fixed
  | reaccepted _ _ hi => exact hi.fixed
  | read _ _ _ hi => exact hi.fixed
  | readsDone => rw [tidies_rpc]; rfl
  | write hq => rw [tidies_rpc]; exact hq.fixed
  | finish => rw [tidies_rpc]; rfl
  | done => rw [tidies_rpc]; rfl
  | writeNeeded _ hq => rw [tidies_rpc]; exact hq.fixed
  | stale => rfl

/-- A step leaves the fixed fields of an `Rpc` alone. -/
theorem Moved.fixed {l l' : Conn μ} {b : Step μ} (h : Moved l b l') :
    fixedPart l'.cell.rpc = fixedPart l.cell.rpc := by
  cases h with
  | handled _ hh => exact hh.fixed
  | _ => rfl

/-! ### What is left alone -/

theorem opOf_tag (rpcType : RpcType) (item : SendItem μ) :
    (opOf rpcType item).tag = .write ∨ (opOf rpcType item).tag = .finish := by
  unfold opOf
  split <;> simp [Op.tag]

section Frames
variable {c c' : Ctx μ} {t t' : Tag}

theorem pops_pending_self (t : Tag) (c : Ctx μ) : ((pops t c).rpc.events t).pending = false := by
  simp [pops, use, log, setPending]

theorem pops_events_of_ne (h : t' ≠ t) (c : Ctx μ) :
    (pops t c).rpc.events t' = c.rpc.events t' := by
  simp [pops, use, log, setPending, Function.update_of_ne h]

theorem pending_of_pops {c : Ctx μ} (hp : ((pops t c).rpc.events t').pending = true) :
    (c.rpc.events t').pending = true := by
  by_cases ht : t' = t
  · subst ht
    rw [pops_pending_self] at hp
    cases hp
  · rwa [pops_events_of_ne ht] at hp

theorem begins_pending_self (op : Op μ) (c : Ctx μ) :
    ((begins op c).rpc.events op.tag).pending = true := by
  simp [begins, startOp, log, setPending]

theorem begins_events_of_ne {op : Op μ} (h : t ≠ op.tag) (c : Ctx μ) :
    (begins op c).rpc.events t = c.rpc.events t := by
  simp [begins, startOp, log, setPending, Function.update_of_ne h]

/-- Only the flag of `READ` changes. -/
theorem Invited.events_of_ne (hi : Invited c c') (ht : t ≠ .read) :
    c'.rpc.events t = c.rpc.events t := by
  cases hi with
  | streaming => exact begins_events_of_ne ht _
  | unary => rfl

theorem Invited.frame (hi : Invited c c') :
    c'.accepted = c.accepted ∧ c'.rpc.handler = c.rpc.handler ∧ c'.active = c.active ∧
      c'.calls = c.calls := by
  cases hi <;> exact ⟨rfl, rfl, rfl, rfl⟩

/-- Only the flags of `WRITE` and `FINISH` change. -/
theorem SentQueue.events_of_ne (hq : SentQueue c c') (hw : t ≠ .write) (hf : t ≠ .finish) :
    c'.rpc.events t = c.rpc.events t := by
  cases hq with
  | idle => rfl
  | @issued item rest _ _ _ =>
    have hne : t ≠ (opOf c.rpc.rpcHandlerInfo.rpcType item).tag := by
      rcases opOf_tag c.rpc.rpcHandlerInfo.rpcType item with h | h <;> rw [h] <;> assumption
    unfold issues
    dsimp only
    rw [begins_events_of_ne hne]
    split_ifs <;> rfl

theorem SentQueue.frame (hq : SentQueue c c') :
    c'.accepted = c.accepted ∧ c'.rpc.handler = c.rpc.handler ∧ c'.active = c.active ∧
      c'.writer = c.writer ∧ c'.calls = c.calls ∧ c'.outbox = c.outbox := by
  cases hq with
  | idle => simp
  | issued =>
    unfold issues begins startOp
    dsimp only
    split_ifs <;> simp [log, setPending, setResponse]

variable {sd : Bool} {e : RpcEvent}

theorem Handled.calls (hh : Handled sd e c c') : c'.calls = c.calls := by
  cases hh with
  | refused => rw [remove_calls]; rfl
  | failed => exact remove_calls _ _
  | accepted _ _ _ hv => exact hv.frame.2.2.2
  | reaccepted _ _ hv => exact hv.frame.2.2.2
  | read _ _ _ hv => exact hv.frame.2.2.2
  | readsDone => rw [tidies_calls]; rfl
  | write hq => rw [tidies_calls]; exact hq.frame.2.2.2.2.1
  | finish => rw [tidies_calls]; rfl
  | done => rw [tidies_calls]; rfl
  | writeNeeded _ hq => rw [tidies_calls]; exact hq.frame.2.2.2.2.1
  | stale => rfl

theorem begins_ops_le (op : Op μ) (c : Ctx μ) (t : Tag) : c.ops t ≤ (begins op c).ops t := by
  show c.ops t ≤ Function.update c.ops op.tag (c.ops op.tag + 1) t
  by_cases ht : t = op.tag
  · subst ht
    rw [Function.update_self]
    omega
  · exact Nat.le_of_eq (Function.update_of_ne ht _ _).symm

theorem Invited.ops_le (hv : Invited c c') (t : Tag) : c.ops t ≤ c'.ops t := by
  cases hv with
  | streaming => exact begins_ops_le _ _ _
  | unary => exact Nat.le_refl _

theorem SentQueue.ops_le (hq : SentQueue c c') (t : Tag) : c.ops t ≤ c'.ops t := by
  cases hq with
  | idle => exact Nat.le_refl _
  | issued =>
    unfold issues
    dsimp only
    refine Nat.le_trans ?_ (begins_ops_le _ _ _)
    split_ifs <;> exact Nat.le_refl _

/-- Handling an event does not change what gRPC has reported, and takes no operation from it. -/
theorem Handled.grpc (hh : Handled sd e c c') :
    c'.accepted = c.accepted ∧ ∀ t, c.ops t ≤ c'.ops t := by
  cases hh with
  | refused => exact ⟨remove_accepted _ _, fun t => by rw [remove_ops]; exact Nat.le_refl _⟩
  | failed => exact ⟨remove_accepted _ _, fun t => by simp [use, log, pops]⟩
  | accepted _ _ _ hv => exact ⟨hv.frame.1, hv.ops_le⟩
  | reaccepted _ _ hv => exact ⟨hv.frame.1, hv.ops_le⟩
  | read _ _ _ hv => exact ⟨hv.frame.1, hv.ops_le⟩
  | readsDone => exact ⟨tidies_accepted _, fun t => by rw [tidies_ops]; exact Nat.le_refl _⟩
  | write hq =>
    exact ⟨(tidies_accepted _).trans hq.frame.1, fun t => by rw [tidies_ops]; exact hq.ops_le t⟩
  | finish => exact ⟨tidies_accepted _, fun t => by rw [tidies_ops]; exact Nat.le_refl _⟩
  | done => exact ⟨tidies_accepted _, fun t => by rw [tidies_ops]; exact Nat.le_refl _⟩
  | writeNeeded _ hq =>
    exact ⟨(tidies_accepted _).trans hq.frame.1, fun t => by rw [tidies_ops]; exact hq.ops_le t⟩
  | stale => exact ⟨rfl, fun _ => Nat.le_refl _⟩

theorem mem_invited {site : RemoveSite} (hv : Invited c c') (hm : .remove site ∈ c'.history) :
    .remove site ∈ c.history := by
  cases hv <;> simpa [begins_history, calledBack_history, sendActs] using hm

theorem mem_sentQueue {site : RemoveSite} (hq : SentQueue c c') (hm : .remove site ∈ c'.history) :
    .remove site ∈ c.history := by
  cases hq with
  | idle => exact hm
  | issued =>
    rw [issues_history, List.mem_append] at hm
    refine hm.resolve_right (fun h => ?_)
    unfold issueActs responseActs at h
    split_ifs at h <;> simp at h

/-- How the handling of an event ends: the entry in `ActiveRpcs` is left alone, or
`RemoveIfNotPending` or `HandleNewConnection` looks after it. -/
inductive Ended (sd : Bool) (e : RpcEvent) (ok : Bool) (c : Ctx μ) : Ctx μ → Prop
  | kept : Ended sd e ok c c
  | tidied (he : e ≠ .completion .newConnection) : Ended sd e ok c (tidies c)
  | refused (he : e = .completion .newConnection) (hsd : sd = true) :
      Ended sd e ok c (remove .handleNewConnection c)
  | failed (he : e = .completion .newConnection) (hsd : sd = false) (hok : ok = false) :
      Ended sd e ok c (use .clone (remove .handleNewConnection c))

/-- **The entry is touched only at the end.** -/
theorem Handled.ended (hh : Handled sd e c c') : ∃ c1 : Ctx μ,
    Ended sd e (c.rpc.events .newConnection).ok c1 c' ∧ c1.active = c.active ∧
      ∀ site, .remove site ∈ c1.history → .remove site ∈ c.history := by
  cases hh with
  | refused => exact ⟨_, .refused rfl rfl, rfl, fun _ h => by simpa [pops_history] using h⟩
  | failed hok => exact ⟨_, .failed rfl rfl hok, rfl, fun _ h => by simpa [pops_history] using h⟩
  | accepted _ _ _ hv =>
    refine ⟨_, .kept, hv.frame.2.2.1, fun site h => ?_⟩
    rw [use_history, List.mem_append] at h
    have := mem_invited hv (h.resolve_right (by simp))
    simpa [initialized_history, use_history, pops_history, sendActs] using this
  | reaccepted _ _ hv =>
    refine ⟨_, .kept, hv.frame.2.2.1, fun site h => ?_⟩
    rw [use_history, List.mem_append] at h
    have := mem_invited hv (h.resolve_right (by simp))
    simpa [use_history, pops_history] using this
  | read _ _ _ hv =>
    refine ⟨_, .kept, hv.frame.2.2.1, fun site h => ?_⟩
    simpa [use_history, calledBack_history, pops_history, sendActs] using mem_invited hv h
  | readsDone =>
    refine ⟨_, .tidied (by simp), rfl, fun site h => ?_⟩
    simpa [use_history, calledBack_history, pops_history, sendActs] using h
  | write hq =>
    refine ⟨_, .tidied (by simp), hq.frame.2.2.1, fun site h => ?_⟩
    simpa [use_history, pops_history] using mem_sentQueue hq h
  | finish =>
    refine ⟨_, .tidied (by simp), rfl, fun site h => ?_⟩
    simpa [use_history, calledBack_history, pops_history, sendActs] using h
  | done => exact ⟨_, .tidied (by simp), rfl, fun _ h => by simpa [pops_history] using h⟩
  | writeNeeded _ hq =>
    refine ⟨_, .tidied (by simp), hq.frame.2.2.1, fun site h => ?_⟩
    simpa [use_history, wakes_history] using mem_sentQueue hq h
  | stale => exact ⟨_, .kept, rfl, fun _ h => h⟩

/-- An entry that was removed does not come back. -/
theorem Handled.inactive (hh : Handled sd e c c') (ha : c.active = false) : c'.active = false := by
  obtain ⟨c1, he, h1, -⟩ := hh.ended
  cases he with
  | kept => exact h1.trans ha
  | tidied => rw [tidies_active, h1, ha, Bool.false_and]
  | refused => exact remove_active _ _
  | failed => exact remove_active _ _

/-- The entry leaves `ActiveRpcs` with the connection refused, or with nothing pending. -/
theorem Handled.removed (hh : Handled sd e c c') (ha : c.active = true) (ha' : c'.active = false) :
    e = .completion .newConnection ∨ anyPending c'.rpc = false := by
  obtain ⟨c1, he, h1, -⟩ := hh.ended
  cases he with
  | kept => cases ha.symm.trans (h1.symm.trans ha')
  | tidied =>
    rw [tidies_active, h1, ha, Bool.true_and] at ha'
    rw [tidies_rpc]
    exact Or.inr ha'
  | refused he => exact Or.inl he
  | failed he => exact Or.inl he

end Frames

/-! ### Invariants of the effects -/

/-- An entry that records a use, a wake-up or a removal, and nothing else. -/
def silent : Act μ → Bool
  | .use _ | .wake | .remove _ => true
  | _ => false

/-- Nothing happened to the object and its operations. -/
structure Quiet (c c' : Ctx μ) : Prop where
  rpc : c'.rpc = c.rpc
  ops : c'.ops = c.ops
  outbox : c'.outbox = c.outbox
  history : ∃ acts, c'.history = c.history ++ acts ∧ (∀ a ∈ acts, silent a = true) ∧
    (c'.active = true ↔ c.active = true ∧ ∀ site, .remove site ∉ acts)

/-- The callbacks that are made while the event `e` is handled. -/
def mayCall (e : RpcEvent) (rpcType : RpcType) : Callback μ → Prop
  | .initializeHandler => e = .completion .newConnection
  | .onRequest _ => requestStreaming rpcType = false ∨ e = .completion .read
  | .onReadsDone => requestStreaming rpcType = false ∨ e = .completion .read
  | .onFinish => e = .completion .finish

section Rule
variable {sd : Bool} {e : RpcEvent} {c c' : Ctx μ}

theorem quiet_use (m : Member) (c : Ctx μ) : Quiet c (use m c) :=
  ⟨rfl, rfl, rfl, _, use_history c m, by simp [silent], by simp [use, log]⟩

theorem quiet_wakes (c : Ctx μ) : Quiet c (wakes c) :=
  ⟨rfl, rfl, rfl, _, wakes_history c, by simp [silent], by simp [wakes, use, log]⟩

theorem quiet_remove (site : RemoveSite) (c : Ctx μ) : Quiet c (remove site c) := by
  refine ⟨remove_rpc c site, remove_ops c site, remove_outbox c site, _, remove_history c site, ?_, ?_⟩
  · split_ifs <;> simp [silent]
  · rw [remove_active]
    split_ifs with h <;> simp [h]

theorem quiet_tidies (c : Ctx μ) : Quiet c (tidies c) := by
  refine ⟨tidies_rpc c, tidies_ops c, tidies_outbox c, _, tidies_history c, ?_, ?_⟩
  · split_ifs <;> simp [silent]
  · rw [tidies_active]
    split_ifs with h <;> simp_all

/-- **The rule for handled events**: what the effects keep, from the cleared flag on, holds when the
event has been handled. -/
theorem Handled.rule {J : Ctx μ → Prop} (hquiet : ∀ c c', Quiet c c' → J c → J c')
    (hcall : ∀ cb items w c, mayCall e c.rpc.rpcHandlerInfo.rpcType cb → J c →
      J (calledBack cb items w c))
    (hinit : ∀ items w c, J c → J (initialized items w c))
    (hread : ∀ c, requestStreaming c.rpc.rpcHandlerInfo.rpcType = true →
      (c.rpc.events .read).pending = false → J c → J (begins .read c))
    (hissue : ∀ c item rest, c.rpc.sendQueue = item :: rest →
      (c.rpc.events .write).pending = false → (c.rpc.events .finish).pending = false → J c →
        J (issues item rest c))
    (hh : Handled sd e c c') (hpops : ∀ t, e = .completion t → J (pops t c))
    (hneeded : e = .writeNeeded → J c)
    (hr : e = .completion .newConnection → (c.rpc.events .read).pending = false) : J c' := by
  have huse : ∀ m c, J c → J (use m c) := fun m c => hquiet _ _ (quiet_use m c)
  have hinvited : ∀ c c', Invited c c' → (c.rpc.events .read).pending = false → J c → J c' := by
    intro c c' hv hp hj
    cases hv with
    | streaming ht => exact hread c ht hp hj
    | unary ht =>
      exact hcall .onReadsDone _ _ _ (Or.inl ht) (hcall (.onRequest _) _ _ _ (Or.inl ht) hj)
  have hsent : ∀ c c', SentQueue c c' → J c → J c' := by
    intro c c' hq hj
    cases hq with
    | idle => exact hj
    | issued hq hw hf => exact hissue c _ _ hq hw hf hj
  have hnc : e = .completion .newConnection →
      ((pops .newConnection c).rpc.events .read).pending = false := by
    intro he
    rw [pops_events_of_ne (by decide)]
    exact hr he
  cases hh with
  | refused => exact hquiet _ _ (quiet_remove _ _) (hpops _ rfl)
  | failed => exact huse _ _ (hquiet _ _ (quiet_remove _ _) (hpops _ rfl))
  | accepted _ _ _ hv =>
    exact huse _ _ (hinvited _ _ hv (hnc rfl) (hinit _ _ _ (huse _ _ (hpops _ rfl))))
  | reaccepted _ _ hv => exact huse _ _ (hinvited _ _ hv (hnc rfl) (huse _ _ (hpops _ rfl)))
  | read _ _ _ hv =>
    exact hinvited _ _ hv (pops_pending_self _ _)
      (huse _ _ (hcall (.onRequest _) _ _ _ (Or.inr rfl) (huse _ _ (hpops _ rfl))))
  | readsDone =>
    exact hquiet _ _ (quiet_tidies _)
      (hcall .onReadsDone _ _ _ (Or.inr rfl) (huse _ _ (hpops _ rfl)))
  | write hq => exact hquiet _ _ (quiet_tidies _) (hsent _ _ hq (huse _ _ (hpops _ rfl)))
  | finish =>
    exact hquiet _ _ (quiet_tidies _) (hcall .onFinish _ _ _ rfl (huse _ _ (hpops _ rfl)))
  | done => exact hquiet _ _ (quiet_tidies _) (hpops _ rfl)
  | writeNeeded _ hq =>
    exact hquiet _ _ (quiet_tidies _)
      (hsent _ _ hq (huse _ _ (hquiet _ _ (quiet_wakes _) (hneeded rfl))))
  | stale => exact hneeded rfl

end Rule

/-! ### The methods have these effects -/

theorem send_eq_ok {item : SendItem μ} {c c' : Ctx μ} (h : send item c = .ok c') :
    c' = sends [item] c ∧ c.active = true := by
  obtain ⟨u, h1, h2⟩ := bind_eq_ok.mp h
  unfold getWeakPtr at h1
  split at h1
  · next ha =>
    cases h2
    refine ⟨?_, ha⟩
    simp [pushWriteNeeded, enqueueMessage, log, sends, sendActs]
  · cases h1

theorem sends_nil (c : Ctx μ) : sends [] c = c := by simp [sends, sendActs]

theorem sends_sends (a b : List (SendItem μ)) (w : Bool) (c : Ctx μ) :
    sends b { sends a c with writer := w } = { sends (a ++ b) c with writer := w } := by
  simp [sends, sendActs]

theorem Sent.nil (c : Ctx μ) : Sent c [] c.writer := by simp [Sent]

theorem Sent.append {c : Ctx μ} {a b : List (SendItem μ)} {w w' : Bool} (h : Sent c a w)
    (h' : Sent { sends a c with writer := w } b w') : Sent c (a ++ b) w' := by
  obtain ⟨h1, h2, h3⟩ := h
  obtain ⟨h1', h2', h3'⟩ := h'
  refine ⟨fun hc => h1' (h1 hc), fun hne => ?_, fun item hm => ?_⟩
  · by_cases hb : b ≠ [] ∨ w' ≠ w
    · exact h2' hb
    · refine h2 ?_
      push Not at hb
      obtain ⟨rfl, rfl⟩ := hb
      simpa using hne
  · rcases List.mem_append.mp hm with hm | hm
    · exact h3 item hm
    · exact h3' item hm

theorem sent_singleton {item : SendItem μ} {c : Ctx μ} (ha : c.active = true)
    (hi : item.msg.isSome → item.status = .OK) : Sent c [item] c.writer := by
  refine ⟨id, fun _ => ha, fun x hx => ?_⟩
  rw [List.mem_singleton.mp hx]
  exact hi

theorem send_sent {item : SendItem μ} {c c' : Ctx μ} (h : send item c = .ok c')
    (hi : item.msg.isSome → item.status = .OK) :
    c' = { sends [item] c with writer := c.writer } ∧ Sent c [item] c.writer := by
  obtain ⟨rfl, ha⟩ := send_eq_ok h
  exact ⟨rfl, sent_singleton ha hi⟩

theorem callWriter_eq_ok {m : WriterMethod μ} {c c' : Ctx μ} (h : callWriter m c = .ok c') :
    ∃ items, c' = { sends items c with writer := c.writer } ∧ Sent c items c.writer := by
  unfold callWriter at h
  split at h
  · cases m with
    | write m => exact ⟨_, send_sent h (fun _ => rfl)⟩
    | writesDone => exact ⟨_, send_sent h (fun _ => rfl)⟩
    | finish st =>
      obtain ⟨c1, h1, h2⟩ := bind_eq_ok.mp h
      split at h2
      · cases h2
        exact ⟨_, send_sent h1 (fun hn => by simp at hn)⟩
      · cases h2
  · cases h
    exact ⟨[], by rw [sends_nil], Sent.nil c⟩

theorem handlerCall_eq_ok {k : HandlerCall μ} {c c' : Ctx μ} (h : handlerCall c k = .ok c') :
    ∃ items w, c' = { sends items c with writer := w } ∧ Sent c items w := by
  cases k with
  | send m => exact ⟨_, _, send_sent h (fun _ => rfl)⟩
  | finish st => exact ⟨_, _, send_sent h (fun hn => by simp at hn)⟩
  | getWriter =>
    obtain ⟨u, h1, h2⟩ := bind_eq_ok.mp h
    unfold getWeakPtr at h1
    split at h1
    · next ha =>
      cases h2
      exact ⟨[], true, by rw [sends_nil], by simp [Sent, ha]⟩
    · cases h1
  | writer m =>
    obtain ⟨items, h1, h2⟩ := callWriter_eq_ok h
    exact ⟨items, c.writer, h1, h2⟩

theorem handlerCalls_eq_ok : ∀ {ks : List (HandlerCall μ)} {c c' : Ctx μ},
    ks.foldlM handlerCall c = .ok c' →
      ∃ items w, c' = { sends items c with writer := w } ∧ Sent c items w
  | [], c, c', h => by
    cases h
    exact ⟨[], c.writer, by rw [sends_nil], Sent.nil c⟩
  | k :: ks, c, c', h => by
    rw [List.foldlM_cons] at h
    obtain ⟨c1, h1, h2⟩ := bind_eq_ok.mp h
    obtain ⟨a, w, rfl, hs⟩ := handlerCall_eq_ok h1
    obtain ⟨b, w', rfl, hs'⟩ := handlerCalls_eq_ok h2
    exact ⟨a ++ b, w', by rw [sends_sends], hs.append hs'⟩

theorem callback_eq_ok {cb : Callback μ} {ks : List (HandlerCall μ)} {c c' : Ctx μ}
    (h : callback cb ks c = .ok c') :
    ∃ items w, c' = calledBack cb items w c ∧ Sent c items w := by
  obtain ⟨items, w, rfl, hs⟩ := handlerCalls_eq_ok h
  exact ⟨items, w, rfl, hs⟩

theorem callHandler_eq_ok {cb : Callback μ} {ks : List (HandlerCall μ)} {c c' : Ctx μ}
    (h : callHandler cb ks c = .ok c') :
    c.rpc.handler = true ∧ ∃ items w, c' = calledBack cb items w c ∧ Sent c items w := by
  unfold callHandler at h
  split at h
  · next hh => exact ⟨hh, callback_eq_ok h⟩
  · cases h

theorem startVia_eq_ok {rw : ReaderWriter} {op : Op μ} {c c' : Ctx μ}
    (h : startVia rw op c = .ok c') : c' = startOp op c := by
  unfold startVia at h
  split at h
  · cases h; rfl
  · cases h

theorem removeIfNotPending_eq (c : Ctx μ) : removeIfNotPending c = .ok (tidies c) := by
  unfold tidies
  split_ifs with h
  · have : isAnyEventPending (use .isAnyEventPending c) = .ok true := congrArg Except.ok h
    simp only [removeIfNotPending, this]; rfl
  · have : isAnyEventPending (use .isAnyEventPending c) = .ok false :=
      congrArg Except.ok (Bool.not_eq_true _ ▸ h)
    simp only [removeIfNotPending, this]; rfl

theorem invited_of_ok {script : Script μ} {c c' : Ctx μ}
    (h : requestStreamingReadIfNeeded script c = .ok c') : Invited c c' := by
  have hstream : requestStreaming c.rpc.rpcHandlerInfo.rpcType = true →
      (setRpcEventState .read true c >>= fun c => asyncReaderInterface c >>= fun rw =>
        startVia rw .read c) = .ok c' → Invited c c' := by
    intro ht h
    obtain ⟨c1, h1, h2⟩ := bind_eq_ok.mp h
    obtain ⟨rw, -, h3⟩ := bind_eq_ok.mp h2
    cases h1
    rw [startVia_eq_ok h3]
    exact .streaming ht
  have hunary : requestStreaming c.rpc.rpcHandlerInfo.rpcType = false →
      (onRequest script c >>= fun c => onReadsDone script c) = .ok c' → Invited c c' := by
    intro ht h
    obtain ⟨c1, h1, h2⟩ := bind_eq_ok.mp h
    obtain ⟨hh, items, w, rfl, hs⟩ := callHandler_eq_ok h1
    obtain ⟨-, items', w', rfl, hs'⟩ := callHandler_eq_ok h2
    exact .unary ht hh hs hs'
  unfold requestStreamingReadIfNeeded at h
  split at h
  · next ht => exact hstream (by rw [ht]; rfl) h
  · next ht => exact hstream (by rw [ht]; rfl) h
  · next ht => exact hunary (by rw [ht]; rfl) h
  · next ht => exact hunary (by rw [ht]; rfl) h

theorem performFinish_eq_ok {m : Option μ} {st : Status} {c c' : Ctx μ}
    (h : performFinish m st c = .ok c') :
    (m.isSome = true → responseStreaming c.rpc.rpcHandlerInfo.rpcType = false) ∧
      c' = begins (opOf c.rpc.rpcHandlerInfo.rpcType ⟨m, st⟩)
        (if m.isSome || !responseStreaming c.rpc.rpcHandlerInfo.rpcType then setResponse m c
          else c) := by
  obtain ⟨c1, h1, h2⟩ := bind_eq_ok.mp h
  cases h1
  have htype : ({ c with rpc := setPending .finish true c.rpc } : Ctx μ).rpc.rpcHandlerInfo.rpcType =
      c.rpc.rpcHandlerInfo.rpcType := rfl
  rw [htype] at h2
  rcases ht : c.rpc.rpcHandlerInfo.rpcType with _ | _ | _ | _ <;> rw [ht] at h2 <;>
    rcases m with _ | m
  · exact ⟨fun _ => rfl, by rw [startVia_eq_ok h2]; rfl⟩
  · exact ⟨fun _ => rfl, by rw [startVia_eq_ok h2]; rfl⟩
  · exact ⟨fun _ => rfl, by rw [startVia_eq_ok h2]; rfl⟩
  · exact ⟨fun _ => rfl, by rw [startVia_eq_ok h2]; rfl⟩
  · exact ⟨fun hm => by simp at hm, by rw [startVia_eq_ok h2]; rfl⟩
  · cases h2
  · exact ⟨fun hm => by simp at hm, by rw [startVia_eq_ok h2]; rfl⟩
  · cases h2

theorem performWrite_eq_ok {m : Option μ} {st : Status} {c c' : Ctx μ}
    (h : performWrite m st c = .ok c') :
    m.isSome = true ∧ responseStreaming c.rpc.rpcHandlerInfo.rpcType = true ∧
      c' = begins (opOf c.rpc.rpcHandlerInfo.rpcType ⟨m, st⟩) (setResponse m c) := by
  rcases m with _ | m
  · cases h
  refine ⟨rfl, ?_⟩
  unfold performWrite at h
  rcases ht : c.rpc.rpcHandlerInfo.rpcType with _ | _ | _ | _ <;> rw [ht] at h
  · cases h
  · cases h
  all_goals
    obtain ⟨c1, h1, h⟩ := bind_eq_ok.mp h
    obtain ⟨rw, -, h⟩ := bind_eq_ok.mp h
    cases h1
    exact ⟨rfl, by rw [startVia_eq_ok h]; rfl⟩

theorem sentQueue_of_ok {c c' : Ctx μ} (h : handleSendQueue c = .ok c') : SentQueue c c' := by
  unfold handleSendQueue at h
  split at h
  · next hq =>
    cases h
    exact .idle (Or.inl hq)
  · next item rest hq =>
    obtain ⟨pw, hpw, h⟩ := bind_eq_ok.mp h
    obtain ⟨pf, hpf, h⟩ := bind_eq_ok.mp h
    cases hpw
    cases hpf
    split at h
    · next hp =>
      cases h
      exact .idle (Or.inr (by simpa using hp))
    · next hp =>
      simp only [Bool.not_eq_true, Bool.or_eq_false_iff] at hp
      have hc' : c' = issues item rest c := by
        dsimp only at h
        split at h
        · exact (performFinish_eq_ok h).2
        · obtain ⟨hm, -, h1⟩ := performWrite_eq_ok h
          unfold issues
          rw [hm]
          exact h1
      rw [hc']
      exact .issued hq hp.1 hp.2

theorem handledNewConnection_of_ok {sd : Bool} {script : Script μ} {c c' : Ctx μ}
    {new : Option (Rpc μ)}
    (h : handleNewConnection sd (c.rpc.events .newConnection).ok script (pops .newConnection c) =
      .ok (c', new)) :
    Handled sd (.completion .newConnection) c c' := by
  unfold handleNewConnection at h
  cases sd with
  | true =>
    cases h
    exact .refused
  | false =>
    cases hok : (c.rpc.events .newConnection).ok with
    | false =>
      rw [hok] at h
      cases h
      exact .failed hok
    | true =>
      rw [hok] at h
      obtain ⟨c1, h1, h2⟩ := bind_eq_ok.mp h
      cases h2
      rw [if_pos rfl] at h1
      unfold onConnection at h1
      dsimp only at h1
      split at h1
      · next hh => exact .reaccepted hok hh (invited_of_ok h1)
      · next hh =>
        obtain ⟨c3, h5, h6⟩ := bind_eq_ok.mp h1
        obtain ⟨items, w, rfl, hs⟩ := callback_eq_ok h5
        exact .accepted hok (Bool.eq_false_iff.mpr hh) hs (invited_of_ok h6)

theorem handledRead_of_ok {sd : Bool} {script : Script μ} {c c' : Ctx μ}
    (h : handleRead (c.rpc.events .read).ok script (pops .read c) = .ok c') :
    Handled sd (.completion .read) c c' := by
  unfold handleRead at h
  split at h
  · next hok =>
    obtain ⟨c1, h1, h2⟩ := bind_eq_ok.mp h
    obtain ⟨hh, items, w, rfl, hs⟩ := callHandler_eq_ok h1
    exact .read hok hh hs (invited_of_ok h2)
  · next hok =>
    obtain ⟨c1, h1, h2⟩ := bind_eq_ok.mp h
    obtain ⟨hh, items, w, rfl, hs⟩ := callHandler_eq_ok h1
    rw [removeIfNotPending_eq] at h2
    cases h2
    exact .readsDone (by simpa using hok) hh hs

/-- **Handling an event does one of the things listed.** -/
theorem handled_of_handle {sd : Bool} {e : RpcEvent} {script : Script μ} {c c' : Ctx μ}
    {new : Option (Rpc μ)} (h : handle sd e script c = .ok (c', new)) : Handled sd e c c' := by
  cases e with
  | completion t =>
    cases t with
    | newConnection => exact handledNewConnection_of_ok h
    | read =>
      obtain ⟨c1, h1, h2⟩ := map_eq_ok.mp h
      cases h2
      exact handledRead_of_ok h1
    | write =>
      obtain ⟨c1, h1, h2⟩ := map_eq_ok.mp h
      cases h2
      obtain ⟨c2, h3, h4⟩ := bind_eq_ok.mp h1
      rw [removeIfNotPending_eq] at h4
      cases h4
      exact .write (sentQueue_of_ok h3)
    | finish =>
      obtain ⟨c1, h1, h2⟩ := map_eq_ok.mp h
      cases h2
      obtain ⟨c2, h3, h4⟩ := bind_eq_ok.mp h1
      rw [removeIfNotPending_eq] at h4
      cases h4
      obtain ⟨hh, items, w, rfl, hs⟩ := callHandler_eq_ok h3
      exact .finish hh hs
    | done =>
      obtain ⟨c1, h1, h2⟩ := map_eq_ok.mp h
      cases h2
      rw [handleDone, removeIfNotPending_eq] at h1
      cases h1
      exact .done
  | writeNeeded =>
    replace h : handleInternal sd script c = .ok (c', new) := h
    unfold handleInternal at h
    split at h
    · next ha =>
      obtain ⟨c1, h1, h2⟩ := map_eq_ok.mp h
      cases h2
      obtain ⟨c2, h3, h4⟩ := bind_eq_ok.mp h1
      rw [removeIfNotPending_eq] at h4
      cases h4
      exact .writeNeeded ha (sentQueue_of_ok h3)
    · next ha =>
      cases h
      exact .stale (by simpa using ha)

/-- **A step of one `Rpc` does one of the things listed.** -/
theorem moved_of_step {l l' : Conn μ} {b : Step μ} (h : l.step b = some (.ok l')) :
    Moved l b l' := by
  cases b with
  | deliver t ok m =>
    unfold Conn.step at h
    dsimp only at h
    split_ifs at h with hd
    cases h
    exact .delivered hd
  | handle sd script =>
    unfold Conn.step at h
    dsimp only at h
    split at h
    · cases h
    · next e rest hi =>
      obtain ⟨p, hp, rfl⟩ := map_eq_ok.mp (Option.some.inj h)
      exact .handled hi (handled_of_handle hp)
  | lockWriter w =>
    unfold Conn.step at h
    dsimp only at h
    split_ifs at h with hw
    cases h
    exact .locked hw
  | stepWriter i =>
    unfold Conn.step at h
    dsimp only at h
    split at h
    · next k hk =>
      split_ifs at h
      obtain ⟨c, hc, rfl⟩ := map_eq_ok.mp (Option.some.inj h)
      unfold stepWriter at hc
      split at hc
      · next hp => cases hc; exact .enqueued hk hp
      · next hp =>
        obtain ⟨u, hu, h2⟩ := bind_eq_ok.mp hc
        cases h2
        unfold getWeakPtr at hu
        split_ifs at hu with ha
        exact .gotWeakPtr hk hp ha
      · next hp => cases hc; exact .pushed hk hp
      · next hp =>
        split at hc
        · split_ifs at hc
          cases hc
          exact .returned hk hp
        · cases hc
          exact .returned hk hp
      · next hp hret => simp_all [WriterCall.holds]
    · cases h

/-! ### Steps of `Writer`s -/

/-- The entry is made by a call of a `Writer`. -/
def byWriter : Act μ → Bool
  | .enqueue .. | .push _ => true
  | _ => false

/-- What the steps of `Writer` calls have in common: they may enqueue an item and push an event for
it, and leave everything else as it is. -/
structure WriterMoved (l l' : Conn μ) : Prop where
  history : ∃ acts, l'.cell.history = l.cell.history ++ acts ∧ ∀ a ∈ acts, byWriter a = true
  active : l'.cell.active = l.cell.active
  events : l'.cell.rpc.events = l.cell.rpc.events
  request : l'.cell.rpc.request = l.cell.rpc.request
  handler : l'.cell.rpc.handler = l.cell.rpc.handler
  info : l'.cell.rpc.rpcHandlerInfo = l.cell.rpc.rpcHandlerInfo
  ops : l'.cell.ops = l.cell.ops
  accepted : l'.cell.accepted = l.cell.accepted
  inbox : ∀ t, .completion t ∈ l'.inbox ↔ .completion t ∈ l.inbox

/-- The kinds of steps, with those of `Writer` calls taken together. -/
inductive Kind (l : Conn μ) : Step μ → Conn μ → Prop
  | delivered {t : Tag} {ok : Bool} {m : μ} (hd : deliverable t l.cell = true) :
      Kind l (.deliver t ok m) ⟨deliver t ok m l.cell, l.inbox ++ [.completion t]⟩
  | handled {sd : Bool} {script : Script μ} {e : RpcEvent} {rest : List RpcEvent} {c' : Ctx μ}
      (hi : l.inbox = e :: rest) (hh : Handled sd e ⟨l.cell, []⟩ c') :
      Kind l (.handle sd script) (ofCtx rest c')
  | locked {w : WriterMethod μ} {l' : Conn μ} (hw : WriterMoved l l') : Kind l (.lockWriter w) l'
  | stepped {i : ℕ} {l' : Conn μ} (hw : WriterMoved l l') : Kind l (.stepWriter i) l'

theorem Moved.kind {l l' : Conn μ} {b : Step μ} (hm : Moved l b l') : Kind l b l' := by
  have hnil : ∃ acts, l.cell.history = l.cell.history ++ acts ∧ ∀ a ∈ acts, byWriter a = true :=
    ⟨[], (List.append_nil _).symm, by simp⟩
  cases hm with
  | delivered hd => exact .delivered hd
  | handled hi hh => exact .handled hi hh
  | locked => exact .locked ⟨hnil, rfl, rfl, rfl, rfl, rfl, rfl, rfl, fun _ => Iff.rfl⟩
  | @enqueued i k =>
    refine .stepped ⟨⟨[.enqueue k.method.item (some i)], rfl, by simp [byWriter]⟩, rfl, rfl, rfl, rfl,
      rfl, rfl, rfl, fun t => ?_⟩
    simp [ofCtx, setPc, enqueueMessage, log]
  | gotWeakPtr =>
    refine .stepped ⟨hnil, rfl, rfl, rfl, rfl, rfl, rfl, rfl, fun t => ?_⟩
    simp [ofCtx, setPc]
  | @pushed i =>
    refine .stepped ⟨⟨[.push (some i)], rfl, by simp [byWriter]⟩, rfl, rfl, rfl, rfl, rfl, rfl,
      rfl, fun t => ?_⟩
    simp [ofCtx, setPc, pushWriteNeeded, log]
  | returned =>
    refine .stepped ⟨hnil, rfl, rfl, rfl, rfl, rfl, rfl, rfl, fun t => ?_⟩
    simp [ofCtx, setPc]

/-- What can be seen of a history without what `Writer` calls add does not change. -/
theorem WriterMoved.observe {l l' : Conn μ} {β : Type} {f : Act μ → Option β} (hw : WriterMoved l l')
    (hf : ∀ a, byWriter a = true → f a = none) :
    l'.cell.history.filterMap f = l.cell.history.filterMap f := by
  obtain ⟨acts, h1, h2⟩ := hw.history
  have hnone : acts.filterMap f = [] :=
    List.filterMap_eq_nil_iff.mpr (fun a ha => hf a (h2 a ha))
  rw [h1, List.filterMap_append, hnone, List.append_nil]

end AsyncGrpc.Single.Moves
