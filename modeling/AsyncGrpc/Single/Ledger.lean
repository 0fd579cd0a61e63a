import AsyncGrpc.Lib.Histories
import AsyncGrpc.Single.Lifecycle

/-! # What the history of an `Rpc` adds up to

The observations of a history: the operations started and the events handled under each tag, with
their `ok` values, the items enqueued and the operations that sent them, the messages received and
passed to the handler. -/

namespace AsyncGrpc.Single.Ledger

open AsyncGrpc.Lib.Runs AsyncGrpc.Lib.Histories
open AsyncGrpc.Model.Types AsyncGrpc.Model.Rpc AsyncGrpc.Model.Service AsyncGrpc.Model.Server
open AsyncGrpc.Single.Machine AsyncGrpc.Single.Moves AsyncGrpc.Single.Project
open AsyncGrpc.Single.Lifecycle

variable {μ : Type} {cfg : Config}

/-! ### Observations -/

/-- The operation started under the tag `t`. -/
def startedAct (t : Tag) : Act μ → Option (Op μ)
  | .start op => if op.tag = t then some op else none
  | _ => none

/-- The `ok` with which the event of the tag `t` was handled. -/
def handledAct (t : Tag) : Act μ → Option Bool
  | .handle t' ok => if t' = t then some ok else none
  | _ => none

/-- The `ok` with which the tag `t` was delivered. -/
def deliveredAct (t : Tag) : Act μ → Option Bool
  | .deliver t' ok _ => if t' = t then some ok else none
  | _ => none

/-- The item enqueued. -/
def enqueuedAct : Act μ → Option (SendItem μ)
  | .enqueue item _ => some item
  | _ => none

/-- The operation that sent an item. -/
def sentAct : Act μ → Option (Op μ)
  | .start op => if op.tag = .write ∨ op.tag = .finish then some op else none
  | _ => none

/-- The message of a read that succeeded. -/
def receivedAct : Act μ → Option μ
  | .deliver .read true m => some m
  | _ => none

/-- The argument of a call of `OnRequest`. -/
def passedAct : Act μ → Option (Option μ)
  | .callback (.onRequest m) => some m
  | _ => none

/-- The operations started under the tag `t`. -/
def started (t : Tag) (h : List (Act μ)) : List (Op μ) := h.filterMap (startedAct t)

/-- The `ok` values the handlers of the tag `t` saw. -/
def handledOks (t : Tag) (h : List (Act μ)) : List Bool := h.filterMap (handledAct t)

/-- The `ok` values delivered with the tag `t`. -/
def deliveredOks (t : Tag) (h : List (Act μ)) : List Bool := h.filterMap (deliveredAct t)

/-- The items in the order of their `EnqueueMessage` calls. -/
def enqueued (h : List (Act μ)) : List (SendItem μ) := h.filterMap enqueuedAct

/-- The operations that sent items. -/
def sentOps (h : List (Act μ)) : List (Op μ) := h.filterMap sentAct

/-- The messages of the reads that succeeded. -/
def received (h : List (Act μ)) : List μ := h.filterMap receivedAct

/-- The messages passed to `OnRequest`. -/
def passed (h : List (Act μ)) : List (Option μ) := h.filterMap passedAct

section Observe
variable {β : Type} {f : Act μ → Option β}

theorem observe_quiet {c c' : Ctx μ} (hf : ∀ a, silent a = true → f a = none) (hq : Quiet c c') :
    c'.history.filterMap f = c.history.filterMap f := by
  obtain ⟨acts, h1, h2, -⟩ := hq.history
  have h3 : acts.filterMap f = [] := List.filterMap_eq_nil_iff.mpr (fun a ha => hf a (h2 a ha))
  rw [h1, List.filterMap_append, h3, List.append_nil]

theorem observe_sendActs (he : ∀ item, f (.enqueue item none) = none) (hp : f (.push none) = none)
    (items : List (SendItem μ)) : (sendActs items).filterMap f = [] := by
  unfold sendActs
  rw [List.filterMap_flatMap]
  simp [he, hp]

theorem observe_issueActs (hs : ∀ m, f (.setResponse m) = none) (rpcType : RpcType)
    (item : SendItem μ) :
    (issueActs rpcType item).filterMap f = [Act.start (opOf rpcType item)].filterMap f := by
  unfold issueActs responseActs
  split_ifs <;> simp [hs]

end Observe

/-! ### Operations started and events handled -/

/-- Under every tag all operations but a pending one have been handled. -/
def Accounted (c : Cell μ) : Prop :=
  ∀ t, (started t c.history).length = (handledOks t c.history).length + flag c.rpc t

section Accounts
variable {l l' : Conn μ} {b : Step μ} {c c' : Ctx μ}

theorem silent_started (t : Tag) (a : Act μ) (h : silent a = true) : startedAct t a = none := by
  cases a <;> simp_all [silent, startedAct]

theorem silent_handled (t : Tag) (a : Act μ) (h : silent a = true) : handledAct t a = none := by
  cases a <;> simp_all [silent, handledAct]

/-- Entries that start and handle nothing do not matter. -/
theorem Accounted.of_eq {a b : Cell μ} (h : Accounted a)
    (hs : ∀ t, started t b.history = started t a.history)
    (hh : ∀ t, handledOks t b.history = handledOks t a.history)
    (hf : ∀ t, flag b.rpc t = flag a.rpc t) : Accounted b := by
  intro t
  rw [hs, hh, hf]
  exact h t

theorem started_sendActs (t : Tag) (items : List (SendItem μ)) : started t (sendActs items) = [] :=
  observe_sendActs (fun _ => rfl) rfl items

theorem handledOks_sendActs (t : Tag) (items : List (SendItem μ)) :
    handledOks t (sendActs items) = [] :=
  observe_sendActs (fun _ => rfl) rfl items

theorem started_append (t : Tag) (h k : List (Act μ)) :
    started t (h ++ k) = started t h ++ started t k := List.filterMap_append

theorem handledOks_append (t : Tag) (h k : List (Act μ)) :
    handledOks t (h ++ k) = handledOks t h ++ handledOks t k := List.filterMap_append

theorem Accounted.calledBack (h : Accounted c.toCell) (cb : Callback μ) (items : List (SendItem μ))
    (w : Bool) : Accounted (calledBack cb items w c).toCell := by
  refine h.of_eq (fun t => ?_) (fun t => ?_) (fun t => rfl)
  · rw [calledBack_history, started_append]
    simpa [started, startedAct] using started_sendActs t items
  · rw [calledBack_history, handledOks_append]
    simpa [handledOks, handledAct] using handledOks_sendActs t items

/-- An operation is started under a tag that is not pending. -/
theorem Accounted.begins (h : Accounted c.toCell) (op : Op μ)
    (hp : (c.rpc.events op.tag).pending = false) : Accounted (begins op c).toCell := by
  intro t
  have h1 := h t
  rw [begins_history, started_append, handledOks_append]
  show _ = _ + flag (setPending op.tag true c.rpc) t
  by_cases ht : t = op.tag
  · subst ht
    rw [flag_setPending_self]
    rw [flag_eq_zero.mpr hp] at h1
    simp [started, startedAct, handledOks, handledAct, List.filterMap_cons] at h1 ⊢
    omega
  · rw [flag_setPending_of_ne _ _ ht]
    simpa [started, startedAct, handledOks, handledAct, List.filterMap_cons, Ne.symm ht] using h1

/-- A pending event is handled. -/
theorem Accounted.pops (h : Accounted c.toCell) {t : Tag}
    (hp : (c.rpc.events t).pending = true) : Accounted (pops t c).toCell := by
  intro t'
  have h1 := h t'
  rw [pops_history, started_append, handledOks_append]
  show _ = _ + flag (setPending t false c.rpc) t'
  by_cases ht : t' = t
  · subst ht
    rw [flag_setPending_self]
    rw [flag_eq_one.mpr hp] at h1
    simp [started, startedAct, handledOks, handledAct, List.filterMap_cons] at h1 ⊢
    omega
  · rw [flag_setPending_of_ne _ _ ht]
    simpa [started, startedAct, handledOks, handledAct, List.filterMap_cons, Ne.symm ht] using h1

theorem Accounted.quiet (h : Accounted c.toCell) (hq : Quiet c c') : Accounted c'.toCell :=
  h.of_eq (fun t => observe_quiet (silent_started t) hq) (fun t => observe_quiet (silent_handled t) hq)
    (fun t => by rw [hq.rpc])

theorem Accounted.setResponse (h : Accounted c.toCell) (m : Option μ) :
    Accounted (setResponse m c).toCell := by
  refine h.of_eq (fun t => ?_) (fun t => ?_) (fun t => rfl)
  · simp [Model.Rpc.setResponse, log, started, startedAct]
  · simp [Model.Rpc.setResponse, log, handledOks, handledAct]

theorem Accounted.issues (h : Accounted c.toCell) {item : SendItem μ} {rest : List (SendItem μ)}
    (hw : (c.rpc.events .write).pending = false) (hf : (c.rpc.events .finish).pending = false) :
    Accounted (issues item rest c).toCell := by
  unfold Moves.issues
  dsimp only
  refine Accounted.begins ?_ _ ?_
  · split_ifs
    · exact Accounted.setResponse (c := { c with rpc := { c.rpc with sendQueue := rest } }) h _
    · exact h
  · rcases opOf_tag c.rpc.rpcHandlerInfo.rpcType item with ht | ht <;> rw [ht] <;>
      split_ifs <;> assumption

theorem Accounted.handled {sd : Bool} {e : RpcEvent} {rest : List RpcEvent} (h : Accounted l.cell)
    (hl : Invariant l) (hi : l.inbox = e :: rest) (hh : Handled sd e ⟨l.cell, []⟩ c') :
    Accounted c'.toCell := by
  refine Handled.rule (J := fun c => Accounted c.toCell) (fun _ _ hq hj => hj.quiet hq)
    (fun _ _ _ _ _ hj => hj.calledBack _ _ _) (fun items w _ hj => ?_) (fun _ _ hp hj => hj.begins _ hp)
    (fun _ _ _ _ hw hf hj => hj.issues hw hf) hh (fun t he => ?_) (fun _ => h) (hl.no_read hi)
  · exact hj.calledBack .initializeHandler items w
  · exact Accounted.pops (c := ⟨l.cell, []⟩) h (hl.tally.of_mem (by rw [hi, he]; simp)).1

theorem started_writerMoved (hw : WriterMoved l l') (t : Tag) :
    started t l'.cell.history = started t l.cell.history :=
  hw.observe (fun a ha => by cases a <;> simp_all [byWriter, startedAct])

theorem handledOks_writerMoved (hw : WriterMoved l l') (t : Tag) :
    handledOks t l'.cell.history = handledOks t l.cell.history :=
  hw.observe (fun a ha => by cases a <;> simp_all [byWriter, handledAct])

theorem Accounted.writerMoved (h : Accounted l.cell) (hw : WriterMoved l l') :
    Accounted l'.cell := by
  refine h.of_eq (started_writerMoved hw) (handledOks_writerMoved hw) (fun t => ?_)
  unfold flag
  rw [hw.events]

theorem Accounted.moved (h : Accounted l.cell) (hl : Invariant l) (hm : Moved l b l') :
    Accounted l'.cell := by
  cases hm.kind with
  | delivered hd =>
    refine h.of_eq (fun t => ?_) (fun t => ?_) (fun t => ?_)
    · simp [deliver, started, startedAct]
    · simp [deliver, handledOks, handledAct]
    · exact flag_deliver _ _ _ _ _
  | handled hi hh => exact h.handled hl hi hh
  | locked hw => exact h.writerMoved hw
  | stepped hw => exact h.writerMoved hw

theorem accounted_of_fresh (h : Fresh l) : Accounted l.cell := by
  obtain ⟨_, _, _, _, _, rfl⟩ := fresh_eq h
  intro t
  cases t <;> rfl

end Accounts

/-! ### Items enqueued and operations that send them -/

/-- The items enqueued are those sent, each by its own operation and in this order, followed by
those that still wait in `send_queue_`. -/
def InOrder (c : Cell μ) : Prop :=
  ∃ sent, enqueued c.history = sent ++ c.rpc.sendQueue ∧
    sentOps c.history = sent.map (opOf c.rpc.rpcHandlerInfo.rpcType)

section Items
variable {l l' : Conn μ} {b : Step μ} {c c' : Ctx μ}

theorem InOrder.of_eq {a b : Cell μ} (h : InOrder a) (he : enqueued b.history = enqueued a.history)
    (hs : sentOps b.history = sentOps a.history) (hq : b.rpc.sendQueue = a.rpc.sendQueue)
    (ht : b.rpc.rpcHandlerInfo = a.rpc.rpcHandlerInfo) : InOrder b := by
  unfold InOrder
  rw [he, hs, hq, ht]
  exact h

/-- New items go to the end of `send_queue_`. -/
theorem InOrder.enqueue {a b : Cell μ} (h : InOrder a) (items : List (SendItem μ))
    (he : enqueued b.history = enqueued a.history ++ items)
    (hs : sentOps b.history = sentOps a.history) (hq : b.rpc.sendQueue = a.rpc.sendQueue ++ items)
    (ht : b.rpc.rpcHandlerInfo = a.rpc.rpcHandlerInfo) : InOrder b := by
  obtain ⟨sent, h1, h2⟩ := h
  refine ⟨sent, ?_, ?_⟩
  · rw [he, hq, h1, List.append_assoc]
  · rw [hs, ht, h2]

theorem enqueued_sendActs : ∀ items : List (SendItem μ), enqueued (sendActs items) = items
  | [] => rfl
  | item :: items => congrArg (item :: ·) (enqueued_sendActs items)

theorem InOrder.calledBack (h : InOrder c.toCell) (cb : Callback μ) (items : List (SendItem μ))
    (w : Bool) : InOrder (calledBack cb items w c).toCell := by
  refine h.enqueue items ?_ ?_ rfl rfl
  · rw [calledBack_history]
    simpa [enqueued, enqueuedAct, List.filterMap_cons] using enqueued_sendActs items
  · rw [calledBack_history]
    have : sentOps (sendActs items) = [] := observe_sendActs (fun _ => rfl) rfl items
    simpa [sentOps, sentAct, List.filterMap_cons] using this

theorem InOrder.quiet (h : InOrder c.toCell) (hq : Quiet c c') : InOrder c'.toCell := by
  refine h.of_eq (observe_quiet (fun a ha => ?_) hq) (observe_quiet (fun a ha => ?_) hq)
    (by rw [hq.rpc]) (by rw [hq.rpc])
  · cases a <;> simp_all [silent, enqueuedAct]
  · cases a <;> simp_all [silent, sentAct]

/-- The head of `send_queue_` is sent. -/
theorem InOrder.issues (h : InOrder c.toCell) {item : SendItem μ} {rest : List (SendItem μ)}
    (hq : c.rpc.sendQueue = item :: rest) : InOrder (issues item rest c).toCell := by
  obtain ⟨sent, h1, h2⟩ := h
  have hsend : (Moves.issues item rest c).rpc.sendQueue = rest ∧
      (Moves.issues item rest c).rpc.rpcHandlerInfo = c.rpc.rpcHandlerInfo := by
    unfold Moves.issues
    dsimp only
    split_ifs <;> exact ⟨rfl, rfl⟩
  refine ⟨sent ++ [item], ?_, ?_⟩
  · rw [hsend.1, issues_history]
    unfold enqueued at h1 ⊢
    rw [List.filterMap_append, observe_issueActs (fun _ => rfl), h1, hq]
    simp [enqueuedAct]
  · rw [hsend.2, issues_history]
    unfold sentOps at h2 ⊢
    rw [List.filterMap_append, observe_issueActs (fun _ => rfl), h2, List.map_append]
    have := opOf_tag c.rpc.rpcHandlerInfo.rpcType item
    simp [sentAct, this]

theorem InOrder.handled {sd : Bool} {e : RpcEvent} {rest : List RpcEvent} (h : InOrder l.cell)
    (hl : Invariant l) (hi : l.inbox = e :: rest) (hh : Handled sd e ⟨l.cell, []⟩ c') :
    InOrder c'.toCell := by
  refine Handled.rule (J := fun c => InOrder c.toCell) (fun _ _ hq hj => hj.quiet hq)
    (fun _ _ _ _ _ hj => hj.calledBack _ _ _) (fun items w _ hj => ?_) (fun _ _ _ hj => ?_)
    (fun _ _ _ hq _ _ hj => hj.issues hq) hh (fun t _ => ?_) (fun _ => h) (hl.no_read hi)
  · exact hj.calledBack .initializeHandler items w
  · refine hj.of_eq ?_ ?_ rfl rfl
    · simp [begins_history, enqueued, enqueuedAct]
    · simp [begins_history, sentOps, sentAct, Op.tag]
  · refine h.of_eq ?_ ?_ rfl rfl
    · simp [pops_history, enqueued, enqueuedAct, List.filterMap_cons]
    · simp [pops_history, sentOps, sentAct, List.filterMap_cons]

theorem InOrder.moved (h : InOrder l.cell) (hl : Invariant l) (hm : Moved l b l') :
    InOrder l'.cell := by
  cases hm with
  | delivered hd =>
    refine h.of_eq ?_ ?_ rfl rfl
    · simp [deliver, enqueued, enqueuedAct]
    · simp [deliver, sentOps, sentAct]
  | handled hi hh => exact h.handled hl hi hh
  | locked => exact h
  | @enqueued i k hk hp =>
    refine h.enqueue [k.method.item] ?_ ?_ rfl rfl
    · simp [ofCtx, setPc, enqueueMessage, log, Ledger.enqueued, enqueuedAct]
    · simp [ofCtx, setPc, enqueueMessage, log, sentOps, sentAct]
  | gotWeakPtr => exact h
  | pushed =>
    refine h.of_eq ?_ ?_ rfl rfl
    · simp [ofCtx, setPc, pushWriteNeeded, log, Ledger.enqueued, enqueuedAct]
    · simp [ofCtx, setPc, pushWriteNeeded, log, sentOps, sentAct]
  | returned => exact h

theorem inOrder_of_fresh (h : Fresh l) : InOrder l.cell := by
  obtain ⟨_, _, _, _, _, rfl⟩ := fresh_eq h
  exact ⟨[], rfl, rfl⟩

end Items

/-! ### Completions delivered and handled -/

/-- What handling an event does not touch: the request, the `ok` values, and the completions that
wait. -/
theorem handled_keeps {l : Conn μ} {sd : Bool} {e : RpcEvent} {rest : List RpcEvent} {c' : Ctx μ}
    (hl : Invariant l) (hi : l.inbox = e :: rest) (hh : Handled sd e ⟨l.cell, []⟩ c') :
    c'.rpc.request = l.cell.rpc.request ∧
      (∀ t, (c'.rpc.events t).ok = (l.cell.rpc.events t).ok) ∧
      ∀ t, .completion t ∉ c'.outbox := by
  have hset : ∀ (t t' : Tag) (b : Bool) (rpc : Rpc μ),
      ((setPending t b rpc).events t').ok = (rpc.events t').ok := by
    intro t t' b rpc
    by_cases ht : t' = t
    · subst ht; simp [setPending]
    · simp [setPending, Function.update_of_ne ht]
  refine Handled.rule (J := fun c => c.rpc.request = l.cell.rpc.request ∧
      (∀ t, (c.rpc.events t).ok = (l.cell.rpc.events t).ok) ∧ ∀ t, .completion t ∉ c.outbox)
    (fun c c1 hq hj => ?_) (fun cb items w c _ hj => ?_) (fun items w c hj => ?_)
    (fun c _ _ hj => ?_) (fun c item rest' _ _ _ hj => ?_) hh (fun t _ => ?_) (fun _ => ?_)
    (hl.no_read hi)
  · rw [hq.rpc, hq.outbox]; exact hj
  · refine ⟨hj.1, hj.2.1, fun t => ?_⟩
    simp only [calledBack, sends, log, List.mem_append, List.mem_replicate, not_or]
    exact ⟨hj.2.2 t, by simp⟩
  · refine ⟨hj.1, hj.2.1, fun t => ?_⟩
    simp only [initialized, calledBack, sends, log, List.mem_append, List.mem_replicate, not_or]
    exact ⟨hj.2.2 t, by simp⟩
  · exact ⟨hj.1, fun t => (hset _ _ _ _).trans (hj.2.1 t), hj.2.2⟩
  · unfold issues begins startOp
    dsimp only
    split_ifs <;> exact ⟨hj.1, fun t => (hset _ _ _ _).trans (hj.2.1 t), hj.2.2⟩
  · exact ⟨rfl, fun t' => hset _ _ _ _, by simp [pops, use, log]⟩
  · exact ⟨rfl, fun _ => rfl, by simp⟩

/-- The entries for which the event itself is responsible. -/
def eventActs (c : Cell μ) : RpcEvent → List (Act μ)
  | .completion t => [.handle t (c.rpc.events t).ok]
  | .writeNeeded => []

/-- The entry is made in the course of handling an event. -/
def inHandler : Act μ → Bool
  | .deliver .. | .handle .. | .enqueue _ (some _) | .push (some _) => false
  | _ => true

/-- What an observation that only looks at completions and `Writer` calls sees of a handled event. -/
theorem observe_handled {β : Type} {f : Act μ → Option β}
    (hf : ∀ a, inHandler a = true → f a = none) {l : Conn μ} {sd : Bool} {e : RpcEvent}
    {rest : List RpcEvent} {c' : Ctx μ} (hl : Invariant l) (hi : l.inbox = e :: rest)
    (hh : Handled sd e ⟨l.cell, []⟩ c') :
    c'.history.filterMap f = l.cell.history.filterMap f ++ (eventActs l.cell e).filterMap f := by
  have hsend : ∀ items : List (SendItem μ), (sendActs items).filterMap f = [] := fun items =>
    observe_sendActs (fun _ => hf _ rfl) (hf _ rfl) items
  have hcall : ∀ cb, f (.callback cb) = none := fun cb => hf _ rfl
  have hstart : ∀ op, f (.start op) = none := fun op => hf _ rfl
  have huse : ∀ m, f (.use m) = none := fun m => hf _ rfl
  refine Handled.rule (J := fun c => c.history.filterMap f =
      l.cell.history.filterMap f ++ (eventActs l.cell e).filterMap f)
    (fun c c1 hq hj => ?_) (fun cb items w c _ hj => ?_) (fun items w c hj => ?_)
    (fun c _ _ hj => ?_) (fun c item rest' _ _ _ hj => ?_) hh (fun t he => ?_) (fun he => ?_)
    (hl.no_read hi)
  · rw [observe_quiet (fun a ha => ?_) hq]
    · exact hj
    · refine hf a ?_
      cases a <;> simp_all [silent, inHandler]
  · rw [calledBack_history, List.filterMap_append, List.filterMap_cons, hcall, hsend, hj]
    simp
  · rw [initialized_history, List.filterMap_append, List.filterMap_cons, hcall, hsend, hj]
    simp
  · rw [begins_history, List.filterMap_append, hj]
    simp [hstart]
  · rw [issues_history, List.filterMap_append,
      observe_issueActs (fun _ => hf _ rfl), hj]
    simp [hstart]
  · subst he
    rw [pops_history, List.filterMap_append]
    simp [eventActs, List.filterMap_cons, huse]
  · subst he
    simp [eventActs]

/-- The `ok` value of a completion that waits in the event queue. -/
def waitingOk (l : Conn μ) (t : Tag) : List Bool :=
  if .completion t ∈ l.inbox then [(l.cell.rpc.events t).ok] else []

/-- The handlers have seen the `ok` values in the order of their delivery, all but one that waits. -/
def Matched (l : Conn μ) : Prop :=
  ∀ t, deliveredOks t l.cell.history = handledOks t l.cell.history ++ waitingOk l t

section Completions
variable {l l' : Conn μ} {b : Step μ} {c c' : Ctx μ}

theorem Matched.of_eq (h : Matched l)
    (hd : ∀ t, deliveredOks t l'.cell.history = deliveredOks t l.cell.history)
    (hh : ∀ t, handledOks t l'.cell.history = handledOks t l.cell.history)
    (hm : ∀ t, .completion t ∈ l'.inbox ↔ .completion t ∈ l.inbox)
    (hok : ∀ t, (l'.cell.rpc.events t).ok = (l.cell.rpc.events t).ok) : Matched l' := by
  intro t
  unfold waitingOk
  rw [hd, hh, hok]
  simp only [hm]
  exact h t

theorem Matched.handled {sd : Bool} {e : RpcEvent} {rest : List RpcEvent} (h : Matched l)
    (hl : Invariant l) (hi : l.inbox = e :: rest) (hh : Handled sd e ⟨l.cell, []⟩ c') :
    Matched (ofCtx rest c') := by
  obtain ⟨-, hok, hout⟩ := handled_keeps hl hi hh
  intro t
  have hd : deliveredOks t c'.history = deliveredOks t l.cell.history := by
    have := observe_handled (f := deliveredAct t)
      (fun a ha => by cases a <;> simp_all [inHandler, deliveredAct]) hl hi hh
    unfold deliveredOks
    rw [this]
    cases e <;> simp [eventActs, deliveredAct, List.filterMap_cons]
  have hh' : handledOks t c'.history =
      handledOks t l.cell.history ++ handledOks t (eventActs l.cell e) :=
    observe_handled (fun a ha => by cases a <;> simp_all [inHandler, handledAct]) hl hi hh
  have hmem : .completion t ∈ (ofCtx rest c').inbox ↔ .completion t ∈ rest := by
    simp only [ofCtx, List.mem_append]
    exact or_iff_left (hout t)
  have h1 := h t
  show deliveredOks t c'.history = handledOks t c'.history ++ waitingOk (ofCtx rest c') t
  rw [hd, hh', h1, List.append_assoc]
  congr 1
  unfold waitingOk
  simp only [hmem, hi, List.mem_cons]
  show _ = _ ++ if _ then [(c'.rpc.events t).ok] else []
  rw [hok]
  by_cases he : e = .completion t
  · subst he
    have hno : .completion t ∉ rest := by
      have := (hl.tally.of_mem (t := t) (by rw [hi]; simp)).2.2
      rw [hi, List.count_cons_self] at this
      exact List.count_eq_zero.mp (by omega)
    simp [hno, eventActs, handledOks, handledAct]
  · have hev : handledOks t (eventActs l.cell e) = [] := by
      cases e with
      | completion t' =>
        have : t' ≠ t := fun h0 => he (by rw [h0])
        simp [eventActs, handledOks, handledAct, this]
      | writeNeeded => rfl
    simp [hev, Ne.symm he]

theorem Matched.writerMoved (h : Matched l) (hw : WriterMoved l l') : Matched l' := by
  refine h.of_eq (fun t => ?_) (handledOks_writerMoved hw) hw.inbox (fun t => by rw [hw.events])
  exact hw.observe (fun a ha => by cases a <;> simp_all [byWriter, deliveredAct])

theorem Matched.moved (h : Matched l) (hl : Invariant l) (hm : Moved l b l') : Matched l' := by
  cases hm.kind with
  | @delivered t ok m hd =>
    have hno : .completion t ∉ l.inbox := by
      intro hin
      have := (hl.tally.of_mem hin).2.1
      unfold deliverable at hd
      simp [this] at hd
    intro t'
    have h1 := h t'
    by_cases ht : t = t'
    · subst ht
      unfold waitingOk at h1 ⊢
      rw [if_neg hno, List.append_nil] at h1
      simpa [deliver, deliveredOks, deliveredAct, handledOks, handledAct, List.filterMap_cons]
        using h1
    · unfold waitingOk at h1 ⊢
      simpa [deliver, deliveredOks, deliveredAct, handledOks, handledAct, List.filterMap_cons, ht,
        Ne.symm ht, Function.update_of_ne (Ne.symm ht)] using h1
  | handled hi hh => exact h.handled hl hi hh
  | locked hw => exact h.writerMoved hw
  | stepped hw => exact h.writerMoved hw

theorem matched_of_fresh (h : Fresh l) : Matched l := by
  obtain ⟨_, _, _, _, _, rfl⟩ := fresh_eq h
  intro t
  rfl

end Completions

/-! ### Along a walk -/

section Walks
variable {Q : Conn μ → Step μ → Prop} {l : Conn μ}

theorem accounted_of_walk (h : Walks Q l) : Accounted l.cell :=
  of_walk (I := fun l => Accounted l.cell) (fun _ => accounted_of_fresh)
    (fun _ _ _ ha hi hm => ha.moved hi hm) h

/-- **Items are sent in the order in which they were enqueued.** -/
theorem inOrder_of_walk (h : Walks Q l) : InOrder l.cell :=
  of_walk (I := fun l => InOrder l.cell) (fun _ => inOrder_of_fresh)
    (fun _ _ _ ho hi hm => ho.moved hi hm) h

/-- **Handlers see the `ok` values that were delivered.** -/
theorem matched_of_walk (h : Walks Q l) : Matched l :=
  of_walk (fun _ => matched_of_fresh) (fun _ _ _ ho hi hm => ho.moved hi hm) h

end Walks

end AsyncGrpc.Single.Ledger
