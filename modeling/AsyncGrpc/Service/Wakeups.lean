import AsyncGrpc.Single.Ledger
import AsyncGrpc.Service.Lifetime

/-! # Nothing that waits to be sent is forgotten

`HandleSendQueue` sends one item, and none while a `WRITE` is pending; the `WRITE_NEEDED` event that
asked for it is gone then. `Prodded`: as long as no `Finish` was issued, somebody will still look at
a `send_queue_` that is not empty: the completion of a `WRITE`, a `WRITE_NEEDED` event in the event
queue, or a `Writer` call that has enqueued its item and not pushed its event yet. -/

namespace AsyncGrpc.Service.Wakeups

open AsyncGrpc.Lib.Runs AsyncGrpc.Model.Types AsyncGrpc.Model.Rpc AsyncGrpc.Model.Service
open AsyncGrpc.Model.Server AsyncGrpc.Single.Machine AsyncGrpc.Single.Moves AsyncGrpc.Single.Project
open AsyncGrpc.Single.Lifecycle AsyncGrpc.Single.Ledger AsyncGrpc.Service.Lifetime

variable {μ : Type} {cfg : Config}

/-- The call has enqueued its item and not pushed its event. -/
def WriterCall.BeforePush (k : WriterCall μ) : Prop := k.pc = .enqueued ∨ k.pc = .gotWeakPtr

/-- A queue that is not empty will be looked at, unless the `Rpc` has left `ActiveRpcs` or a `Finish`
was issued. The events that wait are `inbox`, the `Writer` calls `calls`. -/
def Prodded (c : Cell μ) (inbox : List RpcEvent) (calls : List (WriterCall μ)) : Prop :=
  c.active = true → started .finish c.history = [] → c.rpc.sendQueue ≠ [] →
    (c.rpc.events .write).pending = true ∨ .writeNeeded ∈ inbox ∨
      ∃ k ∈ calls, WriterCall.BeforePush k

section Prodded
variable {l l' : Conn μ} {b : Step μ} {c c' : Ctx μ} {sd : Bool} {e : RpcEvent}
  {rest : List RpcEvent} {calls : List (WriterCall μ)}

/-- Nothing is added to the queue, and nobody who would look at it is lost. -/
theorem Prodded.mono {c c' : Cell μ} {inbox inbox' : List RpcEvent} (h : Prodded c inbox calls)
    (ha : c'.active = true → c.active = true)
    (hs : started .finish c'.history = [] → started .finish c.history = [])
    (hq : c'.rpc.sendQueue = c.rpc.sendQueue)
    (hw : (c.rpc.events .write).pending = true → (c'.rpc.events .write).pending = true)
    (hi : .writeNeeded ∈ inbox → .writeNeeded ∈ inbox') : Prodded c' inbox' calls := by
  intro h1 h2 h3
  rw [hq] at h3
  exact (h (ha h1) (hs h2) h3).imp hw (Or.imp_left hi)

theorem Prodded.of_calls {c : Cell μ} {inbox : List RpcEvent} {calls' : List (WriterCall μ)}
    (h : Prodded c inbox calls) (hk : ∀ k ∈ calls, WriterCall.BeforePush k → k ∈ calls') :
    Prodded c inbox calls' := by
  intro h1 h2 h3
  refine (h h1 h2 h3).imp_right (Or.imp_right ?_)
  rintro ⟨k, hm, hp⟩
  exact ⟨k, hk k hm hp, hp⟩

theorem started_of_append {t : Tag} {h acts : List (Act μ)} (hs : started t (h ++ acts) = []) :
    started t h = [] := by
  rw [started_append] at hs
  exact (List.append_eq_nil_iff.mp hs).1

/-- The handler pushes an event for every item. -/
theorem prodded_calledBack (h : Prodded c.toCell (rest ++ c.outbox) calls) (cb : Callback μ)
    (items : List (SendItem μ)) (w : Bool) :
    Prodded (calledBack cb items w c).toCell (rest ++ (calledBack cb items w c).outbox) calls := by
  have hout : (calledBack cb items w c).outbox =
      c.outbox ++ List.replicate items.length .writeNeeded := rfl
  rw [hout]
  rcases items with _ | ⟨item, items⟩
  · refine h.mono id (fun hs => ?_) (by simp [calledBack, sends, log]) id (by simp)
    rw [calledBack_history] at hs
    exact started_of_append hs
  · intro _ _ _
    simp [List.replicate_succ]

theorem prodded_quiet (h : Prodded c.toCell (rest ++ c.outbox) calls) (hq : Quiet c c') :
    Prodded c'.toCell (rest ++ c'.outbox) calls := by
  obtain ⟨acts, h1, -, hact⟩ := hq.history
  rw [hq.outbox]
  refine h.mono (fun ha => (hact.mp ha).1) (fun hs => ?_) (by rw [hq.rpc]) (by rw [hq.rpc]; exact id) id
  rw [h1] at hs
  exact started_of_append hs

theorem prodded_begins (h : Prodded c.toCell (rest ++ c.outbox) calls) (op : Op μ) :
    Prodded (begins op c).toCell (rest ++ (begins op c).outbox) calls := by
  refine h.mono id (fun hs => ?_) rfl (fun hp => ?_) id
  · rw [begins_history] at hs
    exact started_of_append hs
  · by_cases ht : Tag.write = op.tag
    · rw [ht]
      exact begins_pending_self op c
    · rw [begins_events_of_ne ht]
      exact hp

/-- Sending an item leaves a `WRITE` pending, or it is a `Finish`. -/
theorem issues_writes {item : SendItem μ} {rest' : List (SendItem μ)}
    (hs : started .finish (issues item rest' c).history = []) :
    ((issues item rest' c).rpc.events .write).pending = true := by
  rw [issues_history, issueActs, started_append, started_append] at hs
  rcases opOf_tag c.rpc.rpcHandlerInfo.rpcType item with ht | ht
  · rw [← ht]
    exact begins_pending_self _ _
  · simp [started, startedAct, ht] at hs

/-- `HandleSendQueue` leaves the queue empty, a `WRITE` pending or a `Finish` issued. -/
theorem sentQueue_writes (hq : SentQueue c c')
    (hfin : (c.rpc.events .finish).pending = true → started .finish c.history ≠ [])
    (hs : started .finish c'.history = []) (hne : c'.rpc.sendQueue ≠ []) :
    (c'.rpc.events .write).pending = true := by
  cases hq with
  | idle h =>
    rcases h with h | h | h
    · exact absurd h hne
    · exact h
    · exact absurd hs (hfin h)
  | issued => exact issues_writes hs

theorem started_finish_of_pending {c : Cell μ} (h : Accounted c)
    (hp : (c.rpc.events .finish).pending = true) : started .finish c.history ≠ [] := by
  have h1 := h .finish
  rw [flag_eq_one.mpr hp] at h1
  exact List.length_pos_iff.mp (by omega)

/-- The queue is looked at when a `WRITE` or `WRITE_NEEDED` event is handled. -/
theorem prodded_sentQueue {c0 : Ctx μ} (hq : SentQueue c0 c') (ha : Accounted c.toCell)
    (hs0 : started .finish c0.history = started .finish c.history)
    (he : c0.rpc.events .finish = c.rpc.events .finish) :
    Prodded (tidies c').toCell (rest ++ (tidies c').outbox) calls := by
  intro _ hs hne
  rw [tidies_history] at hs
  rw [tidies_rpc] at hne ⊢
  refine Or.inl (sentQueue_writes hq (fun hp => ?_) (started_of_append hs) hne)
  rw [he] at hp
  rw [hs0]
  exact started_finish_of_pending ha hp

theorem prodded_handled (h : Prodded l.cell l.inbox l.cell.calls) (ha : Accounted l.cell)
    (hl : Invariant l) (hi : l.inbox = e :: rest) (hh : Handled sd e ⟨l.cell, []⟩ c') :
    Prodded c'.toCell (rest ++ c'.outbox) l.cell.calls := by
  by_cases he : e = .completion .write ∨ e = .writeNeeded
  · rcases he with rfl | rfl
    · cases hh with
      | write hq =>
        refine prodded_sentQueue hq ha ?_ (pops_events_of_ne (by decide) _)
        rw [use_history, pops_history, started_append, started_append]
        simp [started, startedAct]
    · cases hh with
      | writeNeeded halive hq =>
        refine prodded_sentQueue (c := ⟨l.cell, []⟩) hq ha ?_ rfl
        rw [use_history, wakes_history, started_append, started_append]
        simp [started, startedAct]
      | stale hdead =>
        intro hact
        have hlive : l.cell.alive = true := by
          unfold Cell.alive
          rw [show l.cell.active = true from hact, Bool.true_or]
        cases hdead.symm.trans hlive
  · push Not at he
    refine Handled.rule (J := fun c => Prodded c.toCell (rest ++ c.outbox) l.cell.calls)
      (fun _ _ hq hj => prodded_quiet hj hq) (fun cb items w _ _ hj => prodded_calledBack hj cb items w)
      (fun items w _ hj => prodded_calledBack hj .initializeHandler items w)
      (fun _ _ _ hj => prodded_begins hj .read) (fun _ _ _ _ _ _ _ _ hs _ => Or.inl (issues_writes hs))
      hh (fun t ht => ?_) (fun hn => absurd hn he.2) (hl.no_read hi)
    have hne : Tag.write ≠ t := fun h0 => he.1 (by rw [ht, h0])
    refine h.mono id (fun hs => ?_) rfl (fun hp => ?_) (fun hm => ?_)
    · rw [pops_history] at hs
      exact started_of_append hs
    · rw [pops_events_of_ne hne]
      exact hp
    · rw [hi, ht] at hm
      exact List.mem_append_left _ ((List.mem_cons.mp hm).resolve_left (by simp))

/-- A call that is before its push is still there when another one moves on. -/
theorem mem_set_beforePush {i : ℕ} {k k' x : WriterCall μ} (hk : calls[i]? = some k)
    (hp : ¬ WriterCall.BeforePush k) (hm : x ∈ calls) (hx : WriterCall.BeforePush x) :
    x ∈ calls.set i k' := by
  obtain ⟨j, hj⟩ := List.getElem?_of_mem hm
  have hne : i ≠ j := by
    rintro rfl
    rw [hk] at hj
    cases hj
    exact hp hx
  exact List.mem_of_getElem? ((List.getElem?_set_ne hne).trans hj)

theorem mem_set_self {i : ℕ} {k k' : WriterCall μ} (hk : calls[i]? = some k) :
    k' ∈ calls.set i k' :=
  List.mem_of_getElem? (List.getElem?_set_self (List.getElem?_eq_some_iff.mp hk).1)

theorem prodded_moved (h : Prodded l.cell l.inbox l.cell.calls) (ha : Accounted l.cell)
    (hl : Invariant l) (hm : Moved l b l') : Prodded l'.cell l'.inbox l'.cell.calls := by
  cases hm with
  | @delivered t ok m hd =>
    refine h.mono id (fun hs => started_of_append hs) rfl (fun hp => ?_) (List.mem_append_left _)
    exact (pending_deliver _ _ _ _ _).trans hp
  | handled hi hh =>
    show Prodded _ _ (Ctx.toCell _).calls
    rw [hh.calls]
    exact prodded_handled h ha hl hi hh
  | locked => exact h.of_calls (fun k hm _ => List.mem_append_left _ hm)
  | enqueued hk hp =>
    intro _ _ _
    exact Or.inr (Or.inr ⟨_, mem_set_self hk, Or.inl rfl⟩)
  | gotWeakPtr hk hp =>
    intro _ _ _
    exact Or.inr (Or.inr ⟨_, mem_set_self hk, Or.inr rfl⟩)
  | pushed hk hp =>
    intro _ _ _
    refine Or.inr (Or.inl ?_)
    simp [ofCtx, setPc, pushWriteNeeded, log]
  | returned hk hp =>
    have hno : ∀ k : WriterCall μ, k.pc = .pushed → ¬ WriterCall.BeforePush k := by
      rintro k hk (h | h) <;> cases hk.symm.trans h
    refine (h.of_calls (fun k hm hb => mem_set_beforePush hk (hno _ hp) hm hb)).mono id id rfl id ?_
    simp [ofCtx, setPc]

theorem prodded_of_fresh (h : Fresh l) : Prodded l.cell l.inbox l.cell.calls := by
  obtain ⟨_, _, _, _, _, rfl⟩ := fresh_eq h
  exact fun _ _ hne => absurd rfl hne

theorem prodded_of_walk {Q : Conn μ → Step μ → Prop} (h : Walks Q l) :
    Prodded l.cell l.inbox l.cell.calls :=
  (of_walk (I := fun l => Accounted l.cell ∧ Prodded l.cell l.inbox l.cell.calls)
    (fun _ hf => ⟨accounted_of_fresh hf, prodded_of_fresh hf⟩)
    (fun _ _ _ hp hi hm => ⟨hp.1.moved hi hm, prodded_moved hp.2 hp.1 hi hm⟩) h).2

end Prodded

/-- **No queued response is stranded.** In every state of every run and for every `Rpc` in
`ActiveRpcs` for which no `Finish` was issued: if `send_queue_` is not empty, then the `WRITE` tag is
still to come, or a `WRITE_NEEDED` event waits in the event queue of the `Rpc`, or some call is
between its `EnqueueMessage` and its `Push`. -/
theorem queued_not_stranded {s : State μ} {r : ℕ} {c : Cell μ} (hs : Reachable (server μ cfg) s)
    (hc : s.cells[r]? = some c) (hact : c.active = true) (hfin : started .finish c.history = [])
    (hq : c.rpc.sendQueue ≠ []) :
    Awaited s r .write ∨ (r, .writeNeeded) ∈ s.eventQueues c.rpc.eventQueue ∨
      ∃ k ∈ c.calls, k.pc = .enqueued ∨ k.pc = .gotWeakPtr := by
  have hl := conn_of_cell hc
  rcases prodded_of_walk (walks_of_reachable hs hl) hact hfin hq with h | h | h
  · refine Or.inl ((awaited_iff hs hl .write).mpr ?_)
    exact awaited_of_pending (invariant_of_reachable hs hl) h (fun h => nomatch h)
  · exact Or.inr (Or.inl (mem_pick.mp h))
  · exact Or.inr (Or.inr h)

/-- The event for the second message is handled while the first is being written. -/
theorem queued_not_stranded_second : ∃ (s : State ℕ) (c : Cell ℕ),
    Reachable (server ℕ (.single .serverStreaming)) s ∧ s.cells[0]? = some c ∧
      c.rpc.sendQueue = [⟨some 2, .OK⟩] ∧ s.eventQueues 0 = [] ∧ c.calls = [] ∧
      Awaited s 0 .write := by
  obtain ⟨s, hr, hp⟩ := exists_run (server ℕ (.single .serverStreaming))
    [.deliver 0 .newConnection true 7,
      .handle 0 { onRequest := [.send (some 1), .send (some 2)] }, .handle 0 {}, .handle 0 {}]
    (fun s => s.cells[0]?.any (fun c : Cell ℕ => decide (c.active = true ∧
      started .finish c.history = [] ∧ c.rpc.sendQueue = [⟨some 2, .OK⟩] ∧ c.calls = [] ∧
        s.eventQueues c.rpc.eventQueue = [] ∧ s.eventQueues 0 = []))) (by decide)
  simp only [Option.any_eq_true, decide_eq_true_eq] at hp
  obtain ⟨c, hc, hact, hfin, hq, hcalls, hempty, hempty'⟩ := hp
  refine ⟨s, c, hr.reachable, hc, hq, hempty', hcalls, ?_⟩
  rcases queued_not_stranded hr.reachable hc hact hfin (by rw [hq]; simp) with h | h | ⟨k, hm, -⟩
  · exact h
  · rw [hempty] at h
    cases h
  · rw [hcalls] at hm
    cases hm

end AsyncGrpc.Service.Wakeups
