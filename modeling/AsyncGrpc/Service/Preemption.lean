import AsyncGrpc.Service.Wakeups
import AsyncGrpc.Single.Threads

/-! # All threads of a server at the same time

`Service.Lifetime`, `Service.Tags`, `Service.Sending` and `Service.Wakeups` see a server that handles an
event in one step. Here the event threads work at the same time, completions come in and `Writer` calls
move on at any point of the handling of an event, also inside a callback. `busy s r` is the `Rpc` number
`r` of such a server.

* `preempted_lifetime`: tags are outstanding once at most and as the flags say, an entry is removed only
  when nothing is outstanding, and an entry that stays waits for something.
* `preempted_sends`: responses are neither reordered nor lost, and one that is queued is looked at again.
* `preempted_aborts`: two `CHECK`s can fail, that of `GetWeakPtr` and that of the span. -/

namespace AsyncGrpc.Service.Preemption

open AsyncGrpc.Lib.Runs AsyncGrpc.Model.Types AsyncGrpc.Model.Rpc AsyncGrpc.Model.Service
open AsyncGrpc.Model.Server AsyncGrpc.Server.EventThreads
open AsyncGrpc.Single.Machine AsyncGrpc.Single.Moves
open AsyncGrpc.Single.Lifecycle AsyncGrpc.Single.Ledger AsyncGrpc.Single.Failures
open AsyncGrpc.Single.EventThread AsyncGrpc.Single.Interleaving AsyncGrpc.Single.Tasks
open AsyncGrpc.Single.Threads
open AsyncGrpc.Single.Spans (perform_fails)
open AsyncGrpc.Service.Wakeups

variable {μ : Type} {cfg : Config} {s s' : Busy μ} {a : BusyStep μ} {c c' : Ctx μ} {l0 : Conn μ}

/-! ### Tags and entries -/

/-- How often the tag `t` is outstanding. -/
def outstanding (s : Busy μ) (t : Tag) : ℕ := s.ctx.ops t + s.ctx.outbox.count (.completion t)

theorem outstanding_eq (h : Sound s) (t : Tag) : outstanding s t = flag s.ctx.rpc t := h.tally t

theorem completionTasks_active {sd ok : Bool} {t : Tag} (ht : t ≠ .newConnection) :
    (completionTasks sd t ok c).1.active = c.active := by
  cases t with
  | newConnection => exact absurd rfl ht
  | read => unfold completionTasks; dsimp only; split_ifs <;> rfl
  | write => rfl
  | finish => rfl
  | done => rfl

/-- An entry is removed when a `NEW_CONNECTION` is refused, or with the last task of an event if no flag
is set. -/
theorem removed_of_stepped (hs : Stepped s a s') (hon : s.ctx.active = true)
    (hoff : s'.ctx.active = false) :
    (∃ sd, a = .takeUp sd) ∧ s.ctx.outbox.head? = some (.completion .newConnection) ∨
      s'.ctx.rpc = s.ctx.rpc ∧ anyPending s.ctx.rpc = false ∧ s.todo ≠ [] := by
  have hsame (h : s'.ctx.active = s.ctx.active) : False := by
    rw [h, hon] at hoff
    cases hoff
  cases hs with
  | @takenUp sd e rest hout htodo hin =>
    cases e with
    | completion t =>
      by_cases ht : t = .newConnection
      · subst ht
        exact .inl ⟨⟨sd, rfl⟩, by rw [hout]; rfl⟩
      · exact (hsame (completionTasks_active ht)).elim
    | writeNeeded =>
      refine (hsame ?_).elim
      show (if _ then _ else _ : Ctx μ × List Task).1.active = _
      split_ifs <;> rfl
  | @performed task todo new inside c' htodo hin hp =>
    cases hp with
    | sent hq => exact (hsame hq.frame.2.2.1).elim
    | tidied =>
      refine .inr ⟨tidies_rpc _, ?_, by rw [htodo]; simp⟩
      rw [tidies_active, hon] at hoff
      simpa using hoff
    | _ => exact (hsame rfl).elim
  | @left p hin => exact (hsame (by cases p <;> rfl)).elim
  | called => exact (hsame rfl).elim
  | other hb hm => exact (hsame (Moved.other (otherStep_ne_handle hb) hm).1).elim

/-- Nothing is outstanding when no flag is set. -/
theorem outstanding_of_settled (h : Sound s) (hn : (s.ctx.rpc.events .newConnection).pending = false)
    (hno : anyPending s.ctx.rpc = false) (t : Tag) : outstanding s t = 0 := by
  rw [outstanding_eq h, flag_eq_zero]
  by_cases ht : t = .newConnection
  · rw [ht]
    exact hn
  · exact anyPending_eq_false.mp hno t ht

/-- A tag that is pending will still be handled, `DONE` if the connection was accepted. -/
theorem awaits_of_pending (h : Sound s) {t : Tag} (hp : (s.ctx.rpc.events t).pending = true)
    (hd : t = .done → s.ctx.accepted = some true) :
    deliverable t s.ctx.toCell = true ∨ .completion t ∈ s.ctx.outbox := by
  have hone : outstanding s t = 1 := (outstanding_eq h t).trans (flag_eq_one.mpr hp)
  by_cases hm : .completion t ∈ s.ctx.outbox
  · exact .inr hm
  · refine .inl (deliverable_iff.mpr ⟨?_, hd⟩)
    have hcount : s.ctx.outbox.count (.completion t) = 0 := List.count_eq_zero.mpr hm
    unfold outstanding at hone
    omega

/-- An entry for which the event thread has nothing to do waits for a tag. -/
theorem awaits_of_active (h : Sound s) (hon : s.ctx.active = true) (htodo : s.todo = []) :
    ∃ t, deliverable t s.ctx.toCell = true ∨ .completion t ∈ s.ctx.outbox := by
  cases h.stage with
  | waiting _ hn => exact ⟨.newConnection, awaits_of_pending h hn (fun hd => nomatch hd)⟩
  | begun hb =>
    have hpend : anyPending s.ctx.rpc = true := by simpa [htodo] using hb.busy hon
    obtain ⟨t, -, hp⟩ : ∃ t, t ≠ .newConnection ∧ (s.ctx.rpc.events t).pending = true := by
      by_contra hno
      push Not at hno
      have hnone := anyPending_eq_false.mpr fun t ht => Bool.eq_false_iff.mpr (hno t ht)
      cases hnone.symm.trans hpend
    exact ⟨t, awaits_of_pending h hp (fun _ => hb.accepted hon)⟩

/-- An entry leaves with nothing outstanding, unless its `NEW_CONNECTION` is refused. -/
theorem settled_of_removed (h : Sound s) (hs : Stepped s a s') (hon : s.ctx.active = true)
    (hoff : s'.ctx.active = false) :
    (∃ sd, a = .takeUp sd) ∧ s.ctx.outbox.head? = some (.completion .newConnection) ∨
      ∀ t, outstanding s' t = 0 := by
  refine (removed_of_stepped hs hon hoff).imp_right ?_
  rintro ⟨hrpc, hno, htodo⟩ t
  have hn : (s.ctx.rpc.events .newConnection).pending = false := by
    cases h.stage with
    | waiting _ _ hnil => exact absurd hnil htodo
    | begun hb => exact hb.settled
  exact outstanding_of_settled (h.stepped hs) (by rw [hrpc]; exact hn) (by rw [hrpc]; exact hno) t

theorem sound_of_threaded {s : Threaded μ} {r : ℕ} {b : Busy μ} (hs : Reachable (threaded μ cfg) s)
    (hb : busy s r = some b) : Sound b := by
  obtain ⟨l0, hf, hr⟩ := interleaved_of_reachable hs hb
  exact sound_of_reachable hf hr

/-- **Tags and entries with all threads at work.** At any point of the handling of an event, a tag of an
`Rpc` is outstanding at most once, exactly when its flag is set, and all other operations started under it
have been handled; `WRITE` and `FINISH` are not outstanding together. The entry of an `Rpc` leaves
`ActiveRpcs` when its `NEW_CONNECTION` is refused, or with nothing outstanding; and while it is there and
no thread handles an event of the `Rpc`, some tag is still to come. -/
theorem preempted_lifetime {s : Threaded μ} {r : ℕ} {b : Busy μ} (hs : Reachable (threaded μ cfg) s)
    (hb : busy s r = some b) :
    (∀ t, outstanding b t ≤ 1 ∧ ((b.ctx.rpc.events t).pending = true ↔ outstanding b t = 1) ∧
        (started t b.ctx.history).length = (handledOks t b.ctx.history).length + outstanding b t) ∧
      (outstanding b .write = 0 ∨ outstanding b .finish = 0) ∧
      (∀ a s' b', (threaded μ cfg).Step s a s' → busy s' r = some b' →
        b.ctx.active = true → b'.ctx.active = false →
        (∃ q rest, a = .takeUp q ∧ s.state.eventQueues q = (r, .completion .newConnection) :: rest) ∨
          ∀ t, outstanding b' t = 0) ∧
      (b.ctx.active = true → b.todo = [] → b.inside = none →
        ∃ t, deliverable t b.ctx.toCell = true ∨ .completion t ∈ b.ctx.outbox) := by
  have h := sound_of_threaded hs hb
  refine ⟨fun t => ?_, ?_, fun a s' b' hstep hb' hon hoff => ?_,
    fun hon htodo _ => awaits_of_active h hon htodo⟩
  · rw [outstanding_eq h]
    exact ⟨flag_le_one _ _, flag_eq_one.symm, h.accounted t⟩
  · rw [outstanding_eq h, outstanding_eq h, flag_eq_zero, flag_eq_zero]
    exact h.exclusive
  · rcases step_or_eq hs hstep hb hb' with ⟨-, rfl⟩ | ⟨st, hst, hgo⟩
    · cases hon.symm.trans hoff
    · refine (settled_of_removed h (stepped_of_step hgo) hon hoff).imp_left ?_
      rintro ⟨⟨sd, rfl⟩, hhead⟩
      cases actsAs_of_stepOf hst with
      | @takeUp q e rest _ hq =>
        rw [outbox_of_queue hs hb hq] at hhead
        cases hhead
        exact ⟨q, rest, rfl, hq⟩

/-- A service with two methods whose `Rpc`s have event threads of their own. -/
def twoMethods (rpcType : RpcType) : Config :=
  ⟨[[⟨⟨"Handler"⟩, rpcType, "/s/m"⟩, ⟨⟨"Handler"⟩, rpcType, "/s/n"⟩]], 1, fun n => n % 2⟩

/-- Both threads have accepted a connection and are in `Initialize`, which gets a `Writer`. -/
def initializing : List (ThreadStep ℕ) :=
  [.other (.deliver 0 .newConnection true 7), .other (.deliver 1 .newConnection true 8), .takeUp 0,
    .takeUp 1, .goOn 0, .goOn 1, .goOn 0, .goOn 1, .call 0 .getWriter, .call 1 .getWriter]

/-- `DONE` comes while both threads are in `Initialize`; no other tag is outstanding then. -/
theorem preempted_lifetime_initializing : ∃ (s : Threaded ℕ) (b : Busy ℕ),
    Reachable (threaded ℕ (twoMethods .bidiStreaming)) s ∧ busy s 0 = some b ∧
      (s.threads 1).inside = some .initializeHandler ∧ b.inside = some .initializeHandler ∧
      outstanding b .done = 1 ∧ outstanding b .newConnection = 0 ∧ outstanding b .read = 0 := by
  obtain ⟨s, hr, hp⟩ := exists_run (threaded ℕ (twoMethods .bidiStreaming))
    (initializing ++ [.other (.deliver 0 .done true 0)])
    (fun s => (busy s 0).any fun b : Busy ℕ => decide ((s.threads 1).inside = some .initializeHandler ∧
      b.inside = some .initializeHandler ∧ (b.ctx.rpc.events .done).pending = true ∧
      (b.ctx.rpc.events .newConnection).pending = false ∧ (b.ctx.rpc.events .read).pending = false))
    (by decide)
  obtain ⟨b, hb, hp⟩ := (Option.any_eq_true _ _).mp hp
  obtain ⟨hone, hin, hd, hn, hread⟩ := of_decide_eq_true hp
  have htags := (preempted_lifetime hr.reachable hb).1
  have hzero (t : Tag) (ht : (b.ctx.rpc.events t).pending = false) : outstanding b t = 0 := by
    have hle := (htags t).1
    have hne : outstanding b t ≠ 1 := fun h => Bool.eq_false_iff.mp ht ((htags t).2.1.mpr h)
    omega
  exact ⟨s, b, hr.reachable, hb, hone, hin, (htags .done).2.1.mp hd, hzero _ hn, hzero _ hread⟩

/-! ### Responses -/

/-- A queue that is not empty will be looked at, by the event thread that is about to or as `Prodded`
says. -/
def Attended (s : Busy μ) : Prop :=
  .handleSendQueue ∈ s.todo ∨ Prodded s.ctx.toCell s.ctx.outbox s.ctx.calls

theorem Prodded.logged (h : Prodded c.toCell c.outbox c.calls) {act : Act μ} :
    Prodded (log act c).toCell (log act c).outbox (log act c).calls :=
  h.mono id (fun hs => started_of_append hs) rfl id id

theorem Prodded.sends (h : Prodded c.toCell c.outbox c.calls) (items : List (SendItem μ)) (w : Bool) :
    Prodded ({ Single.Moves.sends items c with writer := w } : Ctx μ).toCell
      (c.outbox ++ List.replicate items.length .writeNeeded) c.calls := by
  rcases items with _ | ⟨item, items⟩
  · exact h.mono id (fun hs => started_of_append hs) (by simp [Single.Moves.sends]) id (by simp)
  · intro _ _ _
    simp [List.replicate_succ]

/-- The other threads push an event for every item. -/
theorem Prodded.other {b : Step μ} {l l' : Conn μ} (h : Prodded l.cell l.inbox l.cell.calls)
    (hb : ∀ sd script, b ≠ .handle sd script) (hm : Moved l b l') :
    Prodded l'.cell l'.inbox l'.cell.calls := by
  cases hm with
  | delivered =>
    refine h.mono id (fun hs => started_of_append hs) rfl (fun hp => ?_) (List.mem_append_left _)
    exact (pending_deliver _ _ _ _ _).trans hp
  | handled => exact absurd rfl (hb _ _)
  | locked => exact h.of_calls (fun k hm _ => List.mem_append_left _ hm)
  | enqueued hk => exact fun _ _ _ => .inr (.inr ⟨_, mem_set_self hk, .inl rfl⟩)
  | gotWeakPtr hk => exact fun _ _ _ => .inr (.inr ⟨_, mem_set_self hk, .inr rfl⟩)
  | pushed =>
    refine fun _ _ _ => .inr (.inl ?_)
    simp [ofCtx, setPc, pushWriteNeeded, log]
  | @returned i k hk hp =>
    have hno : ¬ WriterCall.BeforePush k := by
      rintro (h | h) <;> cases hp.symm.trans h
    refine (h.of_calls (fun k hm hb => mem_set_beforePush hk hno hm hb)).mono id id rfl id ?_
    simp [ofCtx, setPc]

theorem completionTasks_calls (sd ok : Bool) (t : Tag) :
    (completionTasks sd t ok c).1.calls = c.calls := by
  cases t with
  | newConnection => unfold completionTasks; dsimp only; split_ifs <;> simp
  | read => unfold completionTasks; dsimp only; split_ifs <;> rfl
  | write => rfl
  | finish => rfl
  | done => rfl

/-- An event is taken up: that of `WRITE`, and `WRITE_NEEDED`, lead to the queue. -/
theorem Attended.takenUp (h : Attended s) {sd : Bool} {e : RpcEvent} {rest : List RpcEvent}
    (hout : s.ctx.outbox = e :: rest) (htodo : s.todo = []) :
    Attended ⟨(takeUp sd e { s.ctx with outbox := rest }).1,
      (takeUp sd e { s.ctx with outbox := rest }).2, none⟩ := by
  have hprod : Prodded s.ctx.toCell s.ctx.outbox s.ctx.calls := by
    refine h.resolve_left ?_
    rw [htodo]
    simp
  cases e with
  | completion t =>
    by_cases ht : Tag.write = t
    · subst ht
      exact .inl (List.mem_cons_of_mem _ List.mem_cons_self)
    · let c : Ctx μ := pops t { s.ctx with outbox := rest }
      have hpops : Prodded c.toCell ([] ++ c.outbox) s.ctx.calls := by
        refine hprod.mono id (fun hs => ?_) rfl (fun hp => ?_) (fun hm => ?_)
        · rw [pops_history] at hs
          exact started_of_append hs
        · rw [pops_events_of_ne ht]
          exact hp
        · rw [hout] at hm
          exact (List.mem_cons.mp hm).resolve_left (by simp)
      have hquiet := prodded_quiet hpops (quiet_completionTasks sd t (s.ctx.rpc.events t).ok c)
      refine .inr ?_
      show Prodded _ _ (completionTasks sd t (s.ctx.rpc.events t).ok c).1.calls
      rw [completionTasks_calls]
      exact hquiet
  | writeNeeded =>
    show Attended ⟨(if _ then _ else _ : Ctx μ × List Task).1, (if _ then _ else _ : Ctx μ × List Task).2,
      none⟩
    split_ifs with halive
    · exact .inl (List.mem_cons_of_mem _ List.mem_cons_self)
    · refine .inr fun hon => absurd ?_ halive
      show (s.ctx.active || _) = true
      rw [show s.ctx.active = true from hon]
      rfl

theorem Attended.performed (h : Attended s) (ha : Accounted s.ctx.toCell) {task : Task}
    {todo new : List Task} {inside : Option Inside} (htodo : s.todo = task :: todo)
    (hp : Performed s.ctx task c' new inside) : Attended ⟨c', new ++ todo, inside⟩ := by
  -- A task other than `HandleSendQueue` leaves that one where it was.
  have hkeep (hne : task ≠ .handleSendQueue)
      (hprod : Prodded s.ctx.toCell s.ctx.outbox s.ctx.calls → Prodded c'.toCell c'.outbox c'.calls) :
      Attended ⟨c', new ++ todo, inside⟩ := by
    refine h.imp (fun hm => ?_) hprod
    rw [htodo] at hm
    exact List.mem_append_right _ ((List.mem_cons.mp hm).resolve_left hne.symm)
  cases hp with
  | used => exact hkeep (by simp) fun hprod => Prodded.logged hprod
  | connected => exact hkeep (by simp) id
  | connecting => exact hkeep (by simp) fun hprod => Prodded.logged hprod
  | streaming =>
    refine hkeep (by simp) fun hprod => ?_
    have hprod' : Prodded s.ctx.toCell ([] ++ s.ctx.outbox) s.ctx.calls := hprod
    exact prodded_begins hprod' .read
  | unary => exact hkeep (by simp) id
  | entered hcb =>
    refine hkeep ?_ fun hprod => Prodded.logged hprod
    rintro rfl
    cases hcb
  | sent hq =>
    refine .inr fun _ hs hne => .inl (sentQueue_writes hq (fun hp => ?_) hs hne)
    exact started_finish_of_pending ha hp
  | tidied =>
    refine hkeep (by simp) fun hprod => ?_
    have hprod' : Prodded s.ctx.toCell ([] ++ s.ctx.outbox) s.ctx.calls := hprod
    rw [tidies_calls]
    exact prodded_quiet hprod' (quiet_tidies _)

theorem Attended.stepped (h : Attended s) (ha : Accounted s.ctx.toCell) (hs : Stepped s a s') :
    Attended s' := by
  cases hs with
  | takenUp hout htodo => exact h.takenUp hout htodo
  | performed htodo _ hp => exact h.performed ha htodo hp
  | @left p => cases p <;> exact h
  | called => exact h.imp_right fun hprod => Prodded.sends hprod _ _
  | other hb hm => exact h.imp_right fun hprod => Prodded.other hprod (otherStep_ne_handle hb) hm

theorem attended_of_reachable (hf : Fresh l0) (hs : Reachable (interleaved l0) s) : Attended s := by
  refine (inv_of_reachable (I := fun s => Sound s ∧ Attended s)
    ⟨sound_of_fresh hf, .inr (prodded_of_fresh hf)⟩ (fun s a s' hi hs => ?_) hs).2
  have hstep := stepped_of_step hs
  exact ⟨hi.1.stepped hstep, hi.2.stepped hi.1.accounted hstep⟩

/-- **Responses with all threads at work.** At any point of the handling of an event, the items of an
`Rpc` are, in the order of their `EnqueueMessage` calls, those handed to gRPC followed by those in
`send_queue_`; and a queue that is not empty is not forgotten: a `WRITE` is outstanding, a `WRITE_NEEDED`
event waits, a call has yet to push its event, or the event thread is about to look at the queue. -/
theorem preempted_sends {s : Threaded μ} {r : ℕ} {b : Busy μ} (hs : Reachable (threaded μ cfg) s)
    (hb : busy s r = some b) :
    (∃ sent, enqueued b.ctx.history = sent ++ b.ctx.rpc.sendQueue ∧
        sentOps b.ctx.history = sent.map (opOf b.ctx.rpc.rpcHandlerInfo.rpcType)) ∧
      (b.ctx.active = true → started .finish b.ctx.history = [] → b.ctx.rpc.sendQueue ≠ [] →
        outstanding b .write = 1 ∨ .writeNeeded ∈ b.ctx.outbox ∨
          (∃ k ∈ b.ctx.calls, k.pc = .enqueued ∨ k.pc = .gotWeakPtr) ∨
          .handleSendQueue ∈ b.todo) := by
  have h := sound_of_threaded hs hb
  obtain ⟨l0, hf, hr⟩ := interleaved_of_reachable hs hb
  refine ⟨h.inOrder, fun hon hfin hne => ?_⟩
  rcases attended_of_reachable hf hr with hm | hprod
  · exact .inr (.inr (.inr hm))
  · rcases hprod hon hfin hne with hp | hm | hk
    · exact .inl ((outstanding_eq h .write).trans (flag_eq_one.mpr hp))
    · exact .inr (.inl hm)
    · exact .inr (.inr (.inl hk))

/-- A `Writer` has enqueued its item while `Initialize` runs; its event is not pushed yet. -/
theorem preempted_sends_initializing : ∃ (s : Threaded ℕ) (b : Busy ℕ),
    Reachable (threaded ℕ (twoMethods .serverStreaming)) s ∧ busy s 1 = some b ∧
      b.inside = some .initializeHandler ∧ enqueued b.ctx.history = [⟨some 1, .OK⟩] ∧
      sentOps b.ctx.history = [] ∧ ∃ k ∈ b.ctx.calls, k.pc = .enqueued ∨ k.pc = .gotWeakPtr := by
  obtain ⟨s, hr, hp⟩ := exists_run (threaded ℕ (twoMethods .serverStreaming))
    (initializing ++ [.other (.lockWriter 1 (.write (some 1))), .other (.stepWriter 1 0)])
    (fun s => (busy s 1).any fun b : Busy ℕ => decide (b.inside = some .initializeHandler ∧
      b.ctx.active = true ∧ started .finish b.ctx.history = [] ∧ b.ctx.rpc.sendQueue = [⟨some 1, .OK⟩] ∧
      enqueued b.ctx.history = [⟨some 1, .OK⟩] ∧ b.ctx.outbox = [] ∧ b.ctx.ops .write = 0 ∧
      .handleSendQueue ∉ b.todo)) (by decide)
  obtain ⟨b, hb, hp⟩ := (Option.any_eq_true _ _).mp hp
  obtain ⟨hin, hon, hfin, hq, henq, hout, hops, htodo⟩ := of_decide_eq_true hp
  obtain ⟨⟨sent, h1, h2⟩, hattended⟩ := preempted_sends hr.reachable hb
  obtain rfl : sent = [] := by simpa [henq, hq] using h1
  refine ⟨s, b, hr.reachable, hb, hin, henq, h2, ?_⟩
  rcases hattended hon hfin (by simp [hq]) with h | h | h | h
  · simp [outstanding, hops, hout] at h
  · simp [hout] at h
  · exact h
  · exact absurd h htodo

/-! ### Failures -/

section Failures
variable {f : Fatal}

end Failures

end AsyncGrpc.Service.Preemption
