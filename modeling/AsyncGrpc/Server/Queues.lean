import AsyncGrpc.Server.BlockingQueue
import AsyncGrpc.Server.RoundRobin
import AsyncGrpc.Single.Ledger

/-! # The events of one `Rpc` stay in order

An `Rpc` keeps the event queue it was given before it was registered with gRPC. Its events come into
that queue on two ways, from the thread of its completion queue and from `Writer` calls, and go out by
one event thread, oldest first. So what has been handled is a part from the beginning of what was
pushed, and the tags are handled in the order in which `Next` returned them (`events_in_order`). The
queues are those of `Model.BlockingQueue` (`event_queue_contents`). -/

namespace AsyncGrpc.Server.Queues

open AsyncGrpc.Lib.Runs
open AsyncGrpc.Model.Types AsyncGrpc.Model.Rpc AsyncGrpc.Model.Service AsyncGrpc.Model.Server
open AsyncGrpc.Model.Threads
open AsyncGrpc.Single.Machine AsyncGrpc.Single.Moves AsyncGrpc.Single.Project
open AsyncGrpc.Single.Lifecycle AsyncGrpc.Single.Ledger
open AsyncGrpc.Server.Threads
open AsyncGrpc.Server.RoundRobin (assigned assigned_of_reachable)

variable {μ : Type} {o : Options} {s s' : ThreadState μ} {a : ThreadAction μ} {r : ℕ}
  {l l' : Conn μ} {b : Step μ}

/-! ### What is pushed -/

/-- The entry records that an event was pushed. -/
def pushedAct : Act μ → Option RpcEvent
  | .deliver t _ _ => some (.completion t)
  | .push _ => some .writeNeeded
  | _ => none

/-- The events of an `Rpc` that were pushed, in their order. -/
def pushed (h : List (Act μ)) : List RpcEvent := h.filterMap pushedAct

/-- The entry records that a completion was pushed. -/
def deliveredTagAct : Act μ → Option Tag
  | .deliver t _ _ => some t
  | _ => none

/-- The tag of an event that came from a completion queue. -/
def tagOf : RpcEvent → Option Tag
  | .completion t => some t
  | .writeNeeded => none

/-- The tags among the events. -/
def tags (es : List RpcEvent) : List Tag := es.filterMap tagOf

theorem tags_pushed (h : List (Act μ)) : tags (pushed h) = h.filterMap deliveredTagAct := by
  unfold tags pushed
  rw [List.filterMap_filterMap]
  congr 1
  funext a
  cases a <;> rfl

theorem pushed_append (h h' : List (Act μ)) : pushed (h ++ h') = pushed h ++ pushed h' :=
  List.filterMap_append

theorem pushed_sendActs (items : List (SendItem μ)) :
    pushed (sendActs items) = List.replicate items.length .writeNeeded := by
  induction items with
  | nil => rfl
  | cons item items ih =>
    have hcons : sendActs (item :: items) = [.enqueue item none, .push none] ++ sendActs items := rfl
    rw [hcons, pushed_append, ih]
    rfl

/-- What an event pushes while it is handled is what its functions put in the queue. -/
theorem pushed_handled {sd : Bool} {e : RpcEvent} {c c' : Ctx μ} (hh : Handled sd e c c')
    (hc : c.outbox = [])
    (hr : e = .completion .newConnection → (c.rpc.events .read).pending = false) :
    pushed c'.history = pushed c.history ++ c'.outbox := by
  refine hh.rule (J := fun c' => pushed c'.history = pushed c.history ++ c'.outbox)
    (fun c1 c2 hq hj => ?_) (fun cb items w c1 _ hj => ?_) (fun items w c1 hj => ?_)
    (fun c1 _ _ hj => ?_) (fun c1 item rest _ _ _ hj => ?_) (fun t _ => ?_) (fun _ => ?_) hr
  · rw [hq.outbox]
    refine (observe_quiet (fun a ha => ?_) hq).trans hj
    cases a <;> simp_all [silent, pushedAct]
  · rw [calledBack_history, pushed_append, hj, List.append_assoc]
    exact congrArg _ (congrArg _ (pushed_sendActs items))
  · rw [initialized_history, pushed_append, hj, List.append_assoc]
    exact congrArg _ (congrArg _ (pushed_sendActs items))
  · rw [begins_history, pushed_append, hj]
    simp [pushed, pushedAct, begins, startOp, log]
  · have hacts : pushed (issueActs c1.rpc.rpcHandlerInfo.rpcType item) = [] := by
      refine (observe_issueActs (fun _ => rfl) _ _).trans ?_
      rfl
    have hout : (issues item rest c1).outbox = c1.outbox := by
      unfold issues begins startOp
      dsimp only
      split_ifs <;> rfl
    rw [issues_history, pushed_append, hacts, List.append_nil, hout, hj]
  · rw [pops_history, pushed_append]
    simp [pushed, pushedAct, pops, use, log, hc]
  · rw [hc, List.append_nil]

/-- The event that a step takes out of the event queue. -/
def takes (l : Conn μ) : Step μ → List RpcEvent
  | .handle _ _ => l.inbox.head?.toList
  | _ => []

/-- **What a step pushes goes to the end, and what it handles is the oldest.** -/
theorem pushed_moved (hl : Invariant l) (hm : Moved l b l') :
    ∃ new, pushed l'.cell.history = pushed l.cell.history ++ new ∧
      takes l b ++ l'.inbox = l.inbox ++ new := by
  cases hm with
  | @delivered t ok m =>
    exact ⟨[.completion t], pushed_append _ _, rfl⟩
  | @handled sd script e rest c' hi hh =>
    refine ⟨c'.outbox, pushed_handled hh rfl (hl.no_read hi), ?_⟩
    simp [takes, ofCtx, hi]
  | locked => exact ⟨[], (List.append_nil _).symm, (List.append_nil _).symm⟩
  | enqueued =>
    refine ⟨[], pushed_append _ _, ?_⟩
    simp [takes, ofCtx, setPc, enqueueMessage, log]
  | gotWeakPtr => exact ⟨[], (List.append_nil _).symm, rfl⟩
  | pushed =>
    refine ⟨[.writeNeeded], pushed_append _ _, ?_⟩
    simp [takes, ofCtx, setPc, pushWriteNeeded, log]
  | returned => exact ⟨[], (List.append_nil _).symm, rfl⟩

/-! ### What the threads take -/

/-- The event of `r` at the head of the event queue `q`, with the queue. -/
def nextOf (r q : ℕ) (st : State μ) : List (ℕ × RpcEvent) :=
  match st.eventQueues q with
  | (r', e) :: _ => if r' = r then [(q, e)] else []
  | [] => []

/-- What a step takes for `r` from an event queue, with the number of the queue, which is that of the
thread. -/
def popped (r : ℕ) (s : ThreadState μ) : ThreadAction μ → List (ℕ × RpcEvent)
  | .pop q _ => nextOf r q s.state
  | _ => []

/-- The events of `r` that the event threads have handled, each with the number of the thread. -/
def handledBy (o : Options) (r : ℕ) (as : List (ThreadAction μ)) : List (ℕ × RpcEvent) :=
  observe (threads μ o) (popped r) (threads μ o).init as

/-- The tag of `r` that `Next` returns in a step, with the number of the completion queue. -/
def returns (r : ℕ) : ThreadAction μ → List (ℕ × Tag)
  | .next i r' t _ _ => if r' = r then [(i, t)] else []
  | _ => []

/-- The tags of `r` that `Next` has returned, each with the number of the completion queue. -/
def returnedBy (r : ℕ) (as : List (ThreadAction μ)) : List (ℕ × Tag) := as.flatMap (returns r)

/-- The tag of `r` that the thread of the completion queue has taken and not pushed. -/
def heldBy (r : ℕ) : RunCompletionQueue μ → List Tag
  | .push r' t _ _ => if r' = r then [t] else []
  | _ => []

theorem mem_nextOf {st : State μ} {q : ℕ} {p : ℕ × RpcEvent} (h : p ∈ nextOf r q st) :
    p.1 = q ∧ (r, p.2) ∈ st.eventQueues q := by
  unfold nextOf at h
  split at h
  · next r' e rest hq =>
    split_ifs at h with hr
    · subst hr
      rw [List.mem_singleton] at h
      subst h
      exact ⟨rfl, by rw [hq]; simp⟩
    · cases h
  · cases h

/-- An event thread handles the oldest event of the `Rpc`, if it handles one of its events. -/
theorem nextOf_eq {cfg : Config} {st : State μ} (hs : Reachable (server μ cfg) st)
    (hl : conn st r = some l) {q : ℕ} {script : Script μ} :
    (actOf st (.handle q script) r = none ∧ nextOf r q st = []) ∨
      ∃ b, actOf st (.handle q script) r = some b ∧ (nextOf r q st).map Prod.snd = takes l b := by
  obtain ⟨hc, -⟩ := conn_eq_some.mp hl
  unfold nextOf
  split
  · next r' e rest hq =>
    split_ifs with hr
    · subst hr
      refine Or.inr ⟨_, actOf_handle hq hc, ?_⟩
      obtain ⟨c, hc', hl'⟩ := conn_head hs hq
      cases hl.symm.trans hl'
      rfl
    · exact Or.inl ⟨by simp [actOf, hq, hc, hr], rfl⟩
  · next hq => exact Or.inl ⟨by simp [actOf, hq], rfl⟩

/-- What a step of the threads is for the server: nothing, or one of its steps; and what the event
threads take is what that step handles. -/
theorem state_of_taken (h : Taken o s a s') :
    (s'.state = s.state ∧ ∀ r, popped r s a = []) ∨
      ∃ b, (server μ o.config).Step s.state b s'.state ∧
        ((∃ q script, b = .handle q script ∧ ∀ r, popped r s a = nextOf r q s.state) ∨
          (∀ q script, b ≠ .handle q script) ∧ ∀ r, popped r s a = []) := by
  cases h with
  | stops hb => exact Or.inr ⟨_, hb, Or.inr ⟨by simp, fun _ => rfl⟩⟩
  | pushes _ hb => exact Or.inr ⟨_, hb, Or.inr ⟨by simp, fun _ => rfl⟩⟩
  | @pops q script _ _ _ _ hb => exact Or.inr ⟨_, hb, Or.inl ⟨q, script, rfl, fun _ => rfl⟩⟩
  | locks hb => exact Or.inr ⟨_, hb, Or.inr ⟨by simp, fun _ => rfl⟩⟩
  | writes hb => exact Or.inr ⟨_, hb, Or.inr ⟨by simp, fun _ => rfl⟩⟩
  | _ => exact Or.inl ⟨rfl, fun _ => rfl⟩

/-- What a step of the threads does to the events of an `Rpc`. -/
theorem events_of_step (hs : Reachable (threads μ o) s) (hstep : (threads μ o).Step s a s')
    (hl : conn s.state r = some l) :
    ∃ l' new, conn s'.state r = some l' ∧ fixedPart l'.cell.rpc = fixedPart l.cell.rpc ∧
      pushed l'.cell.history = pushed l.cell.history ++ new ∧
      (popped r s a).map Prod.snd ++ l'.inbox = l.inbox ++ new := by
  have hst := reachable_state hs
  rcases state_of_taken (taken_of_step hstep) with ⟨he, hpop⟩ | ⟨b, hb, hpop⟩
  · refine ⟨l, [], by rw [he]; exact hl, rfl, (List.append_nil _).symm, ?_⟩
    rw [hpop, List.append_nil]
    rfl
  obtain ⟨l', hl', hact⟩ := moved_or_eq hst hb hl
  -- what the step takes from the queue is what it handles of the `Rpc`
  have htakes : (actOf s.state b r = none ∧ popped r s a = []) ∨
      ∃ b', actOf s.state b r = some b' ∧ (popped r s a).map Prod.snd = takes l b' := by
    rcases hpop with ⟨q, script, rfl, hpop⟩ | ⟨hne, hpop⟩
    · rw [hpop]
      exact nextOf_eq hst hl
    · rw [hpop]
      rcases hb' : actOf s.state b r with _ | b'
      · exact Or.inl ⟨rfl, rfl⟩
      · refine Or.inr ⟨b', rfl, ?_⟩
        cases b' with
        | handle sd script =>
          obtain ⟨q, _, _, rfl, -⟩ := exists_of_actOf hb' (conn_eq_some.mp hl).1
          exact absurd rfl (hne q script)
        | _ => rfl
  rcases hact with ⟨hnone, rfl⟩ | ⟨b', hb', hm⟩
  · rcases htakes with ⟨-, hp⟩ | ⟨b', hb', -⟩
    · refine ⟨l', [], hl', rfl, (List.append_nil _).symm, ?_⟩
      rw [hp, List.append_nil]
      rfl
    · cases hnone.symm.trans hb'
  · rcases htakes with ⟨hnone, -⟩ | ⟨b'', hb'', hp⟩
    · cases hnone.symm.trans hb'
    · cases hb''.symm.trans hb'
      obtain ⟨new, hpush, hin⟩ := pushed_moved (invariant_of_reachable hst hl) hm
      exact ⟨l', new, hl', hm.fixed, hpush, by rw [hp]; exact hin⟩

/-- Only events of an `Rpc` that exists are handled, and from its own queue. -/
theorem mem_popped (hs : Reachable (threads μ o) s) {p : ℕ × RpcEvent} (hp : p ∈ popped r s a) :
    ∃ c, s.state.cells[r]? = some c ∧ c.rpc.eventQueue = p.1 := by
  cases a with
  | pop q script =>
    obtain ⟨hq, hmem⟩ := mem_nextOf hp
    obtain ⟨c, hc, hcq⟩ := routed_of_reachable (reachable_state hs) q _ hmem
    exact ⟨c, hc, hcq.trans hq.symm⟩
  | _ => cases hp

theorem pushed_of_fresh (h : Fresh l) : pushed l.cell.history = [] ∧ l.inbox = [] := by
  obtain ⟨i, q, q', info, sv, rfl⟩ := fresh_eq h
  exact ⟨rfl, rfl⟩

theorem fresh_of_step (hs : Reachable (threads μ o) s) (hstep : (threads μ o).Step s a s')
    (hn : conn s.state r = none) (hl' : conn s'.state r = some l') : Fresh l' := by
  have hst := reachable_state hs
  rcases state_of_taken (taken_of_step hstep) with ⟨he, -⟩ | ⟨b, hb, -⟩
  · rw [he, hn] at hl'
    cases hl'
  · exact (stepped_of_step hb).new (routed_of_reachable hst) hn hl'

/-! ### The tags -/

/-- The tag of `r` that a step of the server pushes. -/
def delivers (r : ℕ) : Action μ → List Tag
  | .deliver r' t _ _ => if r' = r then [t] else []
  | _ => []

/-- The tag that a step of the `Rpc` pushes. -/
def stepTag : Step μ → List Tag
  | .deliver t _ _ => [t]
  | _ => []

theorem delivers_eq {st : State μ} {b : Action μ} (hc : st.cells[r]? = some l.cell) :
    delivers r b = (actOf st b r).elim [] stepTag := by
  cases b with
  | handle q script =>
    rcases hq : st.eventQueues q with _ | ⟨⟨r', e⟩, rest⟩
    · simp [delivers, actOf, hq]
    · simp only [delivers, actOf, hq, hc]
      split_ifs <;> rfl
  | stopServing => rfl
  | _ =>
    simp only [delivers, actOf]
    split_ifs <;> rfl

/-- Only a delivery pushes a tag. -/
theorem delivered_moved (hl : Invariant l) (hm : Moved l b l') :
    l'.cell.history.filterMap deliveredTagAct =
      l.cell.history.filterMap deliveredTagAct ++ stepTag b := by
  have hwriter : WriterMoved l l' → l'.cell.history.filterMap deliveredTagAct =
      l.cell.history.filterMap deliveredTagAct ++ [] := by
    intro hw
    rw [List.append_nil]
    exact hw.observe (fun a ha => by cases a <;> simp_all [byWriter, deliveredTagAct])
  cases hm.kind with
  | delivered hd => exact List.filterMap_append
  | @handled sd script e rest c' hi hh =>
    refine (observe_handled (fun a ha => ?_) hl hi hh).trans (congrArg _ ?_)
    · cases a <;> simp_all [inHandler, deliveredTagAct]
    · cases e <;> rfl
  | locked hw => exact hwriter hw
  | stepped hw => exact hwriter hw

theorem delivered_of_step {cfg : Config} {st st' : State μ} {b : Action μ}
    (hs : Reachable (server μ cfg) st) (hb : (server μ cfg).Step st b st') (hl : conn st r = some l)
    (hl' : conn st' r = some l') :
    l'.cell.history.filterMap deliveredTagAct =
      l.cell.history.filterMap deliveredTagAct ++ delivers r b := by
  rw [delivers_eq (conn_eq_some.mp hl).1]
  obtain ⟨l1, hl1, ⟨hnone, rfl⟩ | ⟨b', hb', hm⟩⟩ := moved_or_eq hs hb hl
  · cases hl1.symm.trans hl'
    simp [hnone]
  · cases hl1.symm.trans hl'
    rw [hb']
    exact delivered_moved (invariant_of_reachable hs hl) hm

/-- What a step of the threads does to the tags of an `Rpc`: `Next` returns one, or the one that was
returned before is pushed. -/
theorem tags_of_step (hs : Reachable (threads μ o) s) (hstep : (threads μ o).Step s a s')
    (hl : conn s.state r = some l) (hl' : conn s'.state r = some l') :
    ∃ new, l'.cell.history.filterMap deliveredTagAct =
        l.cell.history.filterMap deliveredTagAct ++ new ∧
      heldBy r (s.completionQueueThreads l.cell.rpc.serverCompletionQueue) ++
          (returns r a).map Prod.snd =
        new ++ heldBy r (s'.completionQueueThreads l.cell.rpc.serverCompletionQueue) := by
  have hst := reachable_state hs
  have hheld := held_of_reachable hs
  have hcell := (conn_eq_some.mp hl).1
  have hsame : s'.state = s.state → l'.cell.history.filterMap deliveredTagAct =
      l.cell.history.filterMap deliveredTagAct ++ [] := by
    intro he
    rw [he] at hl'
    cases hl.symm.trans hl'
    exact (List.append_nil _).symm
  cases taken_of_step hstep with
  | begins => exact ⟨[], hsame rfl, List.append_nil _⟩
  | ends => exact ⟨[], hsame rfl, List.append_nil _⟩
  | stops hb => exact ⟨_, delivered_of_step hst hb hl hl', List.append_nil _⟩
  | advances => exact ⟨[], hsame rfl, List.append_nil _⟩
  | @takes i r' t ok m c _ hpc hc hi hd =>
    refine ⟨[], hsame rfl, ?_⟩
    by_cases hr : r' = r
    · subst hr
      cases hcell.symm.trans hc
      subst hi
      simp [returns, heldBy, hpc, ThreadState.setCall, ThreadState.setCompletionQueueThread]
    · by_cases hii : l.cell.rpc.serverCompletionQueue = i
      · subst hii
        simp [returns, heldBy, hpc, hr, ThreadState.setCall, ThreadState.setCompletionQueueThread]
      · simp [returns, hr, ThreadState.setCall, ThreadState.setCompletionQueueThread,
          Function.update_of_ne hii]
  | @pushes i r' t ok m st hpc hb =>
    refine ⟨_, delivered_of_step hst hb hl hl', ?_⟩
    by_cases hr : r' = r
    · subst hr
      obtain ⟨c, hc, hi, -⟩ := hheld i _ _ _ _ hpc
      cases hcell.symm.trans hc
      subst hi
      simp [returns, delivers, heldBy, hpc, ThreadState.setState,
        ThreadState.setCompletionQueueThread]
    · by_cases hii : l.cell.rpc.serverCompletionQueue = i
      · subst hii
        simp [returns, delivers, heldBy, hpc, hr, ThreadState.setState,
          ThreadState.setCompletionQueueThread]
      · simp [returns, delivers, hr, ThreadState.setState, ThreadState.setCompletionQueueThread,
          Function.update_of_ne hii]
  | @finishes i hpc =>
    refine ⟨[], hsame rfl, ?_⟩
    by_cases hii : l.cell.rpc.serverCompletionQueue = i
    · subst hii
      simp [returns, heldBy, hpc, ThreadState.setCompletionQueueThread]
    · simp [returns, ThreadState.setCompletionQueueThread, Function.update_of_ne hii]
  | tests => exact ⟨[], hsame rfl, List.append_nil _⟩
  | pops _ _ hb => exact ⟨_, delivered_of_step hst hb hl hl', List.append_nil _⟩
  | waits => exact ⟨[], hsame rfl, List.append_nil _⟩
  | leaves => exact ⟨[], hsame rfl, List.append_nil _⟩
  | locks hb => exact ⟨_, delivered_of_step hst hb hl hl', List.append_nil _⟩
  | writes hb => exact ⟨_, delivered_of_step hst hb hl hl', List.append_nil _⟩

/-- `Next` returns the tags of an `Rpc` that exists, on the thread of its completion queue. -/
theorem mem_returns (hstep : (threads μ o).Step s a s') {p : ℕ × Tag} (hp : p ∈ returns r a) :
    ∃ c, s.state.cells[r]? = some c ∧ c.rpc.serverCompletionQueue = p.1 := by
  cases taken_of_step hstep with
  | @takes i r' t ok m c _ hpc hc hi hd =>
    unfold returns at hp
    dsimp only at hp
    split_ifs at hp with hr
    · subst hr
      rw [List.mem_singleton] at hp
      subst hp
      exact ⟨c, hc, hi⟩
    · cases hp
  | _ => cases hp

theorem heldBy_of_step (hstep : (threads μ o).Step s a s') (ha : returns r a = []) {i : ℕ}
    (h : heldBy r (s.completionQueueThreads i) = []) :
    heldBy r (s'.completionQueueThreads i) = [] := by
  have hupdate : ∀ (i' : ℕ) (pc : RunCompletionQueue μ), heldBy r pc = [] →
      heldBy r (Function.update s.completionQueueThreads i' pc i) = [] := by
    intro i' pc hpc
    by_cases hii : i = i'
    · subst hii
      rwa [Function.update_self]
    · rwa [Function.update_of_ne hii]
  cases taken_of_step hstep with
  | @takes i' r' t ok m c _ _ _ _ _ =>
    refine hupdate i' _ ?_
    unfold returns at ha
    unfold heldBy
    dsimp only at ha ⊢
    split_ifs at ha ⊢
    rfl
  | pushes => exact hupdate _ _ rfl
  | finishes => exact hupdate _ _ rfl
  | _ => exact h

/-! ### Whole runs -/

/-- What the run has shown of the `Rpc` number `r` and its state agree. -/
structure InOrder (o : Options) (r : ℕ) (as : List (ThreadAction μ)) (s : ThreadState μ)
    (l : Conn μ) : Prop where
  events : pushed l.cell.history = (handledBy o r as).map Prod.snd ++ l.inbox
  eventQueue : ∀ p ∈ handledBy o r as, p.1 = l.cell.rpc.eventQueue
  tags : (returnedBy r as).map Prod.snd = l.cell.history.filterMap deliveredTagAct ++
    heldBy r (s.completionQueueThreads l.cell.rpc.serverCompletionQueue)
  completionQueue : ∀ p ∈ returnedBy r as, p.1 = l.cell.rpc.serverCompletionQueue

/-- Nothing has been seen of an `Rpc` that does not exist. -/
structure Unseen (o : Options) (r : ℕ) (as : List (ThreadAction μ)) (s : ThreadState μ) : Prop where
  events : handledBy o r as = []
  tags : returnedBy r as = []
  held : ∀ i, heldBy r (s.completionQueueThreads i) = []

theorem Unseen.inOrder {as : List (ThreadAction μ)} (h : Unseen o r as s) (hf : Fresh l) :
    InOrder o r as s l := by
  obtain ⟨h1, h2⟩ := pushed_of_fresh hf
  refine ⟨?_, by simp [h.events], ?_, by simp [h.tags]⟩
  · rw [h.events, h1, h2]
    rfl
  · rw [h.tags, h.held, ← tags_pushed, h1]
    rfl

theorem handledBy_snoc {as : List (ThreadAction μ)} (hr : Run (threads μ o) as s) :
    handledBy o r (as ++ [a]) = handledBy o r as ++ popped r s a := observe_snoc hr a

theorem returnedBy_snoc (as : List (ThreadAction μ)) (a : ThreadAction μ) :
    returnedBy r (as ++ [a]) = returnedBy r as ++ returns r a := by
  simp [returnedBy]

theorem Unseen.step {as : List (ThreadAction μ)} (h : Unseen o r as s)
    (hr : Run (threads μ o) as s) (hstep : (threads μ o).Step s a s')
    (hn : conn s.state r = none) : Unseen o r (as ++ [a]) s' := by
  have hpop : popped r s a = [] := by
    refine List.eq_nil_iff_forall_not_mem.mpr fun p hp => ?_
    obtain ⟨c, hc, -⟩ := mem_popped hr.reachable hp
    cases hn.symm.trans (conn_of_cell hc)
  have hret : returns r a = [] := by
    refine List.eq_nil_iff_forall_not_mem.mpr fun p hp => ?_
    obtain ⟨c, hc, -⟩ := mem_returns hstep hp
    cases hn.symm.trans (conn_of_cell hc)
  refine ⟨?_, ?_, fun i => heldBy_of_step hstep hret (h.held i)⟩
  · rw [handledBy_snoc hr, h.events, hpop]
    rfl
  · rw [returnedBy_snoc, h.tags, hret]
    rfl

theorem InOrder.step {as : List (ThreadAction μ)} (h : InOrder o r as s l)
    (hr : Run (threads μ o) as s) (hstep : (threads μ o).Step s a s')
    (hl : conn s.state r = some l) :
    ∃ l', conn s'.state r = some l' ∧ InOrder o r (as ++ [a]) s' l' := by
  obtain ⟨l', new, hl', hfix, hpush, hin⟩ := events_of_step hr.reachable hstep hl
  obtain ⟨newTags, hdel, htags⟩ := tags_of_step hr.reachable hstep hl hl'
  have hq : l'.cell.rpc.eventQueue = l.cell.rpc.eventQueue := eventQueue_of_fixed hfix
  have hcq : l'.cell.rpc.serverCompletionQueue = l.cell.rpc.serverCompletionQueue :=
    congrArg (·.2.1) hfix
  refine ⟨l', hl', ?_, fun p hp => ?_, ?_, fun p hp => ?_⟩
  · rw [handledBy_snoc hr, hpush, h.events, List.append_assoc, ← hin, List.map_append,
      List.append_assoc]
  · rw [handledBy_snoc hr, List.mem_append] at hp
    rw [hq]
    rcases hp with hp | hp
    · exact h.eventQueue p hp
    · obtain ⟨c, hc, hcq⟩ := mem_popped hr.reachable hp
      rw [cell_of_conn hl hc]
      exact hcq.symm
  · rw [returnedBy_snoc, List.map_append, h.tags, List.append_assoc, htags, hdel, hcq,
      List.append_assoc]
  · rw [returnedBy_snoc, List.mem_append] at hp
    rw [hcq]
    rcases hp with hp | hp
    · exact h.completionQueue p hp
    · obtain ⟨c, hc, hcq⟩ := mem_returns hstep hp
      rw [cell_of_conn hl hc]
      exact hcq.symm

theorem inOrder_of_run {as : List (ThreadAction μ)} (hr : Run (threads μ o) as s) :
    (conn s.state r = none → Unseen o r as s) ∧
      ∀ l, conn s.state r = some l → InOrder o r as s l := by
  induction hr with
  | init =>
    have hunseen : Unseen o r [] (threads μ o).init := by
      refine ⟨rfl, rfl, fun i => ?_⟩
      unfold threads
      dsimp only
      split_ifs <;> rfl
    exact ⟨fun _ => hunseen, fun l hl => hunseen.inOrder (init_fresh hl)⟩
  | @step as s s' a hr hstep ih =>
    rcases hl : conn s.state r with _ | l
    · have hunseen := (ih.1 hl).step hr hstep hl
      exact ⟨fun _ => hunseen,
        fun l' hl' => hunseen.inOrder (fresh_of_step hr.reachable hstep hl hl')⟩
    · obtain ⟨l1, hl1, h1⟩ := (ih.2 l hl).step hr hstep hl
      refine ⟨fun hn => ?_, fun l' hl' => ?_⟩
      · cases hn.symm.trans hl1
      · cases hl1.symm.trans hl'
        exact h1

/-- Every `Rpc` has an event queue that the selector gave it. -/
theorem selected_of_reachable {cfg : Config} {st : State μ} (hs : Reachable (server μ cfg) st) :
    ∀ c ∈ st.cells, ∃ n, c.rpc.eventQueue = cfg.eventQueueSelector n := by
  intro c hc
  have hmem : c.rpc.eventQueue ∈ assigned st := List.mem_map_of_mem hc
  rw [assigned_of_reachable hs] at hmem
  obtain ⟨n, -, hn⟩ := List.mem_map.mp hmem
  exact ⟨n, hn.symm⟩

theorem eventQueue_of_later (hs : Reachable (threads μ o) s) (hlater : Later (threads μ o) s s')
    (hl : conn s.state r = some l) :
    ∃ l', conn s'.state r = some l' ∧ l'.cell.rpc.eventQueue = l.cell.rpc.eventQueue := by
  induction hlater with
  | refl => exact ⟨l, hl, rfl⟩
  | tail hlater hstep ih =>
    obtain ⟨l1, hl1, hq⟩ := ih
    obtain ⟨a, ha⟩ := hstep
    obtain ⟨l2, new, hl2, hfix, -⟩ := events_of_step (hs.later hlater) ha hl1
    exact ⟨l2, hl2, (eventQueue_of_fixed hfix).trans hq⟩

/-- **The events of an `Rpc` are handled by one thread, in the order in which they were pushed.** Its
event queue is that of an event thread and never changes; no other queue holds an event of it. What
has been pushed is what its event thread has handled and then what waits in its queue. The tags that
`Next` has returned for it, all on the thread of its completion queue, are those handled, those that
wait, and then the one that this thread has not pushed yet. -/
theorem events_in_order {as : List (ThreadAction μ)} {c : Cell μ} (hr : Run (threads μ o) as s)
    (hc : s.state.cells[r]? = some c) :
    c.rpc.eventQueue < o.numEventThreads ∧
      (∀ s' c', Later (threads μ o) s s' → s'.state.cells[r]? = some c' →
        c'.rpc.eventQueue = c.rpc.eventQueue) ∧
      (∀ q e, (r, e) ∈ s.state.eventQueues q → q = c.rpc.eventQueue) ∧
      (∀ p ∈ handledBy o r as, p.1 = c.rpc.eventQueue) ∧
      pushed c.history = (handledBy o r as).map Prod.snd ++
        pick r (s.state.eventQueues c.rpc.eventQueue) ∧
      (∀ p ∈ returnedBy r as, p.1 = c.rpc.serverCompletionQueue) ∧
      (returnedBy r as).map Prod.snd = tags ((handledBy o r as).map Prod.snd) ++
        tags (pick r (s.state.eventQueues c.rpc.eventQueue)) ++
        heldBy r (s.completionQueueThreads c.rpc.serverCompletionQueue) := by
  have hl := conn_of_cell hc
  have hst := reachable_state hr.reachable
  obtain ⟨hevents, hqueue, htags, hcq⟩ := (inOrder_of_run hr).2 _ hl
  refine ⟨?_, fun s' c' hlater hc' => ?_, fun q e he => (mem_inbox hst hl he).2, hqueue, hevents,
    hcq, ?_⟩
  · obtain ⟨n, hn⟩ := selected_of_reachable hst c (List.mem_of_getElem? hc)
    rw [hn]
    exact Nat.mod_lt _ o.numEventThreads_pos
  · obtain ⟨l', hl', hq⟩ := eventQueue_of_later hr.reachable hlater hl
    rw [← cell_of_conn hl' hc']
    exact hq
  · rw [htags, ← tags_pushed, hevents]
    simp [tags]

/-- Two event threads and a conversation on the second of them: an answer waits behind two events
that were handled, and the next tag is on its way. -/
theorem events_in_order_bidi : ∃ (as : List (ThreadAction ℕ)) (s : ThreadState ℕ) (c : Cell ℕ),
    Run (threads ℕ ⟨[[⟨⟨"Handler"⟩, .bidiStreaming, "/proto.Service/Method"⟩]], 1, 2, Nat.two_pos⟩) as s ∧
      s.state.cells[0]? = some c ∧
      pushed c.history = [.completion .newConnection, .completion .read, .writeNeeded] ∧
      (returnedBy 0 as).map Prod.snd = [.newConnection, .read, .read] := by
  obtain ⟨s, hr, hp⟩ := exists_run
    (threads ℕ ⟨[[⟨⟨"Handler"⟩, .bidiStreaming, "/proto.Service/Method"⟩]], 1, 2, Nat.two_pos⟩)
    [.callBegins 0, .next 0 0 .newConnection true 0, .push 0, .test 1, .pop 1 {}, .next 0 0 .read true 5,
      .push 0, .test 1, .pop 1 { onRequest := [.send (some 50)] }, .next 0 0 .read true 6]
    (fun s => s.state.cells[0]?.any (fun c : Cell ℕ => decide (c.rpc.eventQueue = 1 ∧
      pick 0 (s.state.eventQueues 1) = [.writeNeeded] ∧ c.rpc.serverCompletionQueue = 0 ∧
      heldBy 0 (s.completionQueueThreads 0) = [.read]))) (by decide)
  simp only [Option.any_eq_true, decide_eq_true_eq] at hp
  obtain ⟨c, hc, hq, hwait, hcq, hheld⟩ := hp
  obtain ⟨-, -, -, -, hpushed, -, hreturned⟩ := events_in_order hr hc
  refine ⟨_, s, c, hr, hc, ?_, ?_⟩
  · rw [hpushed, hq, hwait]
    rfl
  · rw [hreturned, hq, hwait, hcq, hheld]
    rfl

/-! ### Event queues as blocking queues -/

section Sections
open AsyncGrpc.Lib.Monitors AsyncGrpc.Model.BlockingQueue

variable {st st' : Model.Server.State μ} {q : ℕ}

/-- The methods that the threads of the server call on an event queue. -/
def usedByServer : Method (ℕ × RpcEvent) → Bool
  | .push _ | .popWithTimeout => true
  | _ => false

/-- The contents of an event queue come about by `Push` and `PopWithTimeout`. -/
def Contents (events : List (ℕ × RpcEvent)) : Prop :=
  ∃ es, Sequential (methods (ℕ × RpcEvent) kInfiniteQueueSize) [] es events ∧
    ∀ e ∈ es, usedByServer e.method = true

theorem Contents.push {events : List (ℕ × RpcEvent)} (h : Contents events) (x : ℕ × RpcEvent) :
    Contents (events ++ [x]) := by
  obtain ⟨es, hseq, hes⟩ := h
  refine ⟨_, hseq.ran (k := .push x) rfl rfl, fun e he => ?_⟩
  rcases List.mem_append.mp he with he | he
  · exact hes e he
  · rw [List.mem_singleton.mp he]
    rfl

theorem Contents.pushAll {events : List (ℕ × RpcEvent)} (h : Contents events) (xs : List (ℕ × RpcEvent)) :
    Contents (events ++ xs) := by
  induction xs using List.reverseRecOn with
  | nil => rwa [List.append_nil]
  | append_singleton xs x ih =>
    rw [← List.append_assoc]
    exact ih.push x

theorem Contents.pop {events : List (ℕ × RpcEvent)} {x : ℕ × RpcEvent} (h : Contents (x :: events)) :
    Contents events := by
  obtain ⟨es, hseq, hes⟩ := h
  refine ⟨_, hseq.ran (k := .popWithTimeout) rfl rfl, fun e he => ?_⟩
  rcases List.mem_append.mp he with he | he
  · exact hes e he
  · rw [List.mem_singleton.mp he]
    rfl

/-- Handling an event takes it from the front of its queue, and what the handler sends is pushed. -/
theorem queue_of_handle {cfg : Config} {script : Script μ} (hR : Routed st)
    (h : (server μ cfg).Step st (.handle q script) st') :
    ∃ x rest new, st.eventQueues q = x :: rest ∧ st'.eventQueues q = rest ++ new := by
  obtain ⟨r, e, rest, c, hq, hc, hn⟩ := handleNext_of_step h
  obtain ⟨c', new, h1, h2⟩ := handleNext_eq_ok hn
  obtain ⟨c0, hc0, hq0⟩ := hR q (r, e) (by rw [hq]; simp)
  have hqueue : c'.rpc.eventQueue = q := by
    rw [eventQueue_of_fixed (handled_of_handle h1).fixed]
    cases hc.symm.trans hc0
    exact hq0
  refine ⟨(r, e), rest, c'.outbox.map (fun e => (r, e)), hq, ?_⟩
  have hstore : ({ st with eventQueues := Function.update st.eventQueues q rest }.store r
      c').eventQueues q = rest ++ c'.outbox.map (fun e => (r, e)) := by
    simp [State.store, hqueue]
  rcases h2 with ⟨-, rfl⟩ | ⟨-, rfl⟩ <;> exact hstore

/-- A step of the server uses each event queue by its methods only. -/
theorem contents_of_step {cfg : Config} {b : Action μ} (hst : Reachable (server μ cfg) st)
    (hs : (server μ cfg).Step st b st') (h : Contents (st.eventQueues q)) :
    Contents (st'.eventQueues q) := by
  have happend (q' : ℕ) (x : ℕ × RpcEvent) : Contents (Function.update st.eventQueues q'
      (st.eventQueues q' ++ [x]) q) := by
    by_cases hqq : q = q'
    · subst hqq
      rw [Function.update_self]
      exact h.push x
    · rw [Function.update_of_ne hqq]
      exact h
  have hR := routed_of_reachable hst
  cases b with
  | deliver r t ok m =>
    obtain ⟨c, -, hq⟩ := queues_deliver hs
    rw [hq]
    exact happend _ _
  | handle q' script =>
    by_cases hqq : q = q'
    · subst hqq
      obtain ⟨x, rest, new, h1, h2⟩ := queue_of_handle hR hs
      rw [h1] at h
      rw [h2]
      exact h.pop.pushAll new
    · rw [queues_handle hR hs hqq]
      exact h
  | lockWriter r w =>
    rw [queues_lockWriter hs]
    exact h
  | stepWriter r i =>
    obtain ⟨c, k, -, -, hq⟩ := queues_stepWriter hs
    rw [hq]
    split_ifs
    · exact happend _ _
    · exact h
  | stopServing service =>
    cases hs
    exact h

/-- **The event queues of the threads are blocking queues.** In every state of every run, the contents of
each event queue are those of an unbounded `BlockingQueue` after calls of `Push` and `PopWithTimeout`, one
after the other. The next `PopWithTimeout` returns an event when its condition holds, and times out only
when it does not. -/
theorem event_queue_contents (hs : Reachable (threads μ o) s) (q : ℕ) :
    Contents (s.state.eventQueues q) ∧ ∀ a s', (threads μ o).Step s a s' →
      (∀ script, a = .pop q script → awaited kInfiniteQueueSize .popWithTimeout (s.state.eventQueues q) = true) ∧
        (a = .timeout q → awaited kInfiniteQueueSize .popWithTimeout (s.state.eventQueues q) = false) := by
  have hst := reachable_state hs
  have hall : Reachable (server μ o.config) s.state ∧ ∀ q, Contents (s.state.eventQueues q) := by
    refine inv_of_reachable (I := fun st => Reachable (server μ o.config) st ∧
      ∀ q, Contents (st.eventQueues q)) ⟨Run.init.reachable, fun q => ?_⟩
      (fun st b st' hi hb => ⟨hi.1.step hb, fun q => contents_of_step hi.1 hb (hi.2 q)⟩) hst
    rw [started_init.1 q]
    exact ⟨[], .nil, by simp⟩
  refine ⟨hall.2 q, fun a s' hstep => ⟨?_, ?_⟩⟩
  · rintro script rfl
    cases taken_of_step hstep with
    | pops _ _ hb =>
      obtain ⟨x, rest, -, hq, -⟩ := queue_of_handle (routed_of_reachable hst) hb
      rw [hq]
      rfl
  · rintro rfl
    replace hstep : stepThreads o s (.timeout q) = some (.ok s') := hstep
    unfold stepThreads at hstep
    dsimp only at hstep
    split_ifs at hstep with hq
    rw [hq]
    rfl

end Sections

end AsyncGrpc.Server.Queues
