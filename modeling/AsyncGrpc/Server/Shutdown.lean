import AsyncGrpc.Server.Threads
import AsyncGrpc.Single.Ledger

/-! # `Server::Shutdown` and the event queues

The event thread of a queue leaves when `PopWithTimeout` times out after `shutting_down_` was set;
nothing makes it wait for those who still push. `exitedEmpty_taken` gives the exact condition for one
step under which nothing is left in the queue of a thread that has left. -/

namespace AsyncGrpc.Server.Shutdown

open AsyncGrpc.Lib.Runs
open AsyncGrpc.Model.Types AsyncGrpc.Model.Rpc AsyncGrpc.Model.Service AsyncGrpc.Model.Server
open AsyncGrpc.Model.Threads AsyncGrpc.Server.Threads
open AsyncGrpc.Single.Machine AsyncGrpc.Single.Moves AsyncGrpc.Single.Project
open AsyncGrpc.Single.Lifecycle AsyncGrpc.Single.Ledger

variable {μ : Type} {o : Options} {s s' : ThreadState μ} {a : ThreadAction μ}

/-! ### Threads that have left -/

/-- The queue of an event thread that has left is empty. -/
def ExitedEmpty (s : ThreadState μ) : Prop :=
  ∀ q, s.eventQueueThreads q = .exited → s.state.eventQueues q = []

/-- Nobody pushes to the queue of an event thread that has left. -/
def PushesServed (s : ThreadState μ) : ThreadAction μ → Prop
  | .push i => ∀ r t ok m c, s.completionQueueThreads i = .push r t ok m →
      s.state.cells[r]? = some c → s.eventQueueThreads c.rpc.eventQueue ≠ .exited
  | .stepWriter r i => ∀ c k, s.state.cells[r]? = some c → c.calls[i]? = some k →
      k.pc = .gotWeakPtr → s.eventQueueThreads c.rpc.eventQueue ≠ .exited
  | _ => True

theorem setEventQueueThread_of_ne {q q' : ℕ} {pc : RunEventQueue} (h : q' ≠ q) :
    (s.setEventQueueThread q pc).eventQueueThreads q' = s.eventQueueThreads q' := by
  simp [ThreadState.setEventQueueThread, Function.update_of_ne h]

theorem setEventQueueThread_self {q : ℕ} {pc : RunEventQueue} :
    (s.setEventQueueThread q pc).eventQueueThreads q = pc := by
  simp [ThreadState.setEventQueueThread]

/-- A thread that has left stays away, and nothing is taken from its queue. -/
theorem taken_exited (hR : Routed s.state) (h : Taken o s a s') {q : ℕ}
    (hq : s.eventQueueThreads q = .exited) : s'.eventQueueThreads q = .exited ∧
      ∃ evs, s'.state.eventQueues q = s.state.eventQueues q ++ evs := by
  have hsame : ∃ evs, s.state.eventQueues q = s.state.eventQueues q ++ evs :=
    ⟨[], (List.append_nil _).symm⟩
  have happend : ∀ (q' : ℕ) (x : ℕ × RpcEvent), ∃ evs, Function.update s.state.eventQueues q'
      (s.state.eventQueues q' ++ [x]) q = s.state.eventQueues q ++ evs := by
    intro q' x
    by_cases hqq : q = q'
    · subst hqq
      exact ⟨[x], by rw [Function.update_self]⟩
    · exact ⟨[], by rw [Function.update_of_ne hqq, List.append_nil]⟩
  have hother : ∀ q', s.eventQueueThreads q' ≠ .exited → q ≠ q' := by
    rintro q' hne rfl
    exact hne hq
  cases h with
  | begins => exact ⟨hq, hsame⟩
  | ends => exact ⟨hq, hsame⟩
  | stops hb =>
    cases hb
    exact ⟨hq, hsame⟩
  | advances => exact ⟨hq, hsame⟩
  | takes => exact ⟨hq, hsame⟩
  | pushes _ hb =>
    obtain ⟨c, -, h2⟩ := queues_deliver hb
    refine ⟨hq, ?_⟩
    rw [setState_state, h2]
    exact happend _ _
  | finishes => exact ⟨hq, hsame⟩
  | tests hpc =>
    exact ⟨(setEventQueueThread_of_ne (hother _ (by simp [hpc]))).trans hq, hsame⟩
  | pops hpc _ hb =>
    have hne := hother _ hpc
    refine ⟨(setEventQueueThread_of_ne hne).trans hq, ?_⟩
    rw [setState_state, queues_handle hR hb hne]
    exact hsame
  | waits hpc =>
    exact ⟨(setEventQueueThread_of_ne (hother _ (by simp [hpc]))).trans hq, hsame⟩
  | leaves _ hpc =>
    exact ⟨(setEventQueueThread_of_ne (hother _ (by simp [hpc]))).trans hq, hsame⟩
  | locks hb =>
    refine ⟨hq, ?_⟩
    rw [setState_state, queues_lockWriter hb]
    exact hsame
  | writes hb =>
    obtain ⟨c, k, -, -, h2⟩ := queues_stepWriter hb
    refine ⟨hq, ?_⟩
    rw [setState_state, h2]
    split_ifs
    · exact happend _ _
    · exact hsame

theorem exitedEmpty_back (hR : Routed s.state) (h : Taken o s a s') (hg : ExitedEmpty s') :
    ExitedEmpty s := by
  intro q hq
  obtain ⟨h1, evs, h2⟩ := taken_exited hR h hq
  exact (List.append_eq_nil_iff.mp (h2.symm.trans (hg q h1))).1

/-- An event is pushed to the queue `q`. -/
theorem exitedEmpty_push (s' : ThreadState μ) (hg : ExitedEmpty s)
    (ht : s'.eventQueueThreads = s.eventQueueThreads) {q : ℕ} {x : ℕ × RpcEvent}
    (hq : s'.state.eventQueues =
      Function.update s.state.eventQueues q (s.state.eventQueues q ++ [x])) :
    ExitedEmpty s' ↔ s.eventQueueThreads q ≠ .exited := by
  constructor
  · intro h hex
    have := h q (by rw [ht]; exact hex)
    rw [hq, Function.update_self] at this
    simp at this
  · intro hne q' hex
    rw [ht] at hex
    have hqq : q' ≠ q := by
      rintro rfl
      exact hne hex
    rw [hq, Function.update_of_ne hqq]
    exact hg q' hex

/-- The thread of the queue `q` moves on, and no other queue changes. -/
theorem exitedEmpty_move (hg : ExitedEmpty s) {q : ℕ} {pc : RunEventQueue}
    (ht : s'.eventQueueThreads = (s.setEventQueueThread q pc).eventQueueThreads)
    (hq : ∀ q', q' ≠ q → s'.state.eventQueues q' = s.state.eventQueues q')
    (hpc : pc = .exited → s'.state.eventQueues q = []) : ExitedEmpty s' := by
  intro q' hex
  rw [ht] at hex
  by_cases hqq : q' = q
  · subst hqq
    exact hpc (setEventQueueThread_self.symm.trans hex)
  · rw [hq q' hqq]
    exact hg q' ((setEventQueueThread_of_ne hqq).symm.trans hex)

/-- **The exact condition for one step**: the queues of the threads that have left stay empty. -/
theorem exitedEmpty_taken (hR : Routed s.state) (hg : ExitedEmpty s) (h : Taken o s a s') :
    ExitedEmpty s' ↔ PushesServed s a := by
  cases h with
  | begins => exact iff_of_true hg trivial
  | ends => exact iff_of_true hg trivial
  | stops hb =>
    cases hb
    exact iff_of_true hg trivial
  | advances => exact iff_of_true hg trivial
  | takes => exact iff_of_true hg trivial
  | @pushes i r t ok m st hpc hb =>
    obtain ⟨c, hc, hq⟩ := queues_deliver hb
    have hpush := exitedEmpty_push ((s.setCompletionQueueThread i .next).setState st) hg rfl hq
    refine hpush.trans ⟨fun h r t ok m c' hpc' hc' => ?_, fun h => ?_⟩
    · cases hpc.symm.trans hpc'
      rw [hc] at hc'
      cases hc'
      exact h
    · exact h _ _ _ _ c hpc hc
  | finishes => exact iff_of_true hg trivial
  | tests _ hne =>
    exact iff_of_true (exitedEmpty_move hg rfl (fun _ _ => rfl) (fun h => absurd h hne)) trivial
  | pops _ hne hb =>
    exact iff_of_true (exitedEmpty_move hg rfl (fun _ hqq => queues_handle hR hb hqq)
      (fun h => absurd h hne)) trivial
  | waits =>
    exact iff_of_true (exitedEmpty_move hg rfl (fun _ _ => rfl) (fun h => nomatch h)) trivial
  | leaves hq =>
    exact iff_of_true (exitedEmpty_move hg rfl (fun _ _ => rfl) (fun _ => hq)) trivial
  | locks hb =>
    refine iff_of_true (fun q hex => ?_) trivial
    rw [setState_state, queues_lockWriter hb]
    exact hg q hex
  | @writes r i st hb =>
    obtain ⟨c, k, hc, hk, hq⟩ := queues_stepWriter hb
    by_cases hp : k.pc = .gotWeakPtr
    · rw [if_pos hp] at hq
      have hpush := exitedEmpty_push (s.setState st) hg rfl hq
      refine hpush.trans ⟨fun h c' k' hc' hk' _ => ?_, fun h => ?_⟩
      · rw [hc] at hc'
        cases hc'
        exact h
      · exact h c k hc hk hp
    · rw [if_neg hp] at hq
      refine iff_of_true (fun q hex => ?_) (fun c' k' hc' hk' hp' => ?_)
      · rw [setState_state, hq]
        exact hg q hex
      · rw [hc] at hc'
        cases hc'
        rw [hk] at hk'
        cases hk'
        exact absurd hp' hp

/-! ### When `Shutdown` returns -/

/-- The event threads that `Shutdown` has joined have left, and so have those that never were. -/
def Joined (o : Options) (s : ThreadState μ) : Prop :=
  ∀ q, q < joined o s.shutdown ∨ o.numEventThreads ≤ q → s.eventQueueThreads q = .exited

theorem joined_of_reachable (h : Reachable (threads μ o) s) : Joined o s := by
  refine (inv_of_reachable (I := fun s => Reachable (threads μ o) s ∧ Joined o s)
    ⟨Run.init.reachable, fun q hq => ?_⟩ (fun s a s' hi hs => ⟨hi.1.step hs, fun q hq => ?_⟩) h).2
  · rcases hq with hq | hq
    · exact absurd hq (Nat.not_lt_zero q)
    · exact if_neg (Nat.not_lt.mpr hq)
  · have hR := routed_of_reachable (reachable_state hi.1)
    have htaken := taken_of_step hs
    have hold : q < joined o s.shutdown ∨ s.eventQueueThreads q = .exited →
        s'.eventQueueThreads q = .exited := fun h =>
      (taken_exited hR htaken (h.elim (fun h => hi.2 q (Or.inl h)) id)).1
    rcases hq with hq | hq
    · refine hold ?_
      cases htaken with
      | stops => exact absurd hq (Nat.not_lt_zero q)
      | advances hj => exact hj q hq
      | _ => exact Or.inl hq
    · exact hold (Or.inr (hi.2 q (Or.inr hq)))

/-- **When `Shutdown` leaves no event behind.** A run leaves nothing in the queue of an event thread
that has left exactly if nobody pushes to such a queue. So when `Shutdown` has returned, all event
queues are empty exactly if that was the case, and then every completion that a completion queue
thread has pushed was handled. -/
theorem shutdown_drains_iff {as : List (ThreadAction μ)} (hr : Run (threads μ o) as s) :
    (Along (threads μ o) PushesServed as ↔
        ∀ q, s.eventQueueThreads q = .exited → s.state.eventQueues q = []) ∧
      (s.shutdown = .returned →
        (Along (threads μ o) PushesServed as ↔ ∀ q, s.state.eventQueues q = []) ∧
        (Along (threads μ o) PushesServed as →
          ∀ (r : ℕ) (c : Cell μ) (t : Tag), s.state.cells[r]? = some c →
            handledOks t c.history = deliveredOks t c.history)) := by
  have key : Along (threads μ o) PushesServed as ↔ ExitedEmpty s := by
    refine along_iff (G := ExitedEmpty) (fun q _ => started_init.1 q) (fun s a s' hs hst hg => ?_)
      (fun s a s' hs hg hst => ?_) hr
    · exact exitedEmpty_back (routed_of_reachable (reachable_state hs)) (taken_of_step hst) hg
    · exact exitedEmpty_taken (routed_of_reachable (reachable_state hs)) hg (taken_of_step hst)
  refine ⟨key, fun hret => ?_⟩
  have hexited : ∀ q, s.eventQueueThreads q = .exited := by
    intro q
    refine joined_of_reachable hr.reachable q ?_
    rw [hret]
    exact Nat.lt_or_ge q o.numEventThreads
  have hempty : Along (threads μ o) PushesServed as ↔ ∀ q, s.state.eventQueues q = [] :=
    key.trans ⟨fun h q => h q (hexited q), fun h q _ => h q⟩
  refine ⟨hempty, fun ha r c t hc => ?_⟩
  have hstate := reachable_state hr.reachable
  have hm := matched_of_walk (walks_of_reachable hstate (conn_of_cell hc)) t
  dsimp only [waitingOk] at hm
  rw [hempty.mp ha, pick_nil, if_neg (by simp), List.append_nil] at hm
  exact hm.symm

/-- The event thread is slow to see the flag: the listener has failed and was handled before it
leaves. -/
theorem shutdown_drains_iff_listener : ∃ (as : List (ThreadAction ℕ)) (s : ThreadState ℕ)
    (c : Cell ℕ), Run (threads ℕ (Options.single .normalRpc)) as s ∧ s.shutdown = .returned ∧
      s.state.cells[0]? = some c ∧ deliveredOks .newConnection c.history = [false] ∧
      handledOks .newConnection c.history = [false] ∧ ∀ q, s.state.eventQueues q = [] := by
  obtain ⟨s, hr, hp⟩ := exists_run (threads ℕ (Options.single .normalRpc))
    [.test 0, .shutdown, .shutdown, .shutdown, .shutdown, .next 0 0 .newConnection false 0, .push 0,
      .pop 0 {}, .shutdown, .nextFails 0, .shutdown, .shutdown, .test 0, .timeout 0, .shutdown,
      .shutdown]
    (fun s => decide (s.shutdown = .returned) && decide (s.state.eventQueues 0 = []) &&
      s.state.cells.all (fun c : Cell ℕ => decide (c.rpc.eventQueue = 0)) &&
      s.state.cells[0]?.any (fun c : Cell ℕ =>
        decide (deliveredOks .newConnection c.history = [false]))) (by decide)
  simp only [Bool.and_eq_true, decide_eq_true_eq, List.all_eq_true, Option.any_eq_true] at hp
  obtain ⟨⟨⟨hret, hq⟩, hall⟩, c, hc, hd⟩ := hp
  have hempty : ∀ q, s.state.eventQueues q = [] := by
    intro q
    refine List.eq_nil_iff_forall_not_mem.mpr (fun p hm => ?_)
    obtain ⟨c', hc', hq'⟩ := routed_of_reachable (reachable_state hr.reachable) q p hm
    rw [← hq', hall c' (List.mem_of_getElem? hc'), hq] at hm
    cases hm
  obtain ⟨-, hdrains⟩ := shutdown_drains_iff hr
  obtain ⟨hiff, hhandled⟩ := hdrains hret
  exact ⟨_, s, c, hr, hret, hc, hd, (hhandled (hiff.mpr hempty) 0 c .newConnection hc).trans hd,
    hempty⟩

/-- The event thread finds its queue empty after `shutting_down_` was set, and leaves. Then the
listener fails, its completion is pushed, and `Shutdown` returns with the event in the queue and the
`Rpc` in `ActiveRpcs`. -/
theorem event_left_behind : ∃ (as : List (ThreadAction ℕ)) (s : ThreadState ℕ) (c : Cell ℕ),
    Run (threads ℕ (Options.single .normalRpc)) as s ∧ s.shutdown = .returned ∧
      s.state.eventQueues 0 = [(0, .completion .newConnection)] ∧ s.state.cells[0]? = some c ∧
      deliveredOks .newConnection c.history = [false] ∧
      handledOks .newConnection c.history = [] ∧ noRpcsInFlight 0 s.state = false := by
  obtain ⟨s, hr, hp⟩ := exists_run (threads ℕ (Options.single .normalRpc))
    [.shutdown, .test 0, .timeout 0, .shutdown, .shutdown, .shutdown,
      .next 0 0 .newConnection false 0, .push 0, .shutdown, .nextFails 0, .shutdown, .shutdown,
      .shutdown, .shutdown]
    (fun s => decide (s.shutdown = .returned) &&
      decide (s.state.eventQueues 0 = [(0, .completion .newConnection)]) &&
      s.state.cells[0]?.any (fun c : Cell ℕ =>
        decide (deliveredOks .newConnection c.history = [false] ∧
          handledOks .newConnection c.history = [])) &&
      !noRpcsInFlight 0 s.state) (by decide)
  simp only [Bool.and_eq_true, decide_eq_true_eq, Option.any_eq_true, Bool.not_eq_true'] at hp
  obtain ⟨⟨⟨hret, hq⟩, c, hc, hd, hh⟩, hn⟩ := hp
  exact ⟨_, s, c, hr, hret, hq, hc, hd, hh, hn⟩

end AsyncGrpc.Server.Shutdown
