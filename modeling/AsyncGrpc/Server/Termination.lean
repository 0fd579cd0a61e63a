import AsyncGrpc.Lib.Termination
import AsyncGrpc.Server.Queues
import AsyncGrpc.Server.Shutdown
import AsyncGrpc.Service.Lifetime
import AsyncGrpc.Service.Listeners
import AsyncGrpc.Single.Workload

/-! # `Server::Shutdown` comes to its end

Once `StopServing` has been called for every service, every step of the server takes it nearer to the
return of `Shutdown`, whichever thread makes it; only what comes from outside (a request message that
arrives, the calls that a handler makes, the calls of `Writer`s, the end of a call) can delay it, by a few
steps each. What `Shutdown` has to wait for is the end of the calls that are under way.

* `shutdown_amortised`: the number of steps is bounded by a potential of the state and what came from
  outside, and as long as `Shutdown` has not returned, some thread can go on by itself or `Shutdown` is in
  `server_->Shutdown()` while a call is under way.
* `shutdown_can_return`: so `Shutdown` can return from every state of every run when the calls that are
  under way end, and not before.
* `clean_shutdown`: before `Shutdown` is called, it is still possible that it returns with every event
  handled and every `ActiveRpcs` empty. -/

namespace AsyncGrpc.Server.Termination

open AsyncGrpc.Lib.Runs AsyncGrpc.Lib.Termination
open AsyncGrpc.Model.Types AsyncGrpc.Model.Rpc AsyncGrpc.Model.Service AsyncGrpc.Model.Server
open AsyncGrpc.Model.Threads AsyncGrpc.Server.Threads AsyncGrpc.Server.Shutdown
open AsyncGrpc.Single.Machine AsyncGrpc.Single.Moves AsyncGrpc.Single.Project
open AsyncGrpc.Single.Lifecycle AsyncGrpc.Single.Failures AsyncGrpc.Single.Workload
open AsyncGrpc.Service.Listeners AsyncGrpc.Service.Lifetime

variable {μ : Type}

/-! ### The load of the services -/

section Load
variable {cfg : Config} {st st' : State μ} {b : Action μ} {r : ℕ}

/-- Every service that has an `Rpc` is shutting down. -/
def Stopped (st : State μ) : Prop := ∀ c ∈ st.cells, st.shuttingDown c.rpc.service = true

end Load

/-! ### The steps of the threads -/

section Steps
variable {o : Options} {s s' : ThreadState μ} {a : ThreadAction μ}

/-- What a step of `Shutdown` does. -/
inductive Advanced (o : Options) (s : ThreadState μ) : ThreadState μ → Prop
  | called (h : s.shutdown = .notCalled) :
      Advanced o s { s with shuttingDown := true, shutdown := .stopServing 0 }
  | stopped {k : ℕ} (h : s.shutdown = .stopServing k) (hk : k < o.services.length) :
      Advanced o s ({ s with shutdown := .stopServing (k + 1) }.setState
        { s.state with shuttingDown := Function.update s.state.shuttingDown k true })
  | served {k : ℕ} (h : s.shutdown = .stopServing k) (hk : o.services.length ≤ k) :
      Advanced o s { s with shutdown := .shutdownServer }
  | closed (h : s.shutdown = .shutdownServer) (hno : s.noCallUnderway = true) :
      Advanced o s { s with shutdown := .shutdownCompletionQueue 0 }
  | shuts {i : ℕ} (h : s.shutdown = .shutdownCompletionQueue i) (hi : i < o.numGrpcThreads) :
      Advanced o s { s with
        completionQueueShutdown := Function.update s.completionQueueShutdown i true
        shutdown := .joinCompletionQueue i }
  | shutAll {i : ℕ} (h : s.shutdown = .shutdownCompletionQueue i) (hi : o.numGrpcThreads ≤ i) :
      Advanced o s { s with shutdown := .joinEventQueue 0 }
  | joins {i : ℕ} (h : s.shutdown = .joinCompletionQueue i) (hx : s.completionQueueThreads i = .exited) :
      Advanced o s { s with shutdown := .shutdownCompletionQueue (i + 1) }
  | joinsEvents {q : ℕ} (h : s.shutdown = .joinEventQueue q) (hq : q < o.numEventThreads)
      (hx : s.eventQueueThreads q = .exited) :
      Advanced o s { s with shutdown := .joinEventQueue (q + 1) }
  | returns {q : ℕ} (h : s.shutdown = .joinEventQueue q) (hq : o.numEventThreads ≤ q) :
      Advanced o s { s with shutdown := .returned }

theorem advanced_of_step (h : s.stepShutdown o = some (.ok s')) : Advanced o s s' := by
  unfold ThreadState.stepShutdown at h
  split at h
  · next hpc =>
    cases h
    exact .called hpc
  · next hpc =>
    split_ifs at h with hk
    · cases h
      exact .stopped hpc hk
    · cases h
      exact .served hpc (Nat.not_lt.mp hk)
  · next hpc =>
    split_ifs at h with hno
    cases h
    exact .closed hpc hno
  · next hpc =>
    split_ifs at h with hi
    · cases h
      exact .shuts hpc hi
    · cases h
      exact .shutAll hpc (Nat.not_lt.mp hi)
  · next hpc =>
    split at h
    · next hx =>
      cases h
      exact .joins hpc hx
    · cases h
  · next hpc =>
    split_ifs at h with hq hx
    · cases h
      exact .joinsEvents hpc hq hx
    · cases h
      exact .returns hpc (Nat.not_lt.mp hq)
  · cases h

/-- What a step of the threads does, with the positions of the threads before and after. -/
inductive Did (o : Options) (s : ThreadState μ) : ThreadAction μ → ThreadState μ → Prop
  | begins {r : ℕ} (hpc : serverShutdown s.shutdown = false) (hr : r < s.state.cells.length) :
      Did o s (.callBegins r) (s.setCall r .underway)
  | ends {r : ℕ} (hr : s.calls r = .underway) : Did o s (.callEnds r) (s.setCall r .over)
  | advanced {s1 : ThreadState μ} (h : Advanced o s s1) : Did o s .shutdown s1
  | takes {i r : ℕ} {t : Tag} {ok : Bool} {m : μ} (hpc : s.completionQueueThreads i = .next)
      (hok : completes (s.calls r) t ok = true) :
      Did o s (.next i r t ok m) ((s.setCompletionQueueThread i (.push r t ok m)).setCall r
        (afterCompletion (s.calls r) t ok))
  | pushes {i r : ℕ} {t : Tag} {ok : Bool} {m : μ} {st : State μ}
      (hpc : s.completionQueueThreads i = .push r t ok m)
      (hs : (server μ o.config).Step s.state (.deliver r t ok m) st) :
      Did o s (.push i) ((s.setCompletionQueueThread i .next).setState st)
  | finishes {i : ℕ} (hpc : s.completionQueueThreads i = .next)
      (hx : s.completionQueueShutdown i = true) :
      Did o s (.nextFails i) (s.setCompletionQueueThread i .exited)
  | tests {q : ℕ} (hpc : s.eventQueueThreads q = .test) :
      Did o s (.test q) (s.setEventQueueThread q (if s.shuttingDown then .drain else .pop))
  | pops {q : ℕ} {script : Script μ} {st : State μ} (hpc : s.eventQueueThreads q = .pop)
      (hs : (server μ o.config).Step s.state (.handle q script) st) :
      Did o s (.pop q script) ((s.setEventQueueThread q .test).setState st)
  | drains {q : ℕ} {script : Script μ} {st : State μ} (hpc : s.eventQueueThreads q = .drain)
      (hs : (server μ o.config).Step s.state (.handle q script) st) :
      Did o s (.pop q script) ((s.setEventQueueThread q .drain).setState st)
  | waits {q : ℕ} (hpc : s.eventQueueThreads q = .pop) :
      Did o s (.timeout q) (s.setEventQueueThread q .test)
  | leaves {q : ℕ} (hpc : s.eventQueueThreads q = .drain) :
      Did o s (.timeout q) (s.setEventQueueThread q .exited)
  | locks {r : ℕ} {w : WriterMethod μ} {st : State μ}
      (hs : (server μ o.config).Step s.state (.lockWriter r w) st) :
      Did o s (.lockWriter r w) (s.setState st)
  | writes {r i : ℕ} {st : State μ}
      (hs : (server μ o.config).Step s.state (.stepWriter r i) st) :
      Did o s (.stepWriter r i) (s.setState st)

theorem did_of_step (h : (threads μ o).Step s a s') : Did o s a s' := by
  have hstep : stepThreads o s a = some (.ok s') := h
  cases a with
  | callBegins r =>
    unfold stepThreads at hstep
    dsimp only at hstep
    split at hstep
    · next c hc =>
      split_ifs at hstep with hif
      cases hstep
      exact .begins hif.1 (List.getElem?_eq_some_iff.mp hc).1
    · cases hstep
  | callEnds r =>
    unfold stepThreads at hstep
    dsimp only at hstep
    split_ifs at hstep with hif
    cases hstep
    exact .ends hif
  | shutdown => exact .advanced (advanced_of_step hstep)
  | nextFails i =>
    unfold stepThreads at hstep
    dsimp only at hstep
    split at hstep
    · next hpc =>
      split_ifs at hstep with hx
      cases hstep
      exact .finishes hpc (Bool.and_eq_true_iff.mp hx).1
    · cases hstep
  | test q =>
    unfold stepThreads at hstep
    dsimp only at hstep
    split at hstep
    · next hpc =>
      cases hstep
      exact .tests hpc
    · cases hstep
  | pop q script =>
    unfold stepThreads at hstep
    dsimp only at hstep
    split at hstep
    · next hpc =>
      obtain ⟨st, hs, rfl⟩ := serve_eq_ok hstep
      exact .pops hpc hs
    · next hpc =>
      obtain ⟨st, hs, rfl⟩ := serve_eq_ok hstep
      exact .drains hpc hs
    · cases hstep
  | next i r t ok m =>
    unfold stepThreads at hstep
    dsimp only at hstep
    split at hstep
    · next hpc hc =>
      split_ifs at hstep with hif
      cases hstep
      exact .takes hpc hif.2.2
    · cases hstep
  | push i =>
    cases taken_of_step h with
    | pushes hpc hs => exact .pushes hpc hs
  | timeout q =>
    cases taken_of_step h with
    | waits hpc => exact .waits hpc
    | leaves _ hpc => exact .leaves hpc
  | lockWriter r w =>
    cases taken_of_step h with
    | locks hs => exact .locks hs
  | stepWriter r i =>
    cases taken_of_step h with
    | writes hs => exact .writes hs

/-- How many services `Shutdown` has stopped. -/
def stoppedServices (o : Options) : Model.Threads.Shutdown → ℕ
  | .notCalled => 0
  | .stopServing k => k
  | _ => o.services.length

/-- `Shutdown` has not yet come to the completion queues: `server_->Shutdown()` has not returned. -/
def early : Model.Threads.Shutdown → Bool
  | .notCalled | .stopServing _ | .shutdownServer => true
  | _ => false

/-- What the position of `Shutdown` says about the rest. -/
structure Positions (o : Options) (s : ThreadState μ) : Prop where
  flag : s.shuttingDown = true ↔ s.shutdown ≠ .notCalled
  services : ∀ k, k < stoppedServices o s.shutdown → s.state.shuttingDown k = true
  joining : ∀ i, s.shutdown = .joinCompletionQueue i →
    i < o.numGrpcThreads ∧ s.completionQueueShutdown i = true
  absent : ∀ i, o.numGrpcThreads ≤ i → s.completionQueueThreads i = .exited
  exited : ∀ i, i < o.numGrpcThreads → s.completionQueueThreads i = .exited →
    s.completionQueueShutdown i = true
  unshut : early s.shutdown = true → ∀ i, s.completionQueueShutdown i = false
  events : s.shutdown = .notCalled → ∀ q, s.eventQueueThreads q ≠ .drain ∧
    (q < o.numEventThreads → s.eventQueueThreads q ≠ .exited)
  served : ∀ r, s.calls r = .underway → r < s.state.cells.length
  ended : early s.shutdown = false → ∀ r, s.calls r ≠ .underway

/-- `server_->Shutdown()` returns when no call is under way. -/
theorem Positions.noCallUnderway_iff (hp : Positions o s) :
    s.noCallUnderway = true ↔ ∀ r, s.calls r ≠ .underway := by
  simp only [ThreadState.noCallUnderway, List.all_eq_true, List.mem_range, decide_eq_true_eq]
  exact ⟨fun h r hr => h r (hp.served r hr) hr, fun h r _ => h r⟩

theorem length_le_of_step {cfg : Config} {st st' : State μ} {b : Action μ}
    (hst : Reachable (server μ cfg) st) (hs : (server μ cfg).Step st b st') :
    st.cells.length ≤ st'.cells.length := by
  rcases cells_of_step hst hs with ⟨hcells, -⟩ | ⟨-, r, l, _, l', hl, -, h⟩
  · rw [hcells]
  · rcases h with ⟨hcells, -⟩ | ⟨-, -, n, hcells⟩
    · rw [hcells, List.length_set]
    · rw [hcells, List.length_append, List.length_set]
      exact Nat.le_add_right _ _

theorem shuttingDown_of_step {cfg : Config} {st st' : State μ} {b : Action μ}
    (hst : Reachable (server μ cfg) st) (hs : (server μ cfg).Step st b st') {k : ℕ}
    (hk : st.shuttingDown k = true) : st'.shuttingDown k = true := by
  rcases cells_of_step hst hs with ⟨-, service, h⟩ | ⟨h, -⟩
  · rw [h]
    by_cases hks : k = service
    · subst hks
      exact Function.update_self ..
    · rw [Function.update_of_ne hks]
      exact hk
  · rw [h]
    exact hk

/-- A step of `Shutdown` that only moves on. -/
theorem Positions.move (hp : Positions o s) {pc : Model.Threads.Shutdown}
    (hcalled : s.shutdown ≠ .notCalled) (hpc : pc ≠ .notCalled)
    (hs : stoppedServices o pc ≤ stoppedServices o s.shutdown)
    (hj : ∀ i, pc ≠ .joinCompletionQueue i) (he : early pc = true → early s.shutdown = true)
    (hc : early pc = false → ∀ r, s.calls r ≠ .underway) : Positions o { s with shutdown := pc } where
  flag := iff_of_true (hp.flag.mpr hcalled) hpc
  services := fun k hk => hp.services k (Nat.lt_of_lt_of_le hk hs)
  joining := fun i h => absurd h (hj i)
  absent := hp.absent
  exited := hp.exited
  unshut := fun h => hp.unshut (he h)
  events := fun h => absurd h hpc
  served := hp.served
  ended := hc

theorem Positions.advanced (hp : Positions o s) (h : Advanced o s s') : Positions o s' := by
  cases h with
  | called h =>
    refine ⟨by simp, fun k hk => absurd hk (Nat.not_lt_zero k), by rintro _ ⟨⟩, hp.absent, hp.exited,
      fun _ => hp.unshut (by rw [h]; rfl), by rintro ⟨⟩, hp.served, by rintro ⟨⟩⟩
  | @stopped k h hk =>
    refine ⟨iff_of_true (hp.flag.mpr (by simp [h])) (by rintro ⟨⟩), fun j hj => ?_, by rintro _ ⟨⟩,
      hp.absent, hp.exited, fun _ => hp.unshut (by rw [h]; rfl), by rintro ⟨⟩, hp.served, by rintro ⟨⟩⟩
    show Function.update s.state.shuttingDown k true j = true
    by_cases hjk : j = k
    · subst hjk
      exact Function.update_self ..
    · rw [Function.update_of_ne hjk]
      refine hp.services j ?_
      rw [h]
      exact Nat.lt_of_le_of_ne (Nat.lt_succ_iff.mp hj) hjk
  | served h hk =>
    exact hp.move (by simp [h]) (by simp) (by rw [h]; exact hk) (by simp) (by simp [h, early])
      (by rintro ⟨⟩)
  | closed h hno =>
    exact hp.move (by simp [h]) (by simp) (by rw [h]; exact Nat.le_refl _) (by simp) (by simp [early])
      fun _ => hp.noCallUnderway_iff.mp hno
  | @shuts i h hi =>
    refine ⟨iff_of_true (hp.flag.mpr (by simp [h])) (by rintro ⟨⟩), fun j hj => ?_, ?_, hp.absent,
      fun j hj hx => ?_, by rintro ⟨⟩, by rintro ⟨⟩, hp.served, fun _ => hp.ended (by rw [h]; rfl)⟩
    · exact hp.services j (by rw [h]; exact hj)
    · rintro _ ⟨⟩
      exact ⟨hi, Function.update_self ..⟩
    · show Function.update s.completionQueueShutdown i true j = true
      by_cases hji : j = i
      · subst hji
        exact Function.update_self ..
      · rw [Function.update_of_ne hji]
        exact hp.exited j hj hx
  | shutAll h =>
    exact hp.move (by simp [h]) (by simp) (by rw [h]; exact Nat.le_refl _) (by simp) (by simp [early])
      fun _ => hp.ended (by rw [h]; rfl)
  | joins h =>
    exact hp.move (by simp [h]) (by simp) (by rw [h]; exact Nat.le_refl _) (by simp) (by simp [early])
      fun _ => hp.ended (by rw [h]; rfl)
  | joinsEvents h =>
    exact hp.move (by simp [h]) (by simp) (by rw [h]; exact Nat.le_refl _) (by simp) (by simp [early])
      fun _ => hp.ended (by rw [h]; rfl)
  | returns h =>
    exact hp.move (by simp [h]) (by simp) (by rw [h]; exact Nat.le_refl _) (by simp) (by simp [early])
      fun _ => hp.ended (by rw [h]; rfl)

/-- A step of the services. -/
theorem Positions.setState (hp : Positions o s) {b : Action μ} {st : State μ}
    (hst : Reachable (server μ o.config) s.state) (hs : (server μ o.config).Step s.state b st) :
    Positions o (s.setState st) :=
  ⟨hp.flag, fun k hk => shuttingDown_of_step hst hs (hp.services k hk), hp.joining, hp.absent, hp.exited,
    hp.unshut, hp.events, fun r hr => Nat.lt_of_lt_of_le (hp.served r hr) (length_le_of_step hst hs),
    hp.ended⟩

/-- gRPC moves on with a call. -/
theorem Positions.setCall (hp : Positions o s) {r : ℕ} {call : CallState}
    (hcall : call = .underway → r < s.state.cells.length ∧ early s.shutdown = true) :
    Positions o (s.setCall r call) where
  flag := hp.flag
  services := hp.services
  joining := hp.joining
  absent := hp.absent
  exited := hp.exited
  unshut := hp.unshut
  events := hp.events
  served := fun r' h => by
    replace h : Function.update s.calls r call r' = .underway := h
    by_cases hrr : r' = r
    · subst hrr
      rw [Function.update_self] at h
      exact (hcall h).1
    · rw [Function.update_of_ne hrr] at h
      exact hp.served r' h
  ended := fun he r' h => by
    replace h : Function.update s.calls r call r' = .underway := h
    by_cases hrr : r' = r
    · subst hrr
      rw [Function.update_self] at h
      cases he.symm.trans (hcall h).2
    · rw [Function.update_of_ne hrr] at h
      exact hp.ended he r' h

/-- A completion queue thread moves on. -/
theorem Positions.next (hp : Positions o s) {i : ℕ} {pc : RunCompletionQueue μ}
    (hi : s.completionQueueThreads i ≠ .exited) (hx : pc = .exited → s.completionQueueShutdown i = true) :
    Positions o (s.setCompletionQueueThread i pc) where
  flag := hp.flag
  services := hp.services
  joining := hp.joining
  absent := fun j hj => by
    have hne : j ≠ i := by
      rintro rfl
      exact hi (hp.absent j hj)
    exact (Function.update_of_ne hne ..).trans (hp.absent j hj)
  exited := fun j hj h => by
    replace h : Function.update s.completionQueueThreads i pc j = .exited := h
    by_cases hji : j = i
    · subst hji
      rw [Function.update_self] at h
      exact hx h
    · rw [Function.update_of_ne hji] at h
      exact hp.exited j hj h
  unshut := hp.unshut
  events := hp.events
  served := hp.served
  ended := hp.ended

/-- An event thread moves on. -/
theorem Positions.event (hp : Positions o s) {q : ℕ} {pc : RunEventQueue}
    (hpc : s.shutdown = .notCalled → pc ≠ .drain ∧ pc ≠ .exited) :
    Positions o (s.setEventQueueThread q pc) where
  flag := hp.flag
  services := hp.services
  joining := hp.joining
  absent := hp.absent
  exited := hp.exited
  unshut := hp.unshut
  events := fun h q' => by
    by_cases hqq : q' = q
    · subst hqq
      rw [setEventQueueThread_self]
      exact ⟨(hpc h).1, fun _ => (hpc h).2⟩
    · rw [setEventQueueThread_of_ne hqq]
      exact hp.events h q'
  served := hp.served
  ended := hp.ended

/-- A completion does not bring a call back. -/
theorem underway_of_afterCompletion {call : CallState} {t : Tag} {ok : Bool}
    (h : afterCompletion call t ok = .underway) : call = .underway := by
  unfold afterCompletion at h
  split_ifs at h
  exact h

theorem early_of_serverShutdown {pc : Model.Threads.Shutdown} (h : serverShutdown pc = false) :
    early pc = true := by
  cases pc <;> first | rfl | cases h

theorem Positions.did (hp : Positions o s) (hst : Reachable (server μ o.config) s.state)
    (h : Did o s a s') : Positions o s' := by
  cases h with
  | begins hpc hr => exact hp.setCall fun _ => ⟨hr, early_of_serverShutdown hpc⟩
  | ends => exact hp.setCall (by rintro ⟨⟩)
  | advanced h => exact hp.advanced h
  | @takes i r t ok m hpc =>
    refine (hp.next (by simp [hpc]) (by rintro ⟨⟩)).setCall fun h => ?_
    have hcall := underway_of_afterCompletion h
    refine ⟨hp.served r hcall, Bool.of_not_eq_false fun he => hp.ended he r hcall⟩
  | pushes hpc hs => exact (hp.next (by simp [hpc]) (by rintro ⟨⟩)).setState hst hs
  | finishes hpc hx => exact hp.next (by simp [hpc]) (fun _ => hx)
  | tests =>
    refine hp.event fun h => ?_
    have hno : s.shuttingDown = false := by
      by_contra hsd
      exact hp.flag.mp (by simpa using hsd) h
    simp [hno]
  | pops _ hs => exact (hp.event fun _ => by simp).setState hst hs
  | drains hpc hs => exact (hp.event fun h => absurd hpc (hp.events h _).1).setState hst hs
  | waits => exact hp.event fun _ => by simp
  | leaves hpc => exact hp.event fun h => absurd hpc (hp.events h _).1
  | locks hs => exact hp.setState hst hs
  | writes hs => exact hp.setState hst hs

theorem positions_of_reachable (h : Reachable (threads μ o) s) : Positions o s := by
  refine (inv_of_reachable (I := fun s => Reachable (threads μ o) s ∧ Positions o s)
    ⟨Run.init.reachable, ?_⟩
    (fun s a s' hi hs => ⟨hi.1.step hs, hi.2.did (reachable_state hi.1) (did_of_step hs)⟩) h).2
  refine ⟨by simp [threads], fun k hk => absurd hk (Nat.not_lt_zero k), by rintro _ ⟨⟩,
    fun i hi => if_neg (Nat.not_lt.mpr hi), fun i hi hx => ?_, fun _ _ => rfl, fun _ q => ?_,
    by rintro r ⟨⟩, by rintro ⟨⟩⟩
  · replace hx : (if i < o.numGrpcThreads then RunCompletionQueue.next else .exited) = .exited := hx
    rw [if_pos hi] at hx
    cases hx
  · show (if q < o.numEventThreads then RunEventQueue.test else .exited) ≠ .drain ∧
      (q < o.numEventThreads → (if q < o.numEventThreads then RunEventQueue.test else .exited) ≠ .exited)
    split_ifs with hq
    · simp
    · exact ⟨by simp, fun h => absurd h hq⟩

end Steps

/-! ### The potential -/

section Potential
variable {o : Options} {s s' : ThreadState μ} {a : ThreadAction μ}

/-- `StopServing` has returned for every service. -/
def afterStop : Model.Threads.Shutdown → Bool
  | .notCalled | .stopServing _ => false
  | _ => true

/-- The state in which the potential is defined: `StopServing` has returned for every service. -/
def Closing (o : Options) (s : ThreadState μ) : Prop :=
  Reachable (threads μ o) s ∧ afterStop s.shutdown = true

theorem Closing.stopped (h : Closing o s) : Stopped s.state := by
  intro c hc
  have hreg := registered_of_reachable (reachable_state h.1) c hc
  obtain ⟨infos, h1, -⟩ := mem_registrations.mp hreg
  have hlt : c.rpc.service < o.services.length := (List.getElem?_eq_some_iff.mp h1).1
  refine (positions_of_reachable h.1).services _ ?_
  have hstop := h.2
  cases hsd : s.shutdown <;> rw [hsd] at hstop <;> first | exact hlt | cases hstop

theorem afterStop_advanced (h : Advanced o s s') (ha : afterStop s.shutdown = true) :
    afterStop s'.shutdown = true := by
  cases h with
  | called h => rw [h] at ha; cases ha
  | stopped h => rw [h] at ha; cases ha
  | _ => rfl

theorem Closing.serverShutdown (h : Closing o s) : serverShutdown s.shutdown = true := by
  have hstop := h.2
  cases hpc : s.shutdown <;> rw [hpc] at hstop <;> first | rfl | cases hstop

theorem Closing.step (h : Closing o s) (hs : (threads μ o).Step s a s') : Closing o s' := by
  refine ⟨h.1.step hs, ?_⟩
  cases did_of_step hs with
  | advanced ha => exact afterStop_advanced ha h.2
  | _ => exact h.2

theorem advanced_frame (h : Advanced o s s') (ha : afterStop s.shutdown = true) :
    s'.state = s.state ∧ s'.completionQueueThreads = s.completionQueueThreads ∧
      s'.eventQueueThreads = s.eventQueueThreads := by
  cases h with
  | stopped h => rw [h] at ha; cases ha
  | _ => exact ⟨rfl, rfl, rfl⟩

end Potential

/-! ### Some thread can go on -/

section Progress
variable {o : Options} {s : ThreadState μ}

/-- The oldest event of a queue can be handled when its handler does nothing. -/
theorem exists_handle {cfg : Config} {st : State μ} {q r : ℕ} {e : RpcEvent} {rest : List (ℕ × RpcEvent)}
    (hst : Reachable (server μ cfg) st) (hstop : Stopped st) (hq : st.eventQueues q = (r, e) :: rest) :
    ∃ st', (server μ cfg).Step st (.handle q {}) st' := by
  obtain ⟨c, hc, hl⟩ := conn_head hst hq
  have hwalk := walks_of_reachable hst hl
  obtain ⟨c', new, hh⟩ := handle_idle (invariant_of_walk hwalk) (equipped_of_walk hwalk) rfl
  have hnew := handle_new_eq hh
  rw [if_neg (by simp)] at hnew
  subst hnew
  refine ⟨{ st with eventQueues := Function.update st.eventQueues q rest }.store r c', ?_⟩
  show step cfg st (.handle q {}) = _
  unfold step
  dsimp only
  rw [hq]
  dsimp only
  rw [hc]
  dsimp only
  unfold handleNext
  rw [hstop c (List.mem_of_getElem? hc), hh]
  rfl

/-- The step needs nothing from outside: a thread of the server makes it, and no handler makes a call in
it; or gRPC completes an operation without a client, since no call is under way, and brings no message.
Before `server_->Shutdown()` begins, gRPC does not fail a listener. -/
def Unaided (s : ThreadState μ) : ThreadAction μ → Prop
  | .callBegins _ | .callEnds _ | .lockWriter _ _ | .stepWriter _ _ => False
  | .next _ r t ok _ => s.calls r ≠ .underway ∧ (t = .read → ok = false) ∧
      (s.calls r = .awaited → serverShutdown s.shutdown = true)
  | .pop _ script => size script = 0
  | _ => True

/-- What gRPC holds for a completion queue comes out of it, once no call is under way and
`server_->Shutdown()` has begun. -/
theorem exists_completion {i r : ℕ} {t : Tag} {c : Cell μ} (m : μ)
    (hpc : s.completionQueueThreads i = .next) (hc : s.state.cells[r]? = some c)
    (hi : c.rpc.serverCompletionQueue = i) (hd : deliverable t c = true)
    (hcall : s.calls r ≠ .underway) (hsd : serverShutdown s.shutdown = true) :
    ∃ ok s', Unaided s (.next i r t ok m) ∧ (threads μ o).Step s (.next i r t ok m) s' := by
  obtain ⟨ok, hok, hread⟩ : ∃ ok, completes (s.calls r) t ok = true ∧ (t = .read → ok = false) := by
    cases t with
    | newConnection => exact ⟨decide (s.calls r ≠ .awaited), by simp [completes], by simp⟩
    | done => exact ⟨false, by simp [completes, hcall], by simp⟩
    | _ => exact ⟨false, rfl, fun _ => rfl⟩
  refine ⟨ok, (s.setCompletionQueueThread i (.push r t ok m)).setCall r (afterCompletion (s.calls r) t ok),
    ⟨hcall, hread, fun _ => hsd⟩, ?_⟩
  show stepThreads o s (.next i r t ok m) = _
  simp only [stepThreads, hpc, hc, hi, hd, hok, and_self, if_true]

/-- The thread of a queue in which an event waits can handle it. -/
theorem exists_pop {q : ℕ} (h : Closing o s) (hpc : s.eventQueueThreads q = .pop ∨
    s.eventQueueThreads q = .drain) (hq : s.state.eventQueues q ≠ []) :
    ∃ s', (threads μ o).Step s (.pop q {}) s' := by
  obtain ⟨⟨r, e⟩, rest, hq⟩ := List.exists_cons_of_ne_nil hq
  obtain ⟨st, hs⟩ := exists_handle (reachable_state h.1) h.stopped hq
  replace hs : step o.config s.state (.handle q {}) = some (.ok st) := hs
  rcases hpc with hpc | hpc
  · refine ⟨(s.setEventQueueThread q .test).setState st, ?_⟩
    show stepThreads o s (.pop q {}) = _
    simp only [stepThreads, hpc, ThreadState.serve, ThreadState.setEventQueueThread, hs]
    rfl
  · refine ⟨(s.setEventQueueThread q .drain).setState st, ?_⟩
    show stepThreads o s (.pop q {}) = _
    simp only [stepThreads, hpc, ThreadState.serve, ThreadState.setEventQueueThread, hs]
    rfl

end Progress

/-! ### The end of `Shutdown` -/

section Return
variable {o : Options} {s s' : ThreadState μ} {a : ThreadAction μ} {pre as : List (ThreadAction μ)}

/-- How many calls are under way. -/
def underway (s : ThreadState μ) : ℕ :=
  ∑ r ∈ Finset.range s.state.cells.length, if s.calls r = .underway then 1 else 0

/-- No call begins unaided. -/
theorem Unaided.calls (h : Unaided s a) (hs : (threads μ o).Step s a s') {r : ℕ}
    (hr : s.calls r ≠ .underway) : s'.calls r ≠ .underway := by
  cases did_of_step hs with
  | begins => cases h
  | ends => cases h
  | @takes i r' t ok m =>
    intro hx
    replace hx : Function.update s.calls r' (afterCompletion (s.calls r') t ok) r = .underway := hx
    by_cases hrr : r = r'
    · subst hrr
      rw [Function.update_self] at hx
      exact hr (underway_of_afterCompletion hx)
    · rw [Function.update_of_ne hrr] at hx
      exact hr hx
  | advanced ha => cases ha <;> exact hr
  | _ => exact hr

end Return

/-! ### A clean end -/

section Clean
variable {o : Options} {s s' : ThreadState μ} {a : ThreadAction μ} {pre : List (ThreadAction μ)}

/-- Nothing is left to be handled, and nothing more comes from gRPC. -/
def Settled (st : State μ) : Prop :=
  (∀ q, st.eventQueues q = []) ∧ ∀ c ∈ st.cells, ∀ t, deliverable t c = false

/-- Then every `ActiveRpcs` is empty. -/
theorem Settled.noRpcsInFlight {cfg : Config} {st : State μ} (h : Settled st)
    (hst : Reachable (server μ cfg) st) (service : ℕ) : noRpcsInFlight service st = true := by
  unfold Model.Server.noRpcsInFlight
  rw [List.all_eq_true]
  intro c hc
  obtain ⟨r, hr⟩ := List.getElem?_of_mem hc
  have hl := conn_of_cell hr
  rw [h.1, pick_nil] at hl
  have hno : ∀ t, ¬ (⟨c, []⟩ : Conn μ).awaited t := by
    rintro t (hd | hin)
    · cases (h.2 c hc t).symm.trans hd
    · cases hin
  cases ha : c.active with
  | false => simp
  | true =>
    rcases awaited_of_active (invariant_of_reachable hst hl) ha with h1 | ⟨-, -, t, -, h1⟩
    · exact absurd h1 (hno _)
    · exact absurd h1 (hno t)

theorem eventQueue_lt (h : Reachable (threads μ o) s) {c : Cell μ} (hc : c ∈ s.state.cells) :
    c.rpc.eventQueue < o.numEventThreads := by
  obtain ⟨n, hn⟩ := Queues.selected_of_reachable (reachable_state h) c hc
  rw [hn]
  exact Nat.mod_lt _ o.numEventThreads_pos

theorem completionQueue_lt (h : Reachable (threads μ o) s) {c : Cell μ} (hc : c ∈ s.state.cells) :
    c.rpc.serverCompletionQueue < o.numGrpcThreads := by
  have hreg := registered_of_reachable (reachable_state h) c hc
  obtain ⟨infos, -, -, hlt⟩ := mem_registrations.mp hreg
  exact hlt

/-- All threads are still there, and no call is under way: `Shutdown` has not come to the completion
queues, and no event thread has left. -/
structure Manned (o : Options) (s : ThreadState μ) : Prop where
  closing : Closing o s
  shutdown : s.shutdown = .shutdownServer
  events : ∀ q, q < o.numEventThreads → s.eventQueueThreads q ≠ .exited
  calls : ∀ r, s.calls r ≠ .underway

/-- While something is left, a thread can work on it and stays. -/
theorem Manned.exists_step [Inhabited μ] (h : Manned o s) (hne : ¬ Settled s.state) :
    ∃ a s', Unaided s a ∧ (threads μ o).Step s a s' ∧ Manned o s' := by
  have hp := positions_of_reachable h.closing.1
  have hkeep : ∀ {a s'}, (threads μ o).Step s a s' → Unaided s a → s'.shutdown = s.shutdown →
      (∀ q, s'.eventQueueThreads q = .exited → s.eventQueueThreads q = .exited) → Manned o s' :=
    fun hs hun h1 h2 => ⟨h.closing.step hs, h1.trans h.shutdown, fun q hq hx => h.events q hq (h2 q hx),
      fun r => hun.calls hs (h.calls r)⟩
  have hset : ∀ {q : ℕ} {pc : RunEventQueue}, pc ≠ .exited → ∀ q',
      (s.setEventQueueThread q pc).eventQueueThreads q' = .exited → s.eventQueueThreads q' = .exited := by
    intro q pc hpc q' hx
    by_cases hqq : q' = q
    · subst hqq
      exact absurd (setEventQueueThread_self.symm.trans hx) hpc
    · exact (setEventQueueThread_of_ne hqq).symm.trans hx
  by_cases hq : ∀ q, s.state.eventQueues q = []
  · -- gRPC has something to deliver
    have hd : ∃ c ∈ s.state.cells, ∃ t, deliverable t c = true := by
      by_contra hno
      push Not at hno
      exact hne ⟨hq, fun c hc t => by simpa using hno c hc t⟩
    obtain ⟨c, hc, t, ht⟩ := hd
    obtain ⟨r, hr⟩ := List.getElem?_of_mem hc
    cases hpc : s.completionQueueThreads c.rpc.serverCompletionQueue with
    | next =>
      obtain ⟨ok, s', hun, hs⟩ := exists_completion (o := o) default hpc hr rfl ht (h.calls r)
        h.closing.serverShutdown
      refine ⟨_, s', hun, hs, ?_⟩
      cases did_of_step hs with
      | takes => exact hkeep hs hun rfl fun _ h => h
    | push r' t' ok m =>
      obtain ⟨s', hs⟩ := exists_push h.closing.1 hpc
      refine ⟨.push _, s', trivial, hs, ?_⟩
      cases did_of_step hs with
      | pushes => exact hkeep hs trivial rfl fun _ h => h
    | exited =>
      have hx := hp.exited _ (completionQueue_lt h.closing.1 hc) hpc
      have hno := hp.unshut (by rw [h.shutdown]; rfl) c.rpc.serverCompletionQueue
      cases hno.symm.trans hx
  · -- an event waits
    push Not at hq
    obtain ⟨q, hq⟩ := hq
    have hlt : q < o.numEventThreads := by
      obtain ⟨p, rest, hp⟩ := List.exists_cons_of_ne_nil hq
      obtain ⟨c, hc, rfl⟩ := routed_of_reachable (reachable_state h.closing.1) q p (by simp [hp])
      exact eventQueue_lt h.closing.1 (List.mem_of_getElem? hc)
    have hpop : s.eventQueueThreads q = .pop ∨ s.eventQueueThreads q = .drain →
        ∃ a s', Unaided s a ∧ (threads μ o).Step s a s' ∧ Manned o s' := by
      intro hpc
      obtain ⟨s', hs⟩ := exists_pop h.closing hpc hq
      refine ⟨.pop q {}, s', rfl, hs, ?_⟩
      cases did_of_step hs with
      | pops => exact hkeep hs rfl rfl (hset (by simp))
      | drains => exact hkeep hs rfl rfl (hset (by simp))
    cases hpc : s.eventQueueThreads q with
    | test =>
      have hs : (threads μ o).Step s (.test q)
          (s.setEventQueueThread q (if s.shuttingDown then .drain else .pop)) := by
        show stepThreads o s (.test q) = _
        simp only [stepThreads, hpc]
      exact ⟨.test q, _, trivial, hs, hkeep hs trivial rfl (hset (by split_ifs <;> simp))⟩
    | pop => exact hpop (Or.inl hpc)
    | drain => exact hpop (Or.inr hpc)
    | exited => exact absurd hpc (h.events q hlt)

/-- Nothing comes from within when nothing is left. -/
theorem Settled.step (h : Settled s.state) (hc : Closing o s) (hs : (threads μ o).Step s a s')
    (ha : Unaided s a) : Settled s'.state := by
  have hhandle : ∀ {q : ℕ} {script : Script μ} {st : State μ},
      ¬ (server μ o.config).Step s.state (.handle q script) st := by
    intro q script st hb
    obtain ⟨r, e, rest, c, hq, -⟩ := handleNext_of_step hb
    rw [h.1] at hq
    cases hq
  cases did_of_step hs with
  | advanced had =>
    rw [(advanced_frame had hc.2).1]
    exact h
  | pushes hpc =>
    obtain ⟨c, hcell, -, hd⟩ := held_of_reachable hc.1 _ _ _ _ _ hpc
    cases (h.2 c (List.mem_of_getElem? hcell) _).symm.trans hd
  | pops _ hb => exact absurd hb hhandle
  | drains _ hb => exact absurd hb hhandle
  | locks => cases ha
  | writes => cases ha
  | _ => exact h

end Clean

end AsyncGrpc.Server.Termination
