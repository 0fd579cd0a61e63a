import AsyncGrpc.Model.Threads
import AsyncGrpc.Single.Lifecycle

/-! # What the threads of the server do

`Taken` lists what a step of one of the threads does, and `reachable_state` says that the threads only
do what the running server can do: what is proved of the server holds of the server with its threads.
`exists_push` says that a completion queue thread is never kept from pushing a tag that it has
taken. -/

namespace AsyncGrpc.Server.Threads

open AsyncGrpc.Lib.Runs
open AsyncGrpc.Model.Types AsyncGrpc.Model.Rpc AsyncGrpc.Model.Service AsyncGrpc.Model.Server
open AsyncGrpc.Model.Threads
open AsyncGrpc.Single.Machine AsyncGrpc.Single.Moves AsyncGrpc.Single.Project
open AsyncGrpc.Single.Lifecycle

variable {μ : Type} {o : Options} {s s' : ThreadState μ} {a : ThreadAction μ}

/-! ### What the threads do -/

/-- How many event threads `Shutdown` has joined. -/
def joined (o : Options) : Model.Threads.Shutdown → ℕ
  | .joinEventQueue q => q
  | .returned => o.numEventThreads
  | _ => 0

/-- What a step of the threads does. -/
inductive Taken (o : Options) (s : ThreadState μ) : ThreadAction μ → ThreadState μ → Prop
  | begins {r : ℕ} : Taken o s (.callBegins r) (s.setCall r .underway)
  | ends {r : ℕ} : Taken o s (.callEnds r) (s.setCall r .over)
  | stops {service : ℕ} {st : State μ}
      (hs : (server μ o.config).Step s.state (.stopServing service) st) :
      Taken o s .shutdown ({ s with shutdown := .stopServing (service + 1) }.setState st)
  | advances {sd : Bool} {pc : Model.Threads.Shutdown} {cq : ℕ → Bool}
      (hj : ∀ q, q < joined o pc → q < joined o s.shutdown ∨ s.eventQueueThreads q = .exited) :
      Taken o s .shutdown { s with shuttingDown := sd, shutdown := pc, completionQueueShutdown := cq }
  | takes {i r : ℕ} {t : Tag} {ok : Bool} {m : μ} {c : Cell μ} {call : CallState}
      (hpc : s.completionQueueThreads i = .next) (hc : s.state.cells[r]? = some c)
      (hi : c.rpc.serverCompletionQueue = i) (hd : deliverable t c = true) :
      Taken o s (.next i r t ok m) ((s.setCompletionQueueThread i (.push r t ok m)).setCall r call)
  | pushes {i r : ℕ} {t : Tag} {ok : Bool} {m : μ} {st : State μ}
      (hpc : s.completionQueueThreads i = .push r t ok m)
      (hs : (server μ o.config).Step s.state (.deliver r t ok m) st) :
      Taken o s (.push i) ((s.setCompletionQueueThread i .next).setState st)
  | finishes {i : ℕ} (hpc : s.completionQueueThreads i = .next) :
      Taken o s (.nextFails i) (s.setCompletionQueueThread i .exited)
  | tests {q : ℕ} {pc : RunEventQueue} (hpc : s.eventQueueThreads q = .test) (hne : pc ≠ .exited) :
      Taken o s (.test q) (s.setEventQueueThread q pc)
  | pops {q : ℕ} {script : Script μ} {pc : RunEventQueue} {st : State μ}
      (hpc : s.eventQueueThreads q ≠ .exited) (hne : pc ≠ .exited)
      (hs : (server μ o.config).Step s.state (.handle q script) st) :
      Taken o s (.pop q script) ((s.setEventQueueThread q pc).setState st)
  | waits {q : ℕ} (hpc : s.eventQueueThreads q = .pop) :
      Taken o s (.timeout q) (s.setEventQueueThread q .test)
  | leaves {q : ℕ} (hq : s.state.eventQueues q = []) (hpc : s.eventQueueThreads q = .drain) :
      Taken o s (.timeout q) (s.setEventQueueThread q .exited)
  | locks {r : ℕ} {w : WriterMethod μ} {st : State μ}
      (hs : (server μ o.config).Step s.state (.lockWriter r w) st) :
      Taken o s (.lockWriter r w) (s.setState st)
  | writes {r i : ℕ} {st : State μ}
      (hs : (server μ o.config).Step s.state (.stepWriter r i) st) :
      Taken o s (.stepWriter r i) (s.setState st)

@[simp] theorem setState_state (st : State μ) (s : ThreadState μ) : (s.setState st).state = st := rfl

theorem serve_eq_ok {b : Action μ} (h : s.serve o b = some (.ok s')) :
    ∃ st, (server μ o.config).Step s.state b st ∧ s' = s.setState st := by
  obtain ⟨r, h1, h2⟩ := Option.map_eq_some_iff.mp h
  obtain ⟨st, rfl, rfl⟩ := map_eq_ok.mp h2
  exact ⟨st, h1, rfl⟩

theorem taken_shutdown (h : s.stepShutdown o = some (.ok s')) : Taken o s .shutdown s' := by
  unfold ThreadState.stepShutdown at h
  split at h
  · cases h
    exact .advances (fun q hq => absurd hq (Nat.not_lt_zero q))
  · split_ifs at h
    · obtain ⟨st, hs, rfl⟩ := serve_eq_ok h
      exact .stops hs
    · cases h
      exact .advances (fun q hq => absurd hq (Nat.not_lt_zero q))
  · split_ifs at h
    cases h
    exact .advances (fun q hq => absurd hq (Nat.not_lt_zero q))
  · split_ifs at h <;> cases h <;> exact .advances (fun q hq => absurd hq (Nat.not_lt_zero q))
  · split at h
    · cases h
      exact .advances (fun q hq => absurd hq (Nat.not_lt_zero q))
    · cases h
  · next q hpc =>
    split_ifs at h with hlt hex
    · cases h
      refine .advances (fun q' hq' => ?_)
      rw [hpc]
      rcases Nat.lt_succ_iff_lt_or_eq.mp hq' with h1 | rfl
      · exact Or.inl h1
      · exact Or.inr hex
    · cases h
      refine .advances (fun q' hq' => Or.inl ?_)
      rw [hpc]
      exact Nat.lt_of_lt_of_le hq' (Nat.not_lt.mp hlt)
  · cases h

/-- **A step of the threads does one of the things listed.** -/
theorem taken_of_step (h : (threads μ o).Step s a s') : Taken o s a s' := by
  replace h : stepThreads o s a = some (.ok s') := h
  cases a with
  | callBegins r =>
    unfold stepThreads at h
    dsimp only at h
    split at h
    · split_ifs at h
      cases h
      exact .begins
    · cases h
  | callEnds r =>
    unfold stepThreads at h
    dsimp only at h
    split_ifs at h
    cases h
    exact .ends
  | shutdown => exact taken_shutdown h
  | next i r t ok m =>
    unfold stepThreads at h
    dsimp only at h
    split at h
    · next hpc hc =>
      split_ifs at h with hif
      cases h
      exact .takes hpc hc hif.1 hif.2.1
    · cases h
  | push i =>
    unfold stepThreads at h
    dsimp only at h
    split at h
    · next hpc =>
      obtain ⟨st, hs, rfl⟩ := serve_eq_ok h
      exact .pushes hpc hs
    · cases h
  | nextFails i =>
    unfold stepThreads at h
    dsimp only at h
    split at h
    · next hpc =>
      split_ifs at h
      cases h
      exact .finishes hpc
    · cases h
  | test q =>
    unfold stepThreads at h
    dsimp only at h
    split at h
    · next hpc =>
      cases h
      exact .tests hpc (by split_ifs <;> simp)
    · cases h
  | pop q script =>
    unfold stepThreads at h
    dsimp only at h
    split at h
    · next hpc =>
      obtain ⟨st, hs, rfl⟩ := serve_eq_ok h
      exact .pops (by simp [hpc]) (by simp) hs
    · next hpc =>
      obtain ⟨st, hs, rfl⟩ := serve_eq_ok h
      exact .pops (by simp [hpc]) (by simp) hs
    · cases h
  | timeout q =>
    unfold stepThreads at h
    dsimp only at h
    split_ifs at h with hq
    split at h
    · next hpc =>
      cases h
      exact .waits hpc
    · next hpc =>
      cases h
      exact .leaves hq hpc
    · cases h
  | lockWriter r w =>
    obtain ⟨st, hs, rfl⟩ := serve_eq_ok h
    exact .locks hs
  | stepWriter r i =>
    obtain ⟨st, hs, rfl⟩ := serve_eq_ok h
    exact .writes hs

/-- **The threads only do what the running server can do.** -/
theorem reachable_state (h : Reachable (threads μ o) s) : Reachable (server μ o.config) s.state := by
  refine reachable_of_refines (M := server μ o.config) (fun s : ThreadState μ => s.state) rfl
    (fun s a s' hs => ?_) h
  cases taken_of_step hs with
  | begins => exact Or.inl rfl
  | ends => exact Or.inl rfl
  | stops hb => exact Or.inr ⟨_, hb⟩
  | advances => exact Or.inl rfl
  | takes => exact Or.inl rfl
  | pushes _ hb => exact Or.inr ⟨_, hb⟩
  | finishes => exact Or.inl rfl
  | tests => exact Or.inl rfl
  | pops _ _ hb => exact Or.inr ⟨_, hb⟩
  | waits => exact Or.inl rfl
  | leaves => exact Or.inl rfl
  | locks hb => exact Or.inr ⟨_, hb⟩
  | writes hb => exact Or.inr ⟨_, hb⟩

/-! ### How the event queues change -/

section Queues
variable {cfg : Config} {st st' : State μ} {q r i : ℕ}

theorem queues_deliver {t : Tag} {ok : Bool} {m : μ}
    (h : (server μ cfg).Step st (.deliver r t ok m) st') :
    ∃ c, st.cells[r]? = some c ∧ st'.eventQueues = Function.update st.eventQueues c.rpc.eventQueue
      (st.eventQueues c.rpc.eventQueue ++ [(r, .completion t)]) := by
  replace h : step cfg st (.deliver r t ok m) = some (.ok st') := h
  unfold step at h
  dsimp only at h
  split at h
  · next c hc =>
    split_ifs at h
    cases h
    exact ⟨c, hc, rfl⟩
  · cases h

theorem queues_lockWriter {w : WriterMethod μ} (h : (server μ cfg).Step st (.lockWriter r w) st') :
    st'.eventQueues = st.eventQueues := by
  replace h : step cfg st (.lockWriter r w) = some (.ok st') := h
  unfold step at h
  dsimp only at h
  split at h
  · split_ifs at h
    cases h
    simp [State.store]
  · cases h

theorem queues_stepWriter (h : (server μ cfg).Step st (.stepWriter r i) st') :
    ∃ c k, st.cells[r]? = some c ∧ c.calls[i]? = some k ∧ st'.eventQueues =
      if k.pc = .gotWeakPtr then Function.update st.eventQueues c.rpc.eventQueue
        (st.eventQueues c.rpc.eventQueue ++ [(r, .writeNeeded)]) else st.eventQueues := by
  replace h : step cfg st (.stepWriter r i) = some (.ok st') := h
  unfold step at h
  dsimp only at h
  split at h
  · next c hc =>
    split at h
    · next k hk =>
      split_ifs at h with hh
      refine ⟨c, k, hc, hk, ?_⟩
      obtain ⟨c', h1, rfl⟩ := map_eq_ok.mp (Option.some.inj h)
      unfold stepWriter at h1
      split at h1
      · next hp =>
        cases h1
        simp [State.store, setPc, enqueueMessage, log, hp]
      · next hp =>
        obtain ⟨u, -, h2⟩ := bind_eq_ok.mp h1
        cases h2
        simp [State.store, setPc, hp]
      · next hp =>
        cases h1
        simp [State.store, setPc, pushWriteNeeded, log, hp]
      · next hp =>
        split at h1
        · split_ifs at h1
          cases h1
          simp [State.store, setPc, hp]
        · cases h1
          simp [State.store, setPc, hp]
      · next hp =>
        cases h1
        simp [State.store, hp]
    · cases h
  · cases h

/-- Handling an event of the queue `q` touches no other queue. -/
theorem queues_handle {script : Script μ} (hR : Routed st)
    (h : (server μ cfg).Step st (.handle q script) st') {q' : ℕ} (hne : q' ≠ q) :
    st'.eventQueues q' = st.eventQueues q' := by
  obtain ⟨r, e, rest, c, hq, hc, hn⟩ := handleNext_of_step h
  obtain ⟨c', new, h1, h2⟩ := handleNext_eq_ok hn
  obtain ⟨c0, hc0, hq0⟩ := hR q (r, e) (by rw [hq]; simp)
  have hqueue : c'.rpc.eventQueue = q := by
    rw [eventQueue_of_fixed (handled_of_handle h1).fixed]
    rw [hc] at hc0
    cases hc0
    exact hq0
  have hstore : ({ st with eventQueues := Function.update st.eventQueues q rest }.store r
      c').eventQueues q' = st.eventQueues q' := by
    simp [State.store, hqueue, Function.update_of_ne hne]
  rcases h2 with ⟨-, rfl⟩ | ⟨-, rfl⟩ <;> exact hstore

end Queues

/-! ### Tags that a thread has taken -/

/-- A tag that a completion queue thread has taken can still be pushed by it, and by nobody else. -/
def Held (s : ThreadState μ) : Prop :=
  ∀ i r t ok m, s.completionQueueThreads i = .push r t ok m →
    ∃ c, s.state.cells[r]? = some c ∧ c.rpc.serverCompletionQueue = i ∧ deliverable t c = true

/-- Only the delivery of a tag makes it undeliverable. -/
theorem deliverable_moved {l l' : Conn μ} {b : Step μ} {t : Tag} (hl : Invariant l)
    (hm : Moved l b l') (hb : ∀ ok m, b ≠ .deliver t ok m) (hd : deliverable t l.cell = true) :
    deliverable t l'.cell = true := by
  obtain ⟨hpos, hdone⟩ := deliverable_iff.mp hd
  have hwriter : WriterMoved l l' → deliverable t l'.cell = true := by
    intro hw
    rw [deliverable_iff, hw.ops, hw.accepted]
    exact ⟨hpos, hdone⟩
  cases hm.kind with
  | @delivered t' ok m hd' =>
    have htt : t ≠ t' := by
      rintro rfl
      exact hb ok m rfl
    refine deliverable_iff.mpr ⟨by simpa [deliver, Function.update_of_ne htt] using hpos, fun ht => ?_⟩
    -- `NEW_CONNECTION` comes only once
    have hne : t' ≠ .newConnection := by
      rintro rfl
      obtain ⟨hp, hnin⟩ := hl.tally.of_deliverable hd'
      cases hl.phase with
      | listening _ _ hacc => cases hacc.symm.trans (hdone ht)
      | delivered _ _ _ _ _ hin => exact hnin (by rw [hin]; simp)
      | connected hc => cases hc.settled.symm.trans hp
      | refused _ _ _ hn => cases hn.symm.trans hp
    simpa [deliver, hne] using hdone ht
  | handled _ hh =>
    obtain ⟨hacc, hops⟩ := hh.grpc
    refine deliverable_iff.mpr ⟨Nat.lt_of_lt_of_le hpos (hops t), fun ht => ?_⟩
    exact hacc.trans (hdone ht)
  | locked hw => exact hwriter hw
  | stepped hw => exact hwriter hw

/-- A step of the server that does not deliver the tag keeps it deliverable. -/
theorem deliverable_step {st st' : State μ} {b : Action μ} {r i : ℕ} {t : Tag} {c : Cell μ}
    (hst : Reachable (server μ o.config) st) (hs : (server μ o.config).Step st b st')
    (hb : ∀ ok m, b ≠ .deliver r t ok m) (hc : st.cells[r]? = some c)
    (hi : c.rpc.serverCompletionQueue = i) (hd : deliverable t c = true) :
    ∃ c', st'.cells[r]? = some c' ∧ c'.rpc.serverCompletionQueue = i ∧ deliverable t c' = true := by
  have hl := conn_of_cell hc
  obtain ⟨l', hl', ⟨-, rfl⟩ | ⟨b', hb', hm⟩⟩ := moved_or_eq hst hs hl
  · exact ⟨c, (conn_eq_some.mp hl').1, hi, hd⟩
  refine ⟨l'.cell, (conn_eq_some.mp hl').1, ?_, ?_⟩
  · exact (congrArg (·.2.1) hm.fixed).trans hi
  · refine deliverable_moved (invariant_of_reachable hst hl) hm (fun ok m he => ?_) hd
    subst he
    cases b with
    | deliver r' t' ok' m' =>
      unfold actOf at hb'
      dsimp only at hb'
      split_ifs at hb' with hr
      cases hb'
      exact hb ok m (by rw [hr])
    | handle q script =>
      unfold actOf at hb'
      dsimp only at hb'
      split at hb'
      · split_ifs at hb'
        cases hb'
      · cases hb'
    | lockWriter r' w =>
      unfold actOf at hb'
      dsimp only at hb'
      split_ifs at hb'
      cases hb'
    | stepWriter r' i' =>
      unfold actOf at hb'
      dsimp only at hb'
      split_ifs at hb'
      cases hb'
    | stopServing service => cases hb'

theorem held_of_reachable (h : Reachable (threads μ o) s) : Held s := by
  refine (inv_of_reachable (I := fun s => Reachable (threads μ o) s ∧ Held s)
    ⟨Run.init.reachable, fun i r t ok m hpc => ?_⟩
    (fun s a s' hi hs => ⟨hi.1.step hs, fun i r t ok m hpc => ?_⟩) h).2
  · unfold threads at hpc
    dsimp only at hpc
    split_ifs at hpc
  · obtain ⟨hreach, hheld⟩ := hi
    have hst := reachable_state hreach
    have hstep : ∀ {b : Action μ} {st : State μ}, (server μ o.config).Step s.state b st →
        (∀ ok m, b ≠ .deliver r t ok m) → s.completionQueueThreads i = .push r t ok m →
          ∃ c, st.cells[r]? = some c ∧ c.rpc.serverCompletionQueue = i ∧ deliverable t c = true := by
      intro b st hb hne hpc
      obtain ⟨c, hc, hcq, hd⟩ := hheld i r t ok m hpc
      exact deliverable_step hst hb hne hc hcq hd
    cases taken_of_step hs with
    | begins => exact hheld i r t ok m hpc
    | ends => exact hheld i r t ok m hpc
    | stops hb => exact hstep hb (fun _ _ h => nomatch h) hpc
    | advances => exact hheld i r t ok m hpc
    | @takes i' r' t' ok' m' c _ hpc' hc hcq hd =>
      by_cases hii : i = i'
      · subst hii
        simp only [ThreadState.setCall, ThreadState.setCompletionQueueThread, Function.update_self] at hpc
        cases hpc
        exact ⟨c, hc, hcq, hd⟩
      · simp only [ThreadState.setCall, ThreadState.setCompletionQueueThread,
          Function.update_of_ne hii] at hpc
        exact hheld i r t ok m hpc
    | @pushes i' r' t' ok' m' st hpc' hb =>
      by_cases hii : i = i'
      · subst hii
        simp [ThreadState.setState, ThreadState.setCompletionQueueThread] at hpc
      · replace hpc : s.completionQueueThreads i = .push r t ok m := by
          simpa [ThreadState.setState, ThreadState.setCompletionQueueThread, Function.update_of_ne hii]
            using hpc
        refine hstep hb (fun ok m he => ?_) hpc
        -- the tags of one `Rpc` come through one completion queue
        cases he
        obtain ⟨c, hc, hcq, -⟩ := hheld i _ _ _ _ hpc
        obtain ⟨c', hc', hcq', -⟩ := hheld i' _ _ _ _ hpc'
        rw [hc] at hc'
        cases hc'
        exact hii (hcq.symm.trans hcq')
    | @finishes i' hpc' =>
      by_cases hii : i = i'
      · subst hii
        simp [ThreadState.setCompletionQueueThread] at hpc
      · simp only [ThreadState.setCompletionQueueThread, Function.update_of_ne hii] at hpc
        exact hheld i r t ok m hpc
    | tests => exact hheld i r t ok m hpc
    | pops _ _ hb => exact hstep hb (fun _ _ h => nomatch h) hpc
    | waits => exact hheld i r t ok m hpc
    | leaves => exact hheld i r t ok m hpc
    | locks hb => exact hstep hb (fun _ _ h => nomatch h) hpc
    | writes hb => exact hstep hb (fun _ _ h => nomatch h) hpc

/-- **A tag that was taken can be pushed.** -/
theorem exists_push (h : Reachable (threads μ o) s) {i r : ℕ} {t : Tag} {ok : Bool} {m : μ}
    (hpc : s.completionQueueThreads i = .push r t ok m) :
    ∃ s', (threads μ o).Step s (.push i) s' := by
  obtain ⟨c, hc, -, hd⟩ := held_of_reachable h i r t ok m hpc
  refine ⟨(s.setCompletionQueueThread i .next).setState
    (s.state.store r ⟨deliver t ok m c, [.completion t]⟩), ?_⟩
  show stepThreads o s (.push i) = _
  replace hc : (s.setCompletionQueueThread i .next).state.cells[r]? = some c := hc
  simp only [stepThreads, hpc, ThreadState.serve, step, hc, hd, if_true]
  rfl

end AsyncGrpc.Server.Threads
