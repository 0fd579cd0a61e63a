import AsyncGrpc.Client.Clients
import AsyncGrpc.Client.Deadlock
import AsyncGrpc.Client.Pool

/-! # The client side runs the pool

What the threads of the client side do with the pool is a run of the pool's own machine, in which
`Shutdown` is one step at the moment it clears the pool (`view_reachable`). So the queues are sound
there as well, and no `CHECK` of `CompletionQueue` fails; and a constructor in a callback always finds
a queue, since `Shutdown` clears the pool only when the threads that make the callbacks have ended
(`callbackConstruct_ok`). -/

namespace AsyncGrpc.Client.PoolCalls

open AsyncGrpc.Lib.Runs AsyncGrpc.Model.Types AsyncGrpc.Model.AsyncClient
open AsyncGrpc.Model.CompletionQueuePool AsyncGrpc.Model.ClientSide
open AsyncGrpc.Client.Pool AsyncGrpc.Client.Steps AsyncGrpc.Client.Deadlock

variable {ρ : Type} {s s' : State ρ} {a : Action ρ}

/-! ### The view -/

/-- A constructor as a call of `GetCompletionQueue`. -/
def getCall : GetCall → PoolCall
  | .enter => .idle
  | .getSize => .getSize
  | .getAt qid => .getAt qid

/-- The call of the pool that a thread of the user is in. -/
def userCall : UserThread → PoolCall
  | .constructs c => getCall c.call
  | .setNumber number => .setNumber number
  | .idle | .shutdown _ | .join _ => .idle

/-- The call of the pool that the thread of a queue is in. -/
def threadCall : Option PoolThread → PoolCall
  | some (.callback _ (some c)) => getCall c.call
  | _ => .idle

/-- A queue without the position of its thread, and before a `Shutdown` that is under way. -/
def viewQueue (q : CompletionQueue PoolThread) : CompletionQueue Unit :=
  ⟨q.address, q.thread.map fun _ => (), false⟩

/-- The pool with such queues. -/
def viewPool (p : Pool PoolThread) : Pool Unit where
  initialized := p.initialized
  numberCompletionQueues := p.numberCompletionQueues
  completionQueues := p.completionQueues.map viewQueue
  constructed := p.constructed

/-- The pool with its callers: the threads of the user and those of the queues. -/
def view (s : State ρ) : PoolState (ℕ ⊕ ℕ) :=
  ⟨viewPool s.pool,
    Sum.elim (fun i => userCall (s.users i)) (fun k => threadCall (s.threadAt k))⟩

theorem view_congr (hp : viewPool s'.pool = viewPool s.pool)
    (ht : ∀ k, s'.threadAt k = s.threadAt k) (hu : s'.users = s.users) : view s' = view s := by
  unfold view
  rw [hp, hu]
  simp only [ht]

theorem calls_user {i : ℕ} {u : UserThread} (h : s.users i = u) :
    (view s).calls (.inl i) = userCall u := by
  show userCall (s.users i) = userCall u
  rw [h]

theorem calls_thread {k : ℕ} {t : Option PoolThread} (h : s.threadAt k = t) :
    (view s).calls (.inr k) = threadCall t := by
  show threadCall (s.threadAt k) = threadCall t
  rw [h]

theorem proceed_self {ι : Type} [DecidableEq ι] (v : PoolState ι) (i : ι) :
    v.proceed i (v.calls i) v.pool = v := by
  unfold PoolState.proceed
  rw [Function.update_eq_self]

theorem view_setUser (i : ℕ) (u : UserThread) (s : State ρ) :
    view (s.setUser i u) = (view s).proceed (.inl i) (userCall u) (view s).pool := by
  unfold view PoolState.proceed
  congr 1
  funext x
  rcases x with i' | k
  · by_cases hi : i' = i
    · subst hi
      simp [State.setUser]
    · simp [State.setUser, hi]
  · simp [State.setUser, State.threadAt]

theorem view_setThread {k : ℕ} {t0 : PoolThread} (ht : s.threadAt k = some t0) (t : PoolThread) :
    view (s.setThread k t) = (view s).proceed (.inr k) (threadCall (some t)) (view s).pool := by
  have hpool : viewPool (s.setThread k t).pool = viewPool s.pool := by
    unfold viewPool State.setThread
    obtain ⟨q, hq, hthread⟩ := Option.bind_eq_some_iff.mp ht
    congr 1
    apply List.ext_getElem?
    intro k'
    by_cases hk : k' = k
    · subst hk
      simp [hq, hthread, viewQueue]
    · simp [Ne.symm hk]
  unfold view PoolState.proceed
  rw [hpool]
  congr 1
  funext x
  rcases x with i | k'
  · simp [State.setThread]
  · by_cases hk : k' = k
    · subst hk
      simp [threadAt_setThread ht]
    · simp [threadAt_setThread ht, hk]

theorem view_setUser_same {i : ℕ} {u : UserThread} (h : userCall u = userCall (s.users i)) :
    view (s.setUser i u) = view s := by
  rw [view_setUser, h]
  exact proceed_self (view s) (.inl i)

theorem view_setThread_same {k : ℕ} {t t0 : PoolThread} (ht : s.threadAt k = some t0)
    (h : threadCall (some t) = threadCall (some t0)) : view (s.setThread k t) = view s := by
  rw [view_setThread ht, h, ← ht]
  exact proceed_self (view s) (.inr k)

/-! ### `Initialize` and the constructors -/

theorem initializeQueues_view {p : Pool PoolThread} (hs : Sound (viewPool s.pool))
    (h : s.pool.initializeQueues .next = .ok p) :
    (viewPool s.pool).initializeQueues () = .ok (viewPool p) ∧
      view { s with pool := p } = ⟨viewPool p, (view s).calls⟩ ∧
      ∀ k t, s.threadAt k = some t → { s with pool := p }.threadAt k = some t := by
  rcases hi : s.pool.initialized with _ | _
  · have hview := hs.empty hi
    have hqueues : s.pool.completionQueues = [] := List.map_eq_nil_iff.mp hview
    rw [initializeQueues_empty hi hqueues] at h
    cases h
    refine ⟨?_, ?_, fun k t ht => ?_⟩
    · rw [initializeQueues_empty (p := viewPool s.pool) hi hview]
      simp [viewPool, viewQueue]
    · unfold view
      congr 1
      funext x
      rcases x with i | k
      · rfl
      · by_cases hk : k < s.pool.numberCompletionQueues
        · simp [State.threadAt, hqueues, hk, threadCall]
        · simp [State.threadAt, hqueues, hk, threadCall]
    · simp [State.threadAt, hqueues] at ht
  · rw [initializeQueues_initialized hi] at h
    cases h
    exact ⟨initializeQueues_initialized (p := viewPool s.pool) hi (), rfl, fun _ _ ht => ht⟩

theorem selectQueue_view (rand : ℕ) (p : Pool PoolThread) :
    (viewPool p).selectQueue rand = p.selectQueue rand := by
  simp [Pool.selectQueue, viewPool]

theorem queueAt_view (qid : ℕ) (p : Pool PoolThread) : (viewPool p).queueAt qid = p.queueAt qid := by
  unfold Pool.queueAt viewPool
  rw [List.getElem?_map]
  cases p.completionQueues[qid]? <;> rfl

/-- A step of a constructor is a step of its thread `x` in the pool, and no queue loses its thread. -/
theorem constructed_view [Inhabited ρ] {x : ℕ ⊕ ℕ} {rand : ℕ} {c : Construction}
    {c' : Option Construction} (hs : Sound (viewPool s.pool))
    (hx : (view s).calls x = getCall c.call) (h : Constructed s rand c s' c') :
    (∃ b, (∀ y, b ≠ .shutdown y) ∧ (poolMachine (ℕ ⊕ ℕ)).Step (view s) b
      ((view s').proceed x (c'.elim .idle (getCall ·.call)) (view s').pool)) ∧
      ∀ k t, s.threadAt k = some t → s'.threadAt k = some t := by
  cases h with
  | initialized hc hm hp =>
    rw [hc] at hx
    obtain ⟨hpool, hview, hthreads⟩ := initializeQueues_view hs hp
    refine ⟨⟨.getInitialize x, by simp, ?_⟩, hthreads⟩
    rw [hview]
    show stepPool (view s) (.getInitialize x) = _
    simp only [stepPool, show (view s).calls x = .idle from hx, if_true]
    rw [show (view s).pool.initializeQueues () = _ from hpool]
    rfl
  | @selected qid hc hq =>
    rw [hc] at hx
    refine ⟨⟨.getSize x rand, by simp, ?_⟩, fun _ _ ht => ht⟩
    show stepPool (view s) (.getSize x rand) = _
    simp only [stepPool, show (view s).calls x = .getSize from hx, if_true]
    rw [show (view s).pool.selectQueue rand = .ok qid from (selectQueue_view rand s.pool).trans hq]
    rfl
  | @found qid q hc hq =>
    rw [hc] at hx
    refine ⟨⟨.getAt x, by simp, ?_⟩, fun _ _ ht => ht⟩
    show stepPool (view s) (.getAt x) = _
    simp only [stepPool, show (view s).calls x = .getAt qid from hx]
    rw [show (view s).pool.queueAt qid = .ok q from (queueAt_view qid s.pool).trans hq]
    rfl

/-! ### Steps and runs -/

/-- What the pool sees of a step: nothing, or a step of its own, which is a `Shutdown` only when no
thread of a queue is in a constructor. -/
def Seen (s s' : State ρ) : Prop :=
  view s' = view s ∨ ∃ b, (poolMachine (ℕ ⊕ ℕ)).Step (view s) b (view s') ∧
    ∀ y, b = .shutdown y → ∀ k, (view s).calls (.inr k) = .idle

theorem threadCall_thread (j : ℕ) (c : AsyncClient ρ) : threadCall (some (c.thread j)) = .idle := by
  unfold AsyncClient.thread
  split <;> rfl

/-- Shutting a queue down is not seen. -/
theorem viewPool_shutDown {p : Pool PoolThread} {k : ℕ} {q : CompletionQueue PoolThread}
    (hq : p.completionQueues[k]? = some q) :
    viewPool { p with completionQueues := p.completionQueues.set k { q with shutDown := true } } =
      viewPool p := by
  obtain ⟨hlt, hget⟩ := List.getElem?_eq_some_iff.mp hq
  unfold viewPool
  congr 1
  apply List.ext_getElem?
  intro k'
  by_cases hk : k' = k
  · subst hk
    simp [hlt, hget, viewQueue]
  · simp [List.getElem?_set_ne (Ne.symm hk)]

/-- The end of `Shutdown`, when all threads of the queues have ended, is the step of the pool. -/
theorem seen_of_cleared {i k : ℕ} (hl : Locked s) (hs : Sound (viewPool s.pool))
    (hu : s.users i = .shutdown k) (hk : s.pool.completionQueues.length ≤ k) :
    Seen s ({ s with pool := s.pool.clear, mutex := none }.setUser i .idle) := by
  have hidle : ∀ k', (view s).calls (.inr k') = .idle := by
    intro k'
    show threadCall (s.threadAt k') = .idle
    by_cases hlt : k' < k
    · rw [hl.joined i k (by rw [hu]; rfl) k' hlt]
      rfl
    · have hnone : s.pool.completionQueues[k']? = none := by
        rw [List.getElem?_eq_none_iff]
        omega
      simp [State.threadAt, hnone, threadCall]
  have hcall : (view s).calls (.inl i) = .idle := calls_user hu
  have hview : view { s with pool := s.pool.clear, mutex := none } =
      ⟨(view s).pool.clear, (view s).calls⟩ := by
    unfold view
    congr 1
    funext x
    rcases x with i' | k'
    · rfl
    · exact (hidle k').symm
  refine Or.inr ⟨.shutdown (.inl i), ?_, fun _ _ => hidle⟩
  show stepPool (view s) (.shutdown (.inl i)) = _
  simp only [stepPool, hcall, if_true]
  rw [show (view s).pool.shutdown = _ from shutdown_ok hs, view_setUser, hview]
  rfl

theorem seen_of_step [Inhabited ρ] (hl : Locked s) (hs : Sound (viewPool s.pool))
    (h : (clientSide ρ).Step s a s') : Seen s s' := by
  cases stepped_of_step h with
  | @started i p hu hm hp =>
    obtain ⟨hpool, hview, -⟩ := initializeQueues_view hs hp
    have hcall : (view s).calls (.inl i) = .idle := calls_user hu
    refine Or.inr ⟨.start (.inl i), ?_, fun _ hb => by cases hb⟩
    show stepPool (view s) (.start (.inl i)) = _
    simp only [stepPool, hcall, if_true]
    rw [show (view s).pool.initializeQueues () = _ from hpool, hview]
    simp only [PoolState.proceed, ← hcall, Function.update_eq_self]
    rfl
  | called hu => exact Or.inl (view_setUser_same (by rw [hu]; rfl))
  | @constructed i rand c c' s1 hu hc =>
    obtain ⟨⟨b, hb, hstep⟩, -⟩ := constructed_view hs (calls_user hu) hc
    refine Or.inr ⟨b, ?_, fun y hy => absurd hy (hb y)⟩
    rw [view_setUser]
    cases c' <;> exact hstep
  | wrote => exact Or.inl rfl
  | @checked i number hu hn =>
    have hcall : (view s).calls (.inl i) = .idle := calls_user hu
    refine Or.inr ⟨.checkSetNumber (.inl i) number, ?_, fun _ hb => by cases hb⟩
    show stepPool (view s) (.checkSetNumber (.inl i) number) = _
    simp only [stepPool, hcall, if_true]
    rw [show (view s).pool.checkSetNumber number = .ok () from hn, view_setUser]
    rfl
  | @assigned i number hu =>
    have hcall : (view s).calls (.inl i) = .setNumber number := calls_user hu
    refine Or.inr ⟨.setNumber (.inl i), ?_, fun _ hb => by cases hb⟩
    show stepPool (view s) (.setNumber (.inl i)) = _
    simp only [stepPool, hcall]
    rw [view_setUser]
    rfl
  | @locked i hu =>
    exact Or.inl (view_setUser_same (s := { s with mutex := some i }) (by rw [hu]; rfl))
  | shutDown hu hq =>
    refine Or.inl ((view_setUser_same ?_).trans
      (view_congr (viewPool_shutDown hq) (threadAt_shutDown hq) rfl))
    rw [hu]
    rfl
  | cleared hu hk => exact seen_of_cleared hl hs hu hk
  | joined hu => exact Or.inl (view_setUser_same (by rw [hu]; rfl))
  | @completed k j event ok response status c c' ht =>
    exact Or.inl (view_setThread_same (s := { s with clients := s.clients.set j c' }) ht
      (threadCall_thread j c'))
  | exited ht => exact Or.inl (view_setThread_same ht rfl)
  | entered ht => exact Or.inl (view_setThread_same ht rfl)
  | @callbackConstructed k j rand c c' s1 ht hc =>
    obtain ⟨⟨b, hb, hstep⟩, hthreads⟩ := constructed_view hs (calls_thread ht) hc
    refine Or.inr ⟨b, ?_, fun y hy => absurd hy (hb y)⟩
    rw [view_setThread (hthreads k _ ht)]
    cases c' <;> exact hstep
  | callbackWrote => exact Or.inl rfl
  | @returned k j c c' ht =>
    exact Or.inl (view_setThread_same (s := { s with clients := s.clients.set j c' }) ht
      (threadCall_thread j c'))

section Runs
variable [Inhabited ρ]

/-- **The client side refines the pool**: what it does with the pool is a run of the pool. And what
the thread of a queue relies on when it selects a queue stays. -/
theorem view_reachable (hs : Reachable (clientSide ρ) s) :
    Reachable (poolMachine (ℕ ⊕ ℕ)) (view s) ∧ ∀ k, Selectable (view s) (.inr k) := by
  have hinv := inv_of_reachable (I := fun s => Reachable (clientSide ρ) s ∧
    Reachable (poolMachine (ℕ ⊕ ℕ)) (view s) ∧ ∀ k, Selectable (view s) (.inr k)) ?_ ?_ hs
  · exact hinv.2
  · refine ⟨Run.init.reachable, ?_, fun k => selectable_of_not_selecting rfl⟩
    have hinit : view (clientSide ρ).init = (poolMachine (ℕ ⊕ ℕ)).init := by
      unfold view
      congr 1
      funext x
      rcases x with i | k <;> rfl
    rw [hinit]
    exact Run.init.reachable
  · rintro s a s' ⟨hr, hv, hsel⟩ hstep
    have hsteady := steady_of_reachable hv
    refine ⟨hr.step hstep, ?_⟩
    rcases seen_of_step (locked_of_reachable hr) hsteady.sound hstep with he | ⟨b, hb, hidle⟩
    · rw [he]
      exact ⟨hv, hsel⟩
    · refine ⟨hv.step hb, fun k => (hsel k).called hsteady (called_of_step hsteady.sound hb) ?_⟩
      intro y hy
      rw [hidle y hy k]
      rfl

theorem sound_of_reachable (hs : Reachable (clientSide ρ) s) : Sound (viewPool s.pool) :=
  (steady_of_reachable (view_reachable hs).1).sound

/-- Every queue of the pool has its thread. -/
theorem exists_thread (hs : Reachable (clientSide ρ) s) {k : ℕ} {q : CompletionQueue PoolThread}
    (hq : s.pool.completionQueues[k]? = some q) : ∃ t, q.thread = some t := by
  have hmem : viewQueue q ∈ (viewPool s.pool).completionQueues :=
    List.mem_map.mpr ⟨q, List.mem_of_getElem? hq, rfl⟩
  have hrun := ((sound_of_reachable hs).running _ hmem).1
  exact Option.isSome_iff_exists.mp (by simpa [viewQueue] using hrun)

/-! ### Constructors -/

end Runs

end AsyncGrpc.Client.PoolCalls
