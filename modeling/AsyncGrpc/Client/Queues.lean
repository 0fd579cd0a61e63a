import AsyncGrpc.Client.PoolCalls

/-! # The clients and the threads of their queues

Every client keeps the address of the completion queue that it got when it was constructed, and only the
thread of that queue takes its events. `Turned` says what a step does to the clients and the queues
together, and `Housed` is what always holds of the two: the addresses of the queues are never used again,
and a client is in a callback exactly when the thread of its own queue makes that callback
(`housed_of_reachable`). -/

namespace AsyncGrpc.Client.Queues

open AsyncGrpc.Lib.Runs AsyncGrpc.Model.Types AsyncGrpc.Model.AsyncClient
open AsyncGrpc.Model.CompletionQueuePool AsyncGrpc.Model.ClientSide
open AsyncGrpc.Client.Pool AsyncGrpc.Client.Steps AsyncGrpc.Client.Clients AsyncGrpc.Client.Deadlock
open AsyncGrpc.Client.PoolCalls

variable {ρ : Type} {s s' : State ρ} {a : Action ρ}

/-- Where the thread of a queue stands, whatever it constructs in a callback. -/
inductive Spot
  | next
  | callback (j : ℕ)
  | exited
  deriving DecidableEq, Repr

/-- The spot of a thread. -/
def spotOf : PoolThread → Spot
  | .next => .next
  | .callback j _ => .callback j
  | .exited => .exited

/-- The spot of the thread of the queue `k`. -/
def spotAt (s : State ρ) (k : ℕ) : Option Spot := (s.threadAt k).map spotOf

/-- The addresses of the queues in the pool. -/
def addresses (s : State ρ) : List ℕ := s.pool.completionQueues.map (·.address)

theorem spotAt_of_threadAt {k : ℕ} {t : PoolThread} (h : s.threadAt k = some t) :
    spotAt s k = some (spotOf t) := by
  rw [spotAt, h]
  rfl

theorem lt_of_spotAt {k : ℕ} {t : Spot} (h : spotAt s k = some t) : k < (addresses s).length := by
  obtain ⟨t', ht, -⟩ := Option.map_eq_some_iff.mp h
  simpa [addresses] using lt_of_threadAt ht

/-! ### Frames -/

/-- The queues are the same and their threads are at the same spots. -/
structure SameQueues (s s' : State ρ) : Prop where
  addresses : addresses s' = addresses s
  constructed : s'.pool.constructed = s.pool.constructed
  spots : ∀ k, spotAt s' k = spotAt s k

/-- The queues are the same and one thread has gone to the spot `t`. -/
structure Went (s s' : State ρ) (k : ℕ) (t : Spot) : Prop where
  addresses : addresses s' = addresses s
  constructed : s'.pool.constructed = s.pool.constructed
  spots : ∀ k', spotAt s' k' = if k' = k then some t else spotAt s k'

theorem sameQueues_of_pool (h : s'.pool.completionQueues = s.pool.completionQueues)
    (hn : s'.pool.constructed = s.pool.constructed) : SameQueues s s' :=
  ⟨by rw [Queues.addresses, Queues.addresses, h], hn, fun k => by
    simp only [spotAt, State.threadAt, h]⟩

theorem went_setThread {clients : List (AsyncClient ρ)} {k : ℕ} {t0 t : PoolThread}
    (ht : s.threadAt k = some t0) :
    Went s ({ s with clients := clients }.setThread k t) k (spotOf t) where
  addresses := by
    apply List.ext_getElem?
    intro k'
    by_cases hk : k' = k
    · subst hk
      simp [addresses, State.setThread, Function.comp_def]
    · simp [addresses, State.setThread, Ne.symm hk]
  constructed := rfl
  spots := fun k' => by
    rw [spotAt, threadAt_setThread (s := { s with clients := clients }) ht]
    split_ifs <;> rfl

/-- A thread moves on at its spot. -/
theorem sameQueues_setThread {clients : List (AsyncClient ρ)} {k : ℕ} {t0 t : PoolThread}
    (ht : s.threadAt k = some t0) (hspot : spotOf t = spotOf t0) :
    SameQueues s ({ s with clients := clients }.setThread k t) := by
  have hwent : Went s ({ s with clients := clients }.setThread k t) k (spotOf t) := went_setThread ht
  refine ⟨hwent.addresses, hwent.constructed, fun k' => ?_⟩
  rw [hwent.spots]
  split_ifs with hk
  · rw [hk, spotAt_of_threadAt ht, hspot]
  · rfl

theorem sameQueues_shutDown {i k : ℕ} {u : UserThread} {q : CompletionQueue PoolThread}
    (hq : s.pool.completionQueues[k]? = some q) :
    SameQueues s ({ s with pool := { s.pool with
      completionQueues := s.pool.completionQueues.set k { q with shutDown := true } } }.setUser i u) where
  addresses := by
    obtain ⟨hlt, hget⟩ := List.getElem?_eq_some_iff.mp hq
    apply List.ext_getElem?
    intro k'
    by_cases hk : k' = k
    · subst hk
      simp [addresses, State.setUser, hlt, hget]
    · simp [addresses, State.setUser, List.getElem?_set_ne (Ne.symm hk)]
  constructed := rfl
  spots := fun k' => congrArg (Option.map spotOf) (threadAt_shutDown hq k')

/-! ### Steps -/

section Steps
variable [Inhabited ρ]

/-- What a step does to the queues and the clients: nothing; the pool is initialised; a client is added,
written to or moved by the thread of a queue; a thread that finds its queue drained ends; the pool is
cleared after all threads have ended. -/
inductive Turned (s s' : State ρ) : Prop
  | kept (hq : SameQueues s s') (hc : s'.clients = s.clients)
  | began {n : ℕ} (h0 : addresses s = [])
      (hn : addresses s' = (List.range n).map (s.pool.constructed + ·))
      (hn' : s'.pool.constructed = s.pool.constructed + n)
      (ht : ∀ k < n, spotAt s' k = some .next) (hc : s'.clients = s.clients)
  | added {c : AsyncClient ρ} {k : ℕ} (hq : SameQueues s s') (hf : Fresh c)
      (hk : (addresses s)[k]? = some c.completionQueue) (hc : s'.clients = s.clients ++ [c])
  | wrote {j : ℕ} {c : AsyncClient ρ} (hq : SameQueues s s')
      (hc : s'.clients = s.clients.modify j AsyncClient.writeAsync) (hcj : s.clients[j]? = some c)
      (hbegin : s.beginOperation c.completionQueue = .ok ())
  | ran {k j : ℕ} {c c' : AsyncClient ρ} {b : ClientAction ρ}
      (hk : spotAt s k = some .next ∧ (addresses s)[k]? = some c.completionQueue ∨
        spotAt s k = some (.callback j))
      (hc : s.clients[j]? = some c) (hb : c.proceed b = some (.ok c')) (ha : Accepted s b c c')
      (hq : Went s s' k (spotOf (c'.thread j))) (hc' : s'.clients = s.clients.set j c')
  | exited {k address : ℕ} (hk : spotAt s k = some .next) (hq : (addresses s)[k]? = some address)
      (hd : s.drained address = true) (hq' : Went s s' k .exited) (hc : s'.clients = s.clients)
  | cleared (ht : ∀ k t, spotAt s k = some t → t = .exited) (hq : addresses s' = [])
      (hn : s'.pool.constructed = s.pool.constructed) (hc : s'.clients = s.clients)

/-- `Initialize` leaves the queues as they are, or starts new ones. -/
theorem turned_of_initialized {p : Pool PoolThread} (hs : Sound (viewPool s.pool))
    (hp : s.pool.initializeQueues .next = .ok p) (hp' : s'.pool = p) (hc : s'.clients = s.clients) :
    Turned s s' := by
  rcases hi : s.pool.initialized with _ | _
  · have hqueues : s.pool.completionQueues = [] := List.map_eq_nil_iff.mp (hs.empty hi)
    rw [initializeQueues_empty hi hqueues] at hp
    cases hp
    refine .began (n := s.pool.numberCompletionQueues) (by simp [addresses, hqueues])
      ?_ (by rw [hp']) (fun k hk => ?_) hc
    · rw [addresses, hp', List.map_map]
      rfl
    · simp [spotAt, State.threadAt, hp', hk, spotOf]
  · rw [initializeQueues_initialized hi] at hp
    cases hp
    exact .kept (sameQueues_of_pool (by rw [hp']) (by rw [hp'])) hc

omit [Inhabited ρ] in
theorem getElem?_of_queueAt {qid address : ℕ} (h : s.pool.queueAt qid = .ok address) :
    (addresses s)[qid]? = some address := by
  unfold Pool.queueAt at h
  split at h
  · next q hq =>
    cases h
    simp [addresses, hq]
  · cases h

omit [Inhabited ρ] in
/-- `Shutdown` clears the pool when it has joined all threads. -/
theorem exited_of_joined {i k : ℕ} (hl : Locked s) (hu : s.users i = .shutdown k)
    (hk : s.pool.completionQueues.length ≤ k) {k' : ℕ} {t : Spot} (ht : spotAt s k' = some t) :
    t = .exited := by
  have hlt := lt_of_spotAt ht
  rw [addresses, List.length_map] at hlt
  have hexited := hl.joined i k (by rw [hu]; rfl) k' (Nat.lt_of_lt_of_le hlt hk)
  rw [spotAt_of_threadAt hexited] at ht
  exact (Option.some.inj ht).symm

/-- **What a step does.** -/
theorem turned_of_step (hs : Reachable (clientSide ρ) s) (h : (clientSide ρ).Step s a s') :
    Turned s s' := by
  have hsound := sound_of_reachable hs
  cases stepped_of_step h with
  | started hu hm hp => exact turned_of_initialized hsound hp rfl rfl
  | constructed hu hc =>
    cases hc with
    | initialized _ _ hp => exact turned_of_initialized hsound hp rfl rfl
    | selected => exact .kept (sameQueues_of_pool rfl rfl) rfl
    | found _ hq =>
      exact .added (sameQueues_of_pool rfl rfl) ⟨_, rfl⟩ (getElem?_of_queueAt hq) rfl
  | wrote _ hc hbegin => exact .wrote (sameQueues_of_pool rfl rfl) rfl hc hbegin
  | shutDown hu hq => exact .kept (sameQueues_shutDown hq) rfl
  | cleared hu hk =>
    exact .cleared (fun k' t ht => exited_of_joined (locked_of_reachable hs) hu hk ht) rfl rfl rfl
  | completed ht hc hb ha hq hcq =>
    exact .ran (.inl ⟨spotAt_of_threadAt ht, by simp [addresses, hq, hcq]⟩) hc hb ha (went_setThread ht)
      rfl
  | exited ht hq _ hd =>
    exact .exited (spotAt_of_threadAt ht) (by simp [addresses, hq]) hd (went_setThread ht) rfl
  | entered ht => exact .kept (sameQueues_setThread ht rfl) rfl
  | callbackConstructed ht hc =>
    cases hc with
    | initialized _ _ hp =>
      have hinit : s.pool.initialized = true := by
        by_contra hi
        have hqueues := List.map_eq_nil_iff.mp (hsound.empty (Bool.eq_false_iff.mpr hi))
        have hlt := lt_of_threadAt ht
        rw [hqueues] at hlt
        cases hlt
      rw [initializeQueues_initialized hinit] at hp
      cases hp
      exact .kept (sameQueues_setThread ht rfl) rfl
    | selected => exact .kept (sameQueues_setThread ht rfl) rfl
    | found _ hq =>
      exact .added (sameQueues_setThread ht rfl) ⟨_, rfl⟩ (getElem?_of_queueAt hq) rfl
  | callbackWrote _ hc hbegin => exact .wrote (sameQueues_of_pool rfl rfl) rfl hc hbegin
  | returned ht hc hb ha => exact .ran (.inr (spotAt_of_threadAt ht)) hc hb ha (went_setThread ht) rfl
  | _ => exact .kept (sameQueues_of_pool rfl rfl) rfl

end Steps

/-! ### One client -/

section OneClient
variable {c c' : AsyncClient ρ}

theorem spotOf_thread (j : ℕ) (c : AsyncClient ρ) :
    spotOf (c.thread j) = if c.client.position = .idle then .next else .callback j := by
  unfold AsyncClient.thread
  cases hp : c.client.position <;> simp [spotOf]

/-- A thread that has moved a client has not ended. -/
theorem spotOf_thread_ne (j : ℕ) (c : AsyncClient ρ) : spotOf (c.thread j) ≠ .exited := by
  rw [spotOf_thread]
  split_ifs <;> simp

theorem completionQueue_proceed {b : ClientAction ρ} (h : c.proceed b = some (.ok c')) :
    c'.completionQueue = c.completionQueue := by
  unfold AsyncClient.proceed at h
  obtain ⟨r, -, h⟩ := Option.map_eq_some_iff.mp h
  obtain ⟨d, -, rfl⟩ := map_eq_ok.mp h
  rfl

theorem completionQueue_writeAsync (c : AsyncClient ρ) :
    c.writeAsync.completionQueue = c.completionQueue := by
  unfold AsyncClient.writeAsync
  split <;> rfl

theorem position_writeAsync (c : AsyncClient ρ) :
    c.writeAsync.client.position = c.client.position := by
  unfold AsyncClient.writeAsync
  split <;> rfl

theorem position_of_fresh [Inhabited ρ] (h : Fresh c) : c.client.position = .idle := by
  obtain ⟨callback, h⟩ := h
  rw [h]
  rfl

end OneClient

/-! ### Every client is where the thread of its queue is -/

/-- The queues in the pool have the last addresses that were given out, in their order; a client has the
address of a queue that was constructed; a client is in a callback when the thread of its queue is in
that callback, and only then. -/
structure Housed (s : State ρ) : Prop where
  given : ∀ k address : ℕ, (addresses s)[k]? = some address →
    address + (addresses s).length = s.pool.constructed + k
  clients : ∀ (j : ℕ) (c : AsyncClient ρ), s.clients[j]? = some c → c.completionQueue < s.pool.constructed
  inside : ∀ (j : ℕ) (c : AsyncClient ρ), s.clients[j]? = some c → c.client.position ≠ .idle →
    ∃ k, (addresses s)[k]? = some c.completionQueue ∧ spotAt s k = some (.callback j)
  callbacks : ∀ k j, spotAt s k = some (.callback j) → ∃ c : AsyncClient ρ, s.clients[j]? = some c ∧
    (addresses s)[k]? = some c.completionQueue ∧ c.client.position ≠ .idle

theorem Housed.unique (h : Housed s) {k k' address : ℕ} (hk : (addresses s)[k]? = some address)
    (hk' : (addresses s)[k']? = some address) : k = k' := by
  have h1 := h.given k address hk
  have h2 := h.given k' address hk'
  omega

theorem Housed.lt (h : Housed s) {k address : ℕ} (hk : (addresses s)[k]? = some address) :
    address < s.pool.constructed := by
  have h1 := h.given k address hk
  have h2 := (List.getElem?_eq_some_iff.mp hk).1
  omega

/-- While the thread of its queue is in `Next`, a client is in no callback. -/
theorem Housed.idle (h : Housed s) {k j : ℕ} {c : AsyncClient ρ} (hc : s.clients[j]? = some c)
    (hk : (addresses s)[k]? = some c.completionQueue) (hnext : spotAt s k = some .next) :
    c.client.position = .idle := by
  by_contra hp
  obtain ⟨k', hk', hspot⟩ := h.inside j c hc hp
  rw [h.unique hk' hk] at hspot
  cases hspot.symm.trans hnext

/-- The clients change, but not where they are. -/
theorem Housed.same (h : Housed s) (hq : SameQueues s s')
    (hlt : ∀ (j : ℕ) (c : AsyncClient ρ), s'.clients[j]? = some c → c.completionQueue < s.pool.constructed)
    (hold : ∀ (j : ℕ) (c : AsyncClient ρ), s'.clients[j]? = some c → c.client.position ≠ .idle →
      ∃ c0 : AsyncClient ρ, s.clients[j]? = some c0 ∧ c0.client.position ≠ .idle ∧
        c0.completionQueue = c.completionQueue)
    (hnew : ∀ (j : ℕ) (c : AsyncClient ρ), s.clients[j]? = some c →
      ∃ c' : AsyncClient ρ, s'.clients[j]? = some c' ∧ c'.client.position = c.client.position ∧
        c'.completionQueue = c.completionQueue) :
    Housed s' where
  given := by
    rw [hq.addresses, hq.constructed]
    exact h.given
  clients := by
    rw [hq.constructed]
    exact hlt
  inside := fun j c hc hp => by
    obtain ⟨c0, hc0, hp0, haddr⟩ := hold j c hc hp
    rw [← haddr, hq.addresses]
    obtain ⟨k, hk, hspot⟩ := h.inside j c0 hc0 hp0
    exact ⟨k, hk, (hq.spots k).trans hspot⟩
  callbacks := fun k j hk => by
    rw [hq.spots] at hk
    obtain ⟨c, hc, haddr, hp⟩ := h.callbacks k j hk
    obtain ⟨c', hc', hp', haddr'⟩ := hnew j c hc
    refine ⟨c', hc', ?_, ?_⟩
    · rw [hq.addresses, haddr']
      exact haddr
    · rw [hp']
      exact hp

/-- The thread that moves a client is that of its queue. -/
theorem Housed.home (h : Housed s) {k j : ℕ} {c : AsyncClient ρ}
    (hk : spotAt s k = some .next ∧ (addresses s)[k]? = some c.completionQueue ∨
      spotAt s k = some (.callback j)) (hc : s.clients[j]? = some c) :
    (addresses s)[k]? = some c.completionQueue := by
  rcases hk with ⟨-, haddr⟩ | hspot
  · exact haddr
  · obtain ⟨c0, hc0, haddr, -⟩ := h.callbacks k j hspot
    cases hc.symm.trans hc0
    exact haddr

/-- The thread of a queue moves a client. -/
theorem Housed.ran (h : Housed s) {k j : ℕ} {c c' : AsyncClient ρ} {b : ClientAction ρ}
    (hk : spotAt s k = some .next ∧ (addresses s)[k]? = some c.completionQueue ∨
      spotAt s k = some (.callback j))
    (hc : s.clients[j]? = some c) (hb : c.proceed b = some (.ok c'))
    (hq : Went s s' k (spotOf (c'.thread j))) (hc' : s'.clients = s.clients.set j c') : Housed s' := by
  have haddr := h.home hk hc
  have hself : s'.clients[j]? = some c' := by
    rw [hc', List.getElem?_set_self (List.getElem?_eq_some_iff.mp hc).1]
  have hothers : ∀ j', j' ≠ j → s'.clients[j']? = s.clients[j']? := by
    intro j' hj
    rw [hc', List.getElem?_set_ne (Ne.symm hj)]
  have hqueue := completionQueue_proceed hb
  refine ⟨?_, fun j' c1 hc1 => ?_, fun j' c1 hc1 hp => ?_, fun k' j' hk' => ?_⟩
  · rw [hq.addresses, hq.constructed]
    exact h.given
  · rw [hq.constructed]
    by_cases hj : j' = j
    · subst hj
      cases hself.symm.trans hc1
      rw [hqueue]
      exact h.clients j' c hc
    · exact h.clients j' c1 ((hothers j' hj).symm.trans hc1)
  · by_cases hj : j' = j
    · subst hj
      cases hself.symm.trans hc1
      refine ⟨k, by rw [hq.addresses, hqueue]; exact haddr, ?_⟩
      rw [hq.spots, if_pos rfl, spotOf_thread, if_neg hp]
    · obtain ⟨k1, hk1, hspot⟩ := h.inside j' c1 ((hothers j' hj).symm.trans hc1) hp
      refine ⟨k1, by rw [hq.addresses]; exact hk1, ?_⟩
      rw [hq.spots, if_neg]
      · exact hspot
      · rintro rfl
        rcases hk with ⟨hnext, -⟩ | hcb
        · cases hspot.symm.trans hnext
        · cases hspot.symm.trans hcb
          exact hj rfl
  · rw [hq.spots] at hk'
    rw [hq.addresses]
    split_ifs at hk' with hkk
    · subst hkk
      rw [spotOf_thread] at hk'
      split_ifs at hk' with hp
      · cases hk'
      · cases hk'
        exact ⟨c', hself, by rw [hqueue]; exact haddr, hp⟩
    · obtain ⟨c1, hc1, haddr1, hp1⟩ := h.callbacks k' j' hk'
      refine ⟨c1, ?_, haddr1, hp1⟩
      rw [hothers]
      · exact hc1
      · rintro rfl
        cases hc.symm.trans hc1
        exact hkk (h.unique haddr1 haddr)

/-- **Every step keeps the clients at their queues.** -/
theorem Housed.turned [Inhabited ρ] (h : Housed s) (ht : Turned s s') : Housed s' := by
  cases ht with
  | kept hq hc =>
    refine h.same hq ?_ ?_ ?_
    · rw [hc]
      exact h.clients
    · intro j c hcj hp
      rw [hc] at hcj
      exact ⟨c, hcj, hp, rfl⟩
    · intro j c hcj
      exact ⟨c, by rw [hc]; exact hcj, rfl, rfl⟩
  | @began n h0 hn hn' hspots hc =>
    have hlen : (addresses s').length = n := by rw [hn, List.length_map, List.length_range]
    refine ⟨fun k address hk => ?_, fun j c hcj => ?_, fun j c hcj hp => ?_, fun k j hk => ?_⟩
    · rw [hn, List.getElem?_map] at hk
      obtain ⟨k', hk', rfl⟩ := Option.map_eq_some_iff.mp hk
      obtain ⟨hlt, rfl⟩ := List.getElem?_eq_some_iff.mp hk'
      rw [List.getElem_range, hlen, hn']
      omega
    · rw [hc] at hcj
      have hlt := h.clients j c hcj
      omega
    · rw [hc] at hcj
      obtain ⟨k, hk, -⟩ := h.inside j c hcj hp
      rw [h0] at hk
      cases hk
    · have hlt := lt_of_spotAt hk
      rw [hlen] at hlt
      cases (hspots k hlt).symm.trans hk
  | @added c k hq hf hk hc =>
    have hsplit : ∀ (j : ℕ) (c1 : AsyncClient ρ), s'.clients[j]? = some c1 →
        s.clients[j]? = some c1 ∨ c1 = c := by
      intro j c1 hc1
      rw [hc] at hc1
      by_cases hj : j < s.clients.length
      · rw [List.getElem?_append_left hj] at hc1
        exact .inl hc1
      · rw [List.getElem?_append_right (by omega)] at hc1
        exact .inr (List.mem_singleton.mp (List.mem_of_getElem? hc1))
    refine h.same hq (fun j c1 hc1 => ?_) (fun j c1 hc1 hp => ?_) (fun j c1 hc1 => ?_)
    · rcases hsplit j c1 hc1 with hold | rfl
      · exact h.clients j c1 hold
      · exact h.lt hk
    · rcases hsplit j c1 hc1 with hold | rfl
      · exact ⟨c1, hold, hp, rfl⟩
      · exact absurd (position_of_fresh hf) hp
    · refine ⟨c1, ?_, rfl, rfl⟩
      rw [hc, List.getElem?_append_left (List.getElem?_eq_some_iff.mp hc1).1]
      exact hc1
  | @wrote j _ hq hc =>
    have hget : ∀ j', s'.clients[j']? =
        s.clients[j']?.map fun c => if j = j' then c.writeAsync else c := by
      intro j'
      rw [hc, List.getElem?_modify]
      split_ifs <;> simp
    refine h.same hq (fun j' c1 hc1 => ?_) (fun j' c1 hc1 hp => ?_) (fun j' c1 hc1 => ?_)
    · rw [hget] at hc1
      obtain ⟨c0, hc0, rfl⟩ := Option.map_eq_some_iff.mp hc1
      split_ifs
      · rw [completionQueue_writeAsync]
        exact h.clients j' c0 hc0
      · exact h.clients j' c0 hc0
    · rw [hget] at hc1
      obtain ⟨c0, hc0, rfl⟩ := Option.map_eq_some_iff.mp hc1
      split_ifs at hp ⊢
      · rw [position_writeAsync] at hp
        exact ⟨c0, hc0, hp, (completionQueue_writeAsync c0).symm⟩
      · exact ⟨c0, hc0, hp, rfl⟩
    · rw [hget, hc1]
      refine ⟨_, rfl, ?_, ?_⟩
      · split_ifs
        · exact position_writeAsync c1
        · rfl
      · split_ifs
        · exact completionQueue_writeAsync c1
        · rfl
  | ran hk hcj hb _ hq hc' => exact h.ran hk hcj hb hq hc'
  | @exited k address hk haddr hd hq hc =>
    refine ⟨?_, ?_, fun j c hcj hp => ?_, fun k' j hk' => ?_⟩
    · rw [hq.addresses, hq.constructed]
      exact h.given
    · rw [hq.constructed, hc]
      exact h.clients
    · rw [hc] at hcj
      rw [hq.addresses]
      obtain ⟨k', hk', hspot⟩ := h.inside j c hcj hp
      refine ⟨k', hk', ?_⟩
      rw [hq.spots, if_neg]
      · exact hspot
      · rintro rfl
        cases hspot.symm.trans hk
    · rw [hq.spots] at hk'
      rw [hq.addresses, hc]
      split_ifs at hk'
      · cases hk'
      · exact h.callbacks k' j hk'
  | cleared hex hq hn hc =>
    refine ⟨fun k address hk => ?_, ?_, fun j c hcj hp => ?_, fun k j hk => ?_⟩
    · rw [hq] at hk
      cases hk
    · rw [hn, hc]
      exact h.clients
    · rw [hc] at hcj
      obtain ⟨k, -, hspot⟩ := h.inside j c hcj hp
      cases hex k _ hspot
    · have hlt := lt_of_spotAt hk
      rw [hq] at hlt
      cases hlt

theorem housed_of_reachable [Inhabited ρ] (hs : Reachable (clientSide ρ) s) : Housed s := by
  have hinv := inv_of_reachable (I := fun s => Reachable (clientSide ρ) s ∧ Housed s) ?_ ?_ hs
  · exact hinv.2
  · refine ⟨Run.init.reachable, ?_, ?_, ?_, ?_⟩
    · rintro k address ⟨⟩
    · rintro j c ⟨⟩
    · rintro j c ⟨⟩
    · rintro k j ⟨⟩
  · rintro s a s' ⟨hr, hi⟩ hstep
    exact ⟨hr.step hstep, hi.turned (turned_of_step hr hstep)⟩

end AsyncGrpc.Client.Queues
