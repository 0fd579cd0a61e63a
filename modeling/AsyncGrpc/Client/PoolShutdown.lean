import AsyncGrpc.Client.ClosedQueues

/-! # `Shutdown` of the pool and the calls of the clients

A call is answered by the thread of its client's queue, so it would be lost if that thread had ended. The
thread ends only when `Shutdown` has shut the queue down and no operation on it is left, and no operation
is started on it after that.

* `calls_attended`: every call that is under way has a thread that will go on with it, and a client whose
  queue was shut down or destroyed cannot be written to any more: that ends the process.
* `shutdown_concludes_calls`: when the thread of a queue has ended, as all have when `Shutdown` returns,
  every call of its clients has finished and its last callback was made. -/

namespace AsyncGrpc.Client.PoolShutdown

open AsyncGrpc.Lib.Runs AsyncGrpc.Model.Types AsyncGrpc.Model.AsyncClient
open AsyncGrpc.Model.CompletionQueuePool AsyncGrpc.Model.ClientSide
open AsyncGrpc.Client.Clients AsyncGrpc.Client.Streaming AsyncGrpc.Client.Queues
open AsyncGrpc.Client.PoolCalls AsyncGrpc.Client.Tokens AsyncGrpc.Client.ClosedQueues

variable {ρ : Type} {s s' : State ρ} {a : Action ρ} {c : AsyncClient ρ}

/-- A call of the client is under way: gRPC holds an operation, or a callback is being made. -/
def UnderWay (c : AsyncClient ρ) : Prop := c.client.position ≠ .idle ∨ ∃ event, 0 < c.client.ops event

/-- The queue with this address is in the pool, and its thread has not ended. -/
def Alive (s : State ρ) (address : ℕ) : Prop :=
  ∃ k t, (addresses s)[k]? = some address ∧ spotAt s k = some t ∧ t ≠ .exited

/-- Every call that is under way has the thread of its queue. -/
def Attended (s : State ρ) : Prop :=
  ∀ (j : ℕ) (c : AsyncClient ρ), s.clients[j]? = some c → UnderWay c → Alive s c.completionQueue

/-! ### Threads that have not ended -/

theorem alive_congr (hq : SameQueues s s') {address : ℕ} : Alive s' address ↔ Alive s address := by
  unfold Alive
  rw [hq.addresses]
  simp only [hq.spots]

/-- A thread that has not ended moves on. -/
theorem alive_went {k : ℕ} {t t0 : Spot} (hq : Went s s' k t) (hk : spotAt s k = some t0)
    (h0 : t0 ≠ .exited) (ht : t ≠ .exited) {address : ℕ} : Alive s' address ↔ Alive s address := by
  constructor
  · rintro ⟨k', t', haddr, hspot, hne⟩
    rw [hq.addresses] at haddr
    rw [hq.spots] at hspot
    split_ifs at hspot with hkk
    · exact ⟨k', t0, haddr, hkk ▸ hk, h0⟩
    · exact ⟨k', t', haddr, hspot, hne⟩
  · rintro ⟨k', t', haddr, hspot, hne⟩
    rw [← hq.addresses] at haddr
    by_cases hkk : k' = k
    · exact ⟨k', t, haddr, by rw [hq.spots, if_pos hkk], ht⟩
    · exact ⟨k', t', haddr, by rw [hq.spots, if_neg hkk]; exact hspot, hne⟩

theorem not_alive_of_nil (h : addresses s = []) (address : ℕ) : ¬ Alive s address := by
  rintro ⟨k, t, haddr, -⟩
  rw [h] at haddr
  cases haddr

/-- A thread that moves a client has not ended. -/
theorem exists_spot {k j : ℕ} {P : Prop}
    (hk : spotAt s k = some .next ∧ P ∨ spotAt s k = some (.callback j)) :
    ∃ t, spotAt s k = some t ∧ t ≠ .exited := by
  rcases hk with ⟨hnext, -⟩ | hcb
  · exact ⟨.next, hnext, by simp⟩
  · exact ⟨.callback j, hcb, by simp⟩

/-! ### Calls that are under way -/

theorem underWay_writeAsync (c : AsyncClient ρ) : UnderWay c.writeAsync := by
  unfold AsyncClient.writeAsync
  split
  · exact .inr ⟨.finish, by simp [Unary.writeAsync, startOp]⟩
  · exact .inr ⟨.write, by simp [Streaming.writeAsync, startOp]⟩

theorem idle_of_not_underWay (h : ¬ UnderWay c) :
    c.client.position = .idle ∧ ∀ event, c.client.ops event = 0 := by
  constructor
  · by_contra hp
    exact h (.inl hp)
  · intro event
    by_contra hop
    exact h (.inr ⟨event, Nat.pos_of_ne_zero hop⟩)

theorem total_of_not_underWay (h : ¬ UnderWay c) (w : Place → ℕ) : total w c.client = 0 := by
  obtain ⟨hidle, hops⟩ := idle_of_not_underWay h
  simp [total, hidle, hops]

theorem not_underWay_of_fresh [Inhabited ρ] (h : Fresh c) : ¬ UnderWay c := by
  obtain ⟨callback, h⟩ := h
  rw [UnderWay, h]
  simp [Client.construct]

/-- The clients of a drained queue whose thread is in `Next` have no call under way. -/
theorem not_underWay_of_drained (h : Housed s) {k j : ℕ} (hk : spotAt s k = some .next)
    (hq : (addresses s)[k]? = some c.completionQueue) (hd : s.drained c.completionQueue = true)
    (hc : s.clients[j]? = some c) : ¬ UnderWay c := by
  rintro (hp | ⟨event, hop⟩)
  · exact hp (h.idle hc hq hk)
  · have hall := List.all_eq_true.mp hd c (List.mem_of_getElem? hc)
    have hzero : c.client.ops event = 0 := by
      cases event <;> simp_all
    omega

section Steps
variable [Inhabited ρ]

/-- The thread of an open queue has not ended. -/
theorem alive_of_open (hs : Reachable (clientSide ρ) s) {address : ℕ} (h : Open s address) :
    Alive s address := by
  obtain ⟨k, hk, hflag⟩ := h
  obtain ⟨q, hq, -⟩ := exists_queue hk
  obtain ⟨t, ht⟩ := exists_thread hs hq
  have hthread : s.threadAt k = some t := by simp [State.threadAt, hq, ht]
  refine ⟨k, spotOf t, hk, spotAt_of_threadAt hthread, fun hx => hflag ?_⟩
  cases t with
  | exited => exact (marked_of_reachable hs).exited k hthread
  | next => cases hx
  | callback => cases hx

/-- A step keeps the calls attended. -/
theorem Attended.turned (h : Attended s) (hs : Reachable (clientSide ρ) s) (ht : Turned s s') :
    Attended s' := by
  have hh := housed_of_reachable hs
  cases ht with
  | kept hq hc =>
    intro j c hcj hu
    rw [hc] at hcj
    exact (alive_congr hq).mpr (h j c hcj hu)
  | began h0 _ _ _ hc =>
    intro j c hcj hu
    rw [hc] at hcj
    exact absurd (h j c hcj hu) (not_alive_of_nil h0 _)
  | @added c k hq hf hk hc =>
    intro j c1 hcj hu
    rw [hc] at hcj
    by_cases hj : j < s.clients.length
    · rw [List.getElem?_append_left hj] at hcj
      exact (alive_congr hq).mpr (h j c1 hcj hu)
    · rw [List.getElem?_append_right (by omega)] at hcj
      obtain rfl := List.mem_singleton.mp (List.mem_of_getElem? hcj)
      exact absurd hu (not_underWay_of_fresh hf)
  | @wrote j c hq hc hcj hbegin =>
    intro j' c1 hc1 hu
    rw [alive_congr hq]
    rw [hc, List.getElem?_modify] at hc1
    obtain ⟨c0, hc0, rfl⟩ := Option.map_eq_some_iff.mp hc1
    split_ifs at hu ⊢ with hj
    · subst hj
      cases hcj.symm.trans hc0
      rw [completionQueue_writeAsync]
      exact alive_of_open hs ((beginOperation_iff hh).mp hbegin)
    · exact h j' c0 hc0 hu
  | @ran k j c c' b hk hcj hb _ hq hc' =>
    intro j' c1 hc1 hu
    obtain ⟨t, hspot, hne⟩ := exists_spot hk
    rw [alive_went hq hspot hne (spotOf_thread_ne j c')]
    by_cases hj : j' = j
    · subst hj
      rw [hc', List.getElem?_set_self (List.getElem?_eq_some_iff.mp hcj).1] at hc1
      cases hc1
      rw [completionQueue_proceed hb]
      exact ⟨k, t, hh.home hk hcj, hspot, hne⟩
    · rw [hc', List.getElem?_set_ne (Ne.symm hj)] at hc1
      exact h j' c1 hc1 hu
  | @exited k address hk haddr hd hq hc =>
    intro j c1 hcj hu
    rw [hc] at hcj
    obtain ⟨k', t, haddr', hspot, hne⟩ := h j c1 hcj hu
    have hkk : k' ≠ k := by
      rintro rfl
      cases haddr.symm.trans haddr'
      exact not_underWay_of_drained hh hk haddr hd hcj hu
    exact ⟨k', t, by rw [hq.addresses]; exact haddr', by rw [hq.spots, if_neg hkk]; exact hspot, hne⟩
  | cleared hex _ _ hc =>
    intro j c1 hcj hu
    rw [hc] at hcj
    obtain ⟨k, t, -, hspot, hne⟩ := h j c1 hcj hu
    exact absurd (hex k t hspot) hne

/-! ### Runs -/

theorem attended_of_reachable (hs : Reachable (clientSide ρ) s) : Attended s := by
  have hinv := inv_of_reachable (I := fun s => Reachable (clientSide ρ) s ∧ Attended s) ?_ ?_ hs
  · exact hinv.2
  · refine ⟨Run.init.reachable, ?_⟩
    rintro j c ⟨⟩
  · rintro s a s' ⟨hr, h⟩ hstep
    exact ⟨hr.step hstep, h.turned hr (turned_of_step hr hstep)⟩

/-- The last callback of a client with a callback that was written to once. -/
def ToldTheEnd (c : AsyncClient ρ) : Prop :=
  match c.type with
  | .normalRpc => callbacks c.client.history = [answer c.client]
  | .serverStreaming => ∃ st, callbacks c.client.history =
      (received c.client.history).map (fun m => (.OK, some m)) ++ [(st, none)]

/-- A client that has no call under way has been told the end of its call. -/
theorem toldTheEnd_of_reachable (h : Reachable (machineOf ρ c.type true) c.client)
    (hn : ¬ UnderWay c) : ToldTheEnd c := by
  obtain ⟨hidle, hops⟩ := idle_of_not_underWay hn
  have hheld : ∀ {event : ClientEvent}, c.client.ops ≠ holding (some event) := by
    intro event heq
    have hzero := hops event
    rw [heq, holding, if_pos rfl] at hzero
    cases hzero
  unfold ToldTheEnd
  cases ht : c.type with
  | normalRpc =>
    rw [ht] at h
    cases unaryStage_of_reachable h with
    | waiting _ ho => exact absurd ho hheld
    | answered _ hc => exact hc
  | serverStreaming =>
    rw [ht] at h
    cases stage_of_reachable h with
    | starting ha => exact absurd ha.ops hheld
    | refusing ha => cases hidle.symm.trans ha.position
    | refused ha => exact absurd ha.ops hheld
    | reading ha => exact absurd ha.ops hheld
    | passing ha => cases hidle.symm.trans ha.position
    | finishing ha => exact absurd ha.ops hheld
    | ending ha => cases hidle.symm.trans ha.position
    | ended _ _ hold => exact ⟨_, hold.passed⟩

/-- A client that was constructed with a callback: before its first call, in it, or after a second
`WriteAsync`. -/
structure Single (c : AsyncClient ρ) : Prop where
  usable : Usable c
  call : written c.type c.client = 0 ∧ c.client = .construct true ∨
    written c.type c.client = 1 ∧ Reachable (machineOf ρ c.type true) c.client ∨
    2 ≤ written c.type c.client

theorem Single.writeAsync (h : Single c) : Single c.writeAsync := by
  have hw : written c.writeAsync.type c.writeAsync.client = written c.type c.client + 1 :=
    written_writeAsync c
  refine ⟨h.usable.writeAsync, ?_⟩
  rcases h.call with ⟨hzero, hfresh⟩ | ⟨hone, -⟩ | hmore
  · obtain ⟨htype, hinit⟩ := init_of_writeAsync hfresh
    refine .inr (.inl ⟨by omega, ?_⟩)
    rw [htype, hinit]
    exact Run.init.reachable
  · exact .inr (.inr (by omega))
  · exact .inr (.inr (by omega))

theorem Single.proceed {c' : AsyncClient ρ} {b : ClientAction ρ} (h : Single c) (ho : OnlyFinish c)
    (hb : c.proceed b = some (.ok c')) : Single c' := by
  obtain ⟨htype, hstep⟩ := step_of_proceed hb true
  have hw : written c'.type c'.client = written c.type c.client := by
    obtain ⟨p, q, -, hs⟩ := shifted_of_proceed ho hb
    rw [htype, hs.written]
  obtain ⟨c1, he, -, hu'⟩ := h.usable.proceed hb
  cases he
  refine ⟨hu', ?_⟩
  rcases h.call with ⟨-, hfresh⟩ | ⟨hone, hreach⟩ | hmore
  · refine absurd ?_ (enabled_of_proceed hb)
    rw [hfresh]
    exact ⟨rfl, fun _ => rfl⟩
  · refine .inr (.inl ⟨hw.trans hone, ?_⟩)
    rw [htype]
    exact hreach.step hstep
  · exact .inr (.inr (hw ▸ hmore))

/-- A client that was constructed with a callback and has made one call does a run of its machine. -/
theorem single_of_later {t : State ρ} {j : ℕ} {c0 : AsyncClient ρ} (ht : Reachable (clientSide ρ) t)
    (hc0 : t.clients[j]? = some c0) (h0 : c0.client = .construct true)
    (hl : Later (clientSide ρ) t s) : ∃ c, s.clients[j]? = some c ∧ Single c := by
  have hinv := Later.inv (I := fun s => Reachable (clientSide ρ) s ∧
    ∃ c, s.clients[j]? = some c ∧ Single c) ?_ hl ⟨ht, c0, hc0, usable_of_reachable ht hc0, .inl ⟨?_, h0⟩⟩
  · exact hinv.2
  · rintro s a s' ⟨hr, c, hc, h⟩ hstep
    refine ⟨hr.step hstep, ?_⟩
    obtain ⟨c', hc', rfl | rfl | ⟨b, hb⟩⟩ := client_of_step hstep hc
    · exact ⟨c', hc', h⟩
    · exact ⟨_, hc', h.writeAsync⟩
    · exact ⟨c', hc', h.proceed (accounted_of_reachable hr hc).onlyFinish hb⟩
  · rw [h0]
    simp [written, Client.construct]

/-- **`Shutdown` concludes the calls.** When the thread of the queue of a client has ended, then as many
calls of the client have finished as were made; and if it was constructed with a callback and written to
once, it was told so. -/
theorem shutdown_concludes_calls (hs : Reachable (clientSide ρ) s) {j : ℕ}
    (hc : s.clients[j]? = some c) (hdead : ¬ Alive s c.completionQueue) :
    ended c.client = written c.type c.client ∧
      ∀ (t : State ρ) (c0 : AsyncClient ρ), Reachable (clientSide ρ) t → t.clients[j]? = some c0 →
        c0.client = .construct true → Later (clientSide ρ) t s → written c.type c.client = 1 →
        ToldTheEnd c := by
  have hn : ¬ UnderWay c := fun hu => hdead (attended_of_reachable hs j c hc hu)
  refine ⟨?_, fun t c0 ht hc0 h0 hl hone => ?_⟩
  · rw [(accounted_of_reachable hs hc).calls, total_of_not_underWay hn, Nat.add_zero]
  · obtain ⟨c1, hc1, hsingle⟩ := single_of_later ht hc0 h0 hl
    cases hc.symm.trans hc1
    rcases hsingle.call with ⟨hzero, -⟩ | ⟨-, hreach⟩ | hmore
    · omega
    · exact toldTheEnd_of_reachable hreach hn
    · omega

/-- A call is made and answered, and the pool is shut down. -/
theorem shutdown_concludes_calls_answered : ∃ (s : State ℕ) (c : AsyncClient ℕ),
    s.clients[0]? = some c ∧ s.pool.completionQueues.length = 0 ∧ written c.type c.client = 1 ∧
      ended c.client = written c.type c.client ∧ ToldTheEnd c := by
  obtain ⟨t, ht, -⟩ := exists_run (clientSide ℕ)
    [.callConstructor 0 .normalRpc true, .construct 0 0, .construct 0 0, .construct 0 0]
    (fun _ => true) (by decide)
  obtain ⟨s, hr, hp⟩ := exists_run (clientSide ℕ)
    ([.callConstructor 0 .normalRpc true, .construct 0 0, .construct 0 0, .construct 0 0] ++
      [.writeAsync 0 0, .lockShutdown 0, .shutdown 0, .next 0 0 .finish true 5 .OK, .callbackReturns 0,
        .nextFails 0, .join 0, .shutdown 0, .nextFails 1, .join 0, .shutdown 0])
    (fun s : State ℕ => decide (s.pool.completionQueues.length = 0 ∧
      s.clients[0]?.any (fun c => written c.type c.client = 1) = true)) (by decide)
  obtain ⟨c0, hc0, h0⟩ : ∃ c0, t.clients[0]? = some c0 ∧ c0.client = .construct true := by
    cases (exec_of_run ht).symm.trans (show exec (clientSide ℕ) (clientSide ℕ).init
      [.callConstructor 0 .normalRpc true, .construct 0 0, .construct 0 0, .construct 0 0] = some _
      from rfl)
    exact ⟨_, rfl, rfl⟩
  obtain ⟨hempty, hany⟩ := of_decide_eq_true hp
  obtain ⟨c, hc, hone⟩ := (Option.any_eq_true _ _).mp hany
  rw [decide_eq_true_eq] at hone
  have hdead : ¬ Alive s c.completionQueue :=
    not_alive_of_nil (by rw [addresses, List.length_eq_zero_iff.mp hempty]; rfl) _
  obtain ⟨hended, htold⟩ := shutdown_concludes_calls hr.reachable hc hdead
  exact ⟨s, c, hc, hempty, hone, hended, htold t c0 ht.reachable hc0 h0 (ht.later hr) hone⟩

end Steps

end AsyncGrpc.Client.PoolShutdown
