import AsyncGrpc.Model.ClientSide

/-! # What a step of the client side does

`Stepped` lists the steps with their conditions and results, and `Failed` the aborts; everything else
about the client side is proved by cases on them (`stepped_of_step`, `failed_of_aborts`). -/

namespace AsyncGrpc.Client.Steps

open AsyncGrpc.Lib.Runs AsyncGrpc.Model.Types AsyncGrpc.Model.AsyncClient
open AsyncGrpc.Model.CompletionQueuePool AsyncGrpc.Model.ClientSide

variable {ρ : Type} {s s' : State ρ} {a : Action ρ}

/-! ### The threads of the queues -/

theorem lt_of_threadAt {k : ℕ} {t : PoolThread} (h : s.threadAt k = some t) :
    k < s.pool.completionQueues.length := by
  obtain ⟨q, hq, -⟩ := Option.bind_eq_some_iff.mp h
  exact (List.getElem?_eq_some_iff.mp hq).1

theorem threadAt_setThread {k : ℕ} {t t0 : PoolThread} (h : s.threadAt k = some t0) (k' : ℕ) :
    (s.setThread k t).threadAt k' = if k' = k then some t else s.threadAt k' := by
  unfold State.threadAt State.setThread at *
  obtain ⟨q, hq, ht⟩ := Option.bind_eq_some_iff.mp h
  by_cases hk : k' = k
  · subst hk
    simp [hq]
  · simp [hk, Ne.symm hk]

/-- Shutting a queue down leaves its thread where it is. -/
theorem threadAt_shutDown {k : ℕ} {q : CompletionQueue PoolThread}
    (hq : s.pool.completionQueues[k]? = some q) (k' : ℕ) :
    { s with pool := { s.pool with
      completionQueues := s.pool.completionQueues.set k { q with shutDown := true } } }.threadAt k' =
      s.threadAt k' := by
  obtain ⟨hlt, hget⟩ := List.getElem?_eq_some_iff.mp hq
  by_cases hk : k' = k
  · subst hk
    simp [State.threadAt, hlt, hget]
  · simp [State.threadAt, List.getElem?_set_ne (Ne.symm hk)]

/-! ### Steps -/

/-- A step of a constructor. -/
inductive Constructed [Inhabited ρ] (s : State ρ) (rand : ℕ) (c : Construction) :
    State ρ → Option Construction → Prop
  | initialized {p : Pool PoolThread} (hc : c.call = .enter) (hm : s.mutex = none)
      (hp : s.pool.initializeQueues .next = .ok p) :
      Constructed s rand c { s with pool := p } (some { c with call := .getSize })
  | selected {qid : ℕ} (hc : c.call = .getSize) (hq : s.pool.selectQueue rand = .ok qid) :
      Constructed s rand c s (some { c with call := .getAt qid })
  | found {qid q : ℕ} (hc : c.call = .getAt qid) (hq : s.pool.queueAt qid = .ok q) :
      Constructed s rand c
        { s with clients := s.clients ++ [⟨c.type, q, .construct c.callback⟩] } none

theorem initializeQueues_some (h : s.initializeQueues = some (.ok s')) :
    s.mutex = none ∧ ∃ p, s.pool.initializeQueues .next = .ok p ∧ s' = { s with pool := p } := by
  unfold State.initializeQueues at h
  split_ifs at h with hm
  obtain ⟨p, hp, rfl⟩ := map_eq_ok.mp (Option.some.inj h)
  exact ⟨hm, p, mapError_eq_ok.mp hp, rfl⟩

/-- If a step of a client starts an operation, its queue takes it. -/
def Accepted (s : State ρ) (b : ClientAction ρ) (c c' : AsyncClient ρ) : Prop :=
  startsOperation b c.client c'.client = true → s.beginOperation c.completionQueue = .ok ()

theorem accepted_iff {b : ClientAction ρ} {c c' : AsyncClient ρ} : Accepted s b c c' ↔
    (if startsOperation b c.client c'.client then s.beginOperation c.completionQueue else .ok ()) =
      .ok () := by
  unfold Accepted
  split_ifs with h <;> simp [h]

theorem handleEvent_some {k j : ℕ} {b : ClientAction ρ} {c : AsyncClient ρ}
    (h : s.handleEvent k j b c = some (.ok s')) : ∃ c', c.proceed b = some (.ok c') ∧
      Accepted s b c c' ∧ s' = { s with clients := s.clients.set j c' }.setThread k (c'.thread j) := by
  obtain ⟨r, hr, h⟩ := Option.map_eq_some_iff.mp h
  obtain ⟨c', hc', h⟩ := bind_eq_ok.mp h
  obtain ⟨_, haccept, rfl⟩ := map_eq_ok.mp h
  rw [mapError_eq_ok.mp hc'] at hr
  exact ⟨c', hr, accepted_iff.mpr haccept, rfl⟩

theorem handleEvent_ok {k j : ℕ} {b : ClientAction ρ} {c c' : AsyncClient ρ}
    (hb : c.proceed b = some (.ok c')) (ha : Accepted s b c c') : s.handleEvent k j b c =
      some (.ok ({ s with clients := s.clients.set j c' }.setThread k (c'.thread j))) := by
  have hbegin := accepted_iff.mp ha
  simp only [State.handleEvent, hb, Option.map_some, Except.mapError]
  show some ((fun _ => _) <$> (if startsOperation b c.client c'.client then
    s.beginOperation c.completionQueue else .ok ())) = _
  rw [hbegin]
  rfl

theorem writeAsync_some {j : ℕ} (h : s.writeAsync j = some (.ok s')) :
    ∃ c, s.clients[j]? = some c ∧ s.beginOperation c.completionQueue = .ok () ∧
      s' = { s with clients := s.clients.modify j AsyncClient.writeAsync } := by
  obtain ⟨c, hc, h⟩ := Option.map_eq_some_iff.mp h
  obtain ⟨_, hbegin, rfl⟩ := map_eq_ok.mp h
  exact ⟨c, hc, hbegin, rfl⟩

section Stepped
variable [Inhabited ρ]

theorem constructed_of_some {rand : ℕ} {c : Construction} {c' : Option Construction}
    (h : s.construct rand c = some (.ok (s', c'))) : Constructed s rand c s' c' := by
  unfold State.construct at h
  split at h
  · next hc =>
    obtain ⟨r, hr, h⟩ := Option.map_eq_some_iff.mp h
    obtain ⟨s1, rfl, h⟩ := map_eq_ok.mp h
    cases h
    obtain ⟨hm, p, hp, rfl⟩ := initializeQueues_some hr
    exact .initialized hc hm hp
  · next hc =>
    obtain ⟨qid, hq, h⟩ := map_eq_ok.mp (Option.some.inj h)
    cases h
    exact .selected hc (mapError_eq_ok.mp hq)
  · next qid hc =>
    obtain ⟨q, hq, h⟩ := map_eq_ok.mp (Option.some.inj h)
    cases h
    exact .found hc (mapError_eq_ok.mp hq)

/-- What a step does: first the threads of the user, with `Shutdown`, then those of the queues. -/
inductive Stepped (s : State ρ) : Action ρ → State ρ → Prop
  | started {i : ℕ} {p : Pool PoolThread} (hu : s.users i = .idle) (hm : s.mutex = none)
      (hp : s.pool.initializeQueues .next = .ok p) : Stepped s (.start i) { s with pool := p }
  | called {i : ℕ} {type : ClientType} {callback : Bool} (hu : s.users i = .idle) :
      Stepped s (.callConstructor i type callback)
        (s.setUser i (.constructs ⟨type, callback, .enter⟩))
  | constructed {i rand : ℕ} {c : Construction} {c' : Option Construction} {s1 : State ρ}
      (hu : s.users i = .constructs c) (hc : Constructed s rand c s1 c') :
      Stepped s (.construct i rand) (s1.setUser i (c'.elim .idle .constructs))
  | wrote {i j : ℕ} {c : AsyncClient ρ} (hu : s.users i = .idle) (hc : s.clients[j]? = some c)
      (hbegin : s.beginOperation c.completionQueue = .ok ()) :
      Stepped s (.writeAsync i j) { s with clients := s.clients.modify j AsyncClient.writeAsync }
  | checked {i number : ℕ} (hu : s.users i = .idle)
      (hn : s.pool.checkSetNumber number = .ok ()) :
      Stepped s (.checkSetNumber i number) (s.setUser i (.setNumber number))
  | assigned {i number : ℕ} (hu : s.users i = .setNumber number) :
      Stepped s (.setNumber i) ({ s with pool := s.pool.setNumber number }.setUser i .idle)
  | locked {i : ℕ} (hu : s.users i = .idle) (hm : s.mutex = none) :
      Stepped s (.lockShutdown i) ({ s with mutex := some i }.setUser i (.shutdown 0))
  | shutDown {i k : ℕ} {q : CompletionQueue PoolThread} (hu : s.users i = .shutdown k)
      (hq : s.pool.completionQueues[k]? = some q) :
      Stepped s (.shutdown i) ({ s with pool := { s.pool with
        completionQueues := s.pool.completionQueues.set k { q with shutDown := true } } }.setUser i
          (.join k))
  | cleared {i k : ℕ} (hu : s.users i = .shutdown k) (hk : s.pool.completionQueues.length ≤ k) :
      Stepped s (.shutdown i) ({ s with pool := s.pool.clear, mutex := none }.setUser i .idle)
  | joined {i k : ℕ} (hu : s.users i = .join k) (ht : s.threadAt k = some .exited) :
      Stepped s (.join i) (s.setUser i (.shutdown (k + 1)))
  | completed {k j : ℕ} {event : ClientEvent} {ok : Bool} {response : ρ} {status : Status}
      {c c' : AsyncClient ρ} (ht : s.threadAt k = some .next) (hc : s.clients[j]? = some c)
      (hb : c.proceed (.complete event ok response status) = some (.ok c'))
      (ha : Accepted s (.complete event ok response status) c c')
      {q : CompletionQueue PoolThread} (hq : s.pool.completionQueues[k]? = some q)
      (hcq : c.completionQueue = q.address) :
      Stepped s (.next k j event ok response status)
        ({ s with clients := s.clients.set j c' }.setThread k (c'.thread j))
  | exited {k : ℕ} {q : CompletionQueue PoolThread} (ht : s.threadAt k = some .next)
      (hq : s.pool.completionQueues[k]? = some q) (hflag : q.shutDown = true)
      (hd : s.drained q.address = true) :
      Stepped s (.nextFails k) (s.setThread k .exited)
  | entered {k j : ℕ} {type : ClientType} {callback : Bool}
      (ht : s.threadAt k = some (.callback j none)) :
      Stepped s (.callbackConstructor k type callback)
        (s.setThread k (.callback j (some ⟨type, callback, .enter⟩)))
  | callbackConstructed {k j rand : ℕ} {c : Construction} {c' : Option Construction}
      {s1 : State ρ} (ht : s.threadAt k = some (.callback j (some c)))
      (hc : Constructed s rand c s1 c') :
      Stepped s (.callbackConstruct k rand) (s1.setThread k (.callback j c'))
  | callbackWrote {k j j' : ℕ} {c : AsyncClient ρ} (ht : s.threadAt k = some (.callback j none))
      (hc : s.clients[j']? = some c) (hbegin : s.beginOperation c.completionQueue = .ok ()) :
      Stepped s (.callbackWriteAsync k j')
        { s with clients := s.clients.modify j' AsyncClient.writeAsync }
  | returned {k j : ℕ} {c c' : AsyncClient ρ} (ht : s.threadAt k = some (.callback j none))
      (hc : s.clients[j]? = some c) (hb : c.proceed .callbackReturns = some (.ok c'))
      (ha : Accepted s .callbackReturns c c') :
      Stepped s (.callbackReturns k)
        ({ s with clients := s.clients.set j c' }.setThread k (c'.thread j))

theorem stepped_of_shutdown {i k : ℕ} (hu : s.users i = .shutdown k)
    (h : s.shutdown i k = .ok s') : Stepped s (.shutdown i) s' := by
  unfold State.shutdown at h
  split at h
  · next q hq =>
    obtain ⟨q', hq', rfl⟩ := map_eq_ok.mp h
    replace hq' := mapError_eq_ok.mp hq'
    unfold CompletionQueue.shutdown at hq'
    split_ifs at hq'
    cases hq'
    exact .shutDown hu hq
  · next hq =>
    cases h
    exact .cleared hu (List.getElem?_eq_none_iff.mp hq)

theorem stepped_of_step (h : (clientSide ρ).Step s a s') : Stepped s a s' := by
  replace h : stepSide s a = some (.ok s') := h
  unfold stepSide at h
  cases a with
  | start i =>
    dsimp only at h
    split_ifs at h with hu
    obtain ⟨hm, p, hp, rfl⟩ := initializeQueues_some h
    exact .started hu hm hp
  | callConstructor i type callback =>
    dsimp only at h
    split_ifs at h with hu
    cases h
    exact .called hu
  | construct i rand =>
    dsimp only at h
    split at h
    · next c hu =>
      obtain ⟨r, hr, h⟩ := Option.map_eq_some_iff.mp h
      obtain ⟨⟨s1, c'⟩, rfl, rfl⟩ := map_eq_ok.mp h
      exact .constructed hu (constructed_of_some hr)
    · cases h
  | writeAsync i j =>
    dsimp only at h
    split_ifs at h with hu
    obtain ⟨c, hc, hbegin, rfl⟩ := writeAsync_some h
    exact .wrote hu hc hbegin
  | checkSetNumber i number =>
    dsimp only at h
    split_ifs at h with hu
    obtain ⟨_, hn, rfl⟩ := map_eq_ok.mp (Option.some.inj h)
    exact .checked hu (mapError_eq_ok.mp hn)
  | setNumber i =>
    dsimp only at h
    split at h
    · next number hu =>
      cases h
      exact .assigned hu
    · cases h
  | lockShutdown i =>
    dsimp only at h
    split_ifs at h with hu
    cases h
    exact .locked hu.1 hu.2
  | shutdown i =>
    dsimp only at h
    split at h
    · next k hu => exact stepped_of_shutdown hu (Option.some.inj h)
    · cases h
  | join i =>
    dsimp only at h
    split at h
    · next k hu =>
      split_ifs at h with ht
      cases h
      exact .joined hu ht
    · cases h
  | next k j event ok response status =>
    dsimp only at h
    split at h
    · next q c hq hc =>
      split_ifs at h with hn
      obtain ⟨c', hb, ha, rfl⟩ := handleEvent_some h
      exact .completed (by simp [State.threadAt, hq, hn.1]) hc hb ha hq hn.2
    · cases h
  | nextFails k =>
    dsimp only at h
    split at h
    · next q hq =>
      split_ifs at h with hn
      cases h
      exact .exited (by simp [State.threadAt, hq, hn.1]) hq hn.2.1 hn.2.2
    · cases h
  | callbackConstructor k type callback =>
    dsimp only at h
    split at h
    · next j ht =>
      cases h
      exact .entered ht
    · cases h
  | callbackConstruct k rand =>
    dsimp only at h
    split at h
    · next j c ht =>
      obtain ⟨r, hr, h⟩ := Option.map_eq_some_iff.mp h
      obtain ⟨⟨s1, c'⟩, rfl, rfl⟩ := map_eq_ok.mp h
      exact .callbackConstructed ht (constructed_of_some hr)
    · cases h
  | callbackWriteAsync k j =>
    dsimp only at h
    split at h
    · next j' ht =>
      obtain ⟨c, hc, hbegin, rfl⟩ := writeAsync_some h
      exact .callbackWrote ht hc hbegin
    · cases h
  | callbackReturns k =>
    dsimp only at h
    split at h
    · next j ht =>
      split at h
      · next c hc =>
        obtain ⟨c', hb, ha, rfl⟩ := handleEvent_some h
        exact .returned ht hc hb ha
      · cases h
    · cases h

/-! ### Aborts -/

end Stepped

end AsyncGrpc.Client.Steps
