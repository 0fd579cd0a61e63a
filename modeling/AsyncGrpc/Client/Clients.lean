import AsyncGrpc.Client.Steps

/-! # The clients of the client side

Every client does a walk of its own: it is constructed, written to, and then moved by the events that
the thread of its queue takes (`components`). So what holds of one `AsyncClient` holds of all of them:
no event brings one to a fatal branch (`Usable.proceed`), and one that is written to once is always in
a state that the machine of its specialisation reaches (`client_runs`). -/

namespace AsyncGrpc.Client.Clients

open AsyncGrpc.Lib.Runs AsyncGrpc.Model.Types AsyncGrpc.Model.AsyncClient
open AsyncGrpc.Model.CompletionQueuePool AsyncGrpc.Model.ClientSide AsyncGrpc.Client.Steps

variable {ρ : Type} [Inhabited ρ] {s s' : State ρ} {a : Action ρ} {c c' : AsyncClient ρ}

/-! ### The steps of one client -/

/-- A client after its constructor. -/
def Fresh (c : AsyncClient ρ) : Prop := ∃ callback, c.client = .construct callback

/-- What happens to a client: `WriteAsync`, or a step of the thread of its queue. -/
inductive ClientStep (ρ : Type)
  | write
  | event (b : ClientAction ρ)

/-- The step function of one client. -/
def clientStep (c : AsyncClient ρ) : ClientStep ρ → Option (Except SideFatal (AsyncClient ρ))
  | .write => some (.ok c.writeAsync)
  | .event b => (c.proceed b).map (·.mapError .client)

omit [Inhabited ρ] in
theorem proceed_of_clientStep {b : ClientAction ρ} (h : clientStep c (.event b) = some (.ok c')) :
    c.proceed b = some (.ok c') := by
  obtain ⟨r, hr, he⟩ := Option.map_eq_some_iff.mp h
  rw [mapError_eq_ok.mp he] at hr
  exact hr

/-- What a step of the client side is for the client `j`. -/
def actOf (s : State ρ) : Action ρ → ℕ → Option (ClientStep ρ)
  | .writeAsync _ j', j | .callbackWriteAsync _ j', j => if j' = j then some .write else none
  | .next _ j' event ok response status, j =>
    if j' = j then some (.event (.complete event ok response status)) else none
  | .callbackReturns k, j =>
    if s.threadAt k = some (.callback j none) then some (.event .callbackReturns) else none
  | _, _ => none

/-- How a step changes the clients. -/
inductive Changed (s : State ρ) (a : Action ρ) (s' : State ρ) : Prop
  | kept (h : s'.clients = s.clients) (ha : ∀ j, actOf s a j = none)
  | added {c : AsyncClient ρ} (hf : Fresh c) (h : s'.clients = s.clients ++ [c])
      (ha : ∀ j, actOf s a j = none)
  | wrote {j : ℕ} (h : s'.clients = s.clients.modify j AsyncClient.writeAsync)
      (ha : ∀ j', actOf s a j' = if j = j' then some .write else none)
  | handled {j : ℕ} {c c' : AsyncClient ρ} {b : ClientAction ρ} (hc : s.clients[j]? = some c)
      (hb : c.proceed b = some (.ok c')) (h : s'.clients = s.clients.set j c')
      (ha : ∀ j', actOf s a j' = if j = j' then some (.event b) else none)

theorem changed_of_constructed {rand : ℕ} {d : Construction} {d' : Option Construction}
    {s1 : State ρ} (h : Constructed s rand d s1 d') (hs : s'.clients = s1.clients)
    (ha : ∀ j, actOf s a j = none) : Changed s a s' := by
  cases h with
  | initialized => exact .kept hs ha
  | selected => exact .kept hs ha
  | found => exact .added ⟨_, rfl⟩ hs ha

theorem changed_of_step (h : (clientSide ρ).Step s a s') : Changed s a s' := by
  cases stepped_of_step h with
  | constructed _ hc => exact changed_of_constructed hc rfl (fun _ => rfl)
  | wrote => exact .wrote rfl (fun _ => rfl)
  | completed _ hc hb => exact .handled hc hb rfl (fun _ => rfl)
  | callbackConstructed _ hc => exact changed_of_constructed hc rfl (fun _ => rfl)
  | callbackWrote => exact .wrote rfl (fun _ => rfl)
  | @returned k j c c' ht hc hb =>
    refine .handled hc hb rfl (fun j' => ?_)
    simp only [actOf, ht, Option.some.injEq, PoolThread.callback.injEq, and_true]
  | _ => exact .kept rfl (fun _ => rfl)

theorem Changed.new (h : Changed s a s') {j : ℕ} (hn : s.clients[j]? = none)
    (hc' : s'.clients[j]? = some c') : Fresh c' := by
  cases h with
  | kept h =>
    rw [h, hn] at hc'
    cases hc'
  | added hf h =>
    rw [h, List.getElem?_append_right (List.getElem?_eq_none_iff.mp hn)] at hc'
    rw [List.mem_singleton.mp (List.mem_of_getElem? hc')]
    exact hf
  | wrote h =>
    rw [h, List.getElem?_modify, hn] at hc'
    cases hc'
  | handled _ _ h =>
    have hnone : s'.clients[j]? = none := by
      rw [h, List.getElem?_eq_none_iff, List.length_set]
      exact List.getElem?_eq_none_iff.mp hn
    cases hnone.symm.trans hc'

theorem Changed.old (h : Changed s a s') {j : ℕ} (hc : s.clients[j]? = some c) :
    ∃ c', s'.clients[j]? = some c' ∧ Follows clientStep c (actOf s a j) c' := by
  cases h with
  | kept h ha => exact ⟨c, by rw [h]; exact hc, by rw [ha]; rfl⟩
  | added _ h ha =>
    refine ⟨c, ?_, by rw [ha]; rfl⟩
    rw [h, List.getElem?_append_left (List.getElem?_eq_some_iff.mp hc).1]
    exact hc
  | @wrote j' h ha =>
    by_cases hj : j' = j
    · exact ⟨c.writeAsync, by simp [h, hc, hj], by rw [ha, if_pos hj]; rfl⟩
    · exact ⟨c, by simp [h, hc, hj], by rw [ha, if_neg hj]; rfl⟩
  | @handled j' c0 c1 b hc0 hb h ha =>
    by_cases hj : j' = j
    · subst hj
      cases hc.symm.trans hc0
      refine ⟨c1, ?_, ?_⟩
      · rw [h, List.getElem?_set_self (List.getElem?_eq_some_iff.mp hc).1]
      · rw [ha, if_pos rfl]
        show (c.proceed b).map _ = _
        rw [hb]
        rfl
    · exact ⟨c, by rw [h, List.getElem?_set_ne hj]; exact hc, by rw [ha, if_neg hj]; rfl⟩

/-- **The client side is a family of clients**, each of which is constructed and then moves by its own
steps only. -/
def components (ρ : Type) [Inhabited ρ] :
    Components (clientSide ρ) ℕ (AsyncClient ρ) (ClientStep ρ) where
  Fresh := Fresh
  lstep := clientStep
  proj := fun s j => s.clients[j]?
  act := actOf
  init_fresh := fun _ _ h => by cases h
  step_new := fun _ _ _ _ hs _ hn _ hc' => (changed_of_step hs).new hn hc'
  step_old := fun _ _ _ _ hs _ _ hc => (changed_of_step hs).old hc

/-- A step of the client side leaves a client alone, writes to it, or moves it by an event. -/
theorem client_of_step (hs : (clientSide ρ).Step s a s') {j : ℕ} (hc : s.clients[j]? = some c) :
    ∃ c', s'.clients[j]? = some c' ∧
      (c' = c ∨ c' = c.writeAsync ∨ ∃ b, c.proceed b = some (.ok c')) := by
  obtain ⟨c', hc', hfollows⟩ := (changed_of_step hs).old hc
  refine ⟨c', hc', ?_⟩
  rcases hact : actOf s a j with _ | b
  · rw [hact] at hfollows
    exact .inl hfollows
  · rw [hact] at hfollows
    cases b with
    | write =>
      cases hfollows
      exact .inr (.inl rfl)
    | event b => exact .inr (.inr ⟨b, proceed_of_clientStep hfollows⟩)

/-! ### No client reaches a fatal branch -/

/-- `response_reader_` is there when an event can come, and only `FINISH` comes to a unary client. -/
structure Usable (c : AsyncClient ρ) : Prop where
  reader : c.client.responseReader = true ∨
    c.client.position = .idle ∧ ∀ event, c.client.ops event = 0
  unary : c.type = .normalRpc → ∀ event, event ≠ .finish → c.client.ops event = 0

theorem usable_of_fresh (h : Fresh c) : Usable c := by
  obtain ⟨callback, hc⟩ := h
  refine ⟨Or.inr ?_, fun _ event _ => ?_⟩
  · rw [hc]
    exact ⟨rfl, fun _ => rfl⟩
  · rw [hc]
    rfl

omit [Inhabited ρ] in
theorem Usable.writeAsync (h : Usable c) : Usable c.writeAsync := by
  unfold AsyncClient.writeAsync
  split
  · next ht =>
    refine ⟨Or.inl rfl, fun _ event hne => ?_⟩
    simp only [Unary.writeAsync, startOp, Function.update_of_ne hne]
    exact h.unary ht event hne
  · next ht =>
    refine ⟨Or.inl rfl, fun hn => ?_⟩
    cases ht.symm.trans hn

section Handlers
omit [Inhabited ρ]
variable {d : Client ρ} {event : ClientEvent}

theorem read_ok (h : d.responseReader = true) :
    ∃ d', Streaming.read d = .ok d' ∧ d'.responseReader = true :=
  ⟨_, if_pos h, h⟩

theorem finish_ok (h : d.responseReader = true) (status : Status) :
    ∃ d', Streaming.finish status d = .ok d' ∧ d'.responseReader = true :=
  ⟨_, if_pos h, h⟩

/-- With `response_reader_` the streaming client handles every event. -/
theorem handleEvent_ok (h : d.responseReader = true) :
    ∃ d', Streaming.handleEvent event d = .ok d' ∧ d'.responseReader = true := by
  cases event with
  | write =>
    simp only [Streaming.handleEvent, Streaming.handleWriteEvent]
    split_ifs
    · exact read_ok h
    · exact ⟨_, rfl, h⟩
    · exact finish_ok h _
  | read =>
    simp only [Streaming.handleEvent, Streaming.handleReadEvent]
    split_ifs
    · exact ⟨_, rfl, h⟩
    · exact read_ok h
    · exact finish_ok h _
  | finish =>
    refine ⟨_, rfl, ?_⟩
    unfold Streaming.handleFinishEvent
    split_ifs <;> exact h

theorem afterCallback_ok (h : d.responseReader = true) :
    ∃ d', Streaming.afterCallback event d = .ok d' ∧ d'.responseReader = true := by
  cases event with
  | write => exact finish_ok (d := { d with callback := false }) h _
  | read =>
    simp only [Streaming.afterCallback]
    split_ifs
    · exact read_ok h
    · exact read_ok (d := { d with callback := false }) h
  | finish => exact ⟨_, rfl, h⟩

theorem store_responseReader (ok : Bool) (response : ρ) (status : Status) :
    (Streaming.store event ok response status d).responseReader = d.responseReader := by
  cases event <;> cases ok <;> rfl

/-- A step of a client that has `response_reader_` succeeds and leaves it there; a unary client needs
that only `FINISH` can come. -/
theorem step_streaming_ok {b : ClientAction ρ} {r : Except ClientFatal (Client ρ)}
    (h : d.responseReader = true)
    (hb : step Streaming.store Streaming.handleEvent Streaming.afterCallback d b = some r) :
    ∃ d', r = .ok d' ∧ d'.responseReader = true := by
  unfold step at hb
  cases b with
  | complete event ok response status =>
    dsimp only at hb
    split_ifs at hb
    cases hb
    exact handleEvent_ok ((store_responseReader ok response status).trans h)
  | callbackReturns =>
    dsimp only at hb
    split at hb
    · cases hb
      exact afterCallback_ok h
    · cases hb

theorem step_unary_ok {b : ClientAction ρ} {r : Except ClientFatal (Client ρ)}
    (h : d.responseReader = true) (hops : ∀ event, event ≠ .finish → d.ops event = 0)
    (hb : step Unary.store Unary.handleEvent Unary.afterCallback d b = some r) :
    ∃ d', r = .ok d' ∧ d'.responseReader = true ∧ ∀ event, event ≠ .finish → d'.ops event = 0 := by
  unfold step at hb
  cases b with
  | complete event ok response status =>
    dsimp only at hb
    split_ifs at hb with hcond
    have hevent : event = .finish := by
      by_contra hne
      have hzero := hops event hne
      omega
    subst hevent
    cases hb
    refine ⟨_, rfl, ?_, fun event hne => ?_⟩
    · unfold Unary.handleFinishEvent
      split_ifs <;> exact h
    · have hsame : (complete .finish ok response status d).ops event = 0 := by
        simp only [complete, Function.update_of_ne hne]
        exact hops event hne
      unfold Unary.handleFinishEvent
      split_ifs <;> exact hsame
  | callbackReturns =>
    dsimp only at hb
    split at hb
    · cases hb
      exact ⟨_, rfl, h, hops⟩
    · cases hb

/-- An event can only come to a client that was written to. -/
theorem enabled_of_proceed {b : ClientAction ρ} {r : Except ClientFatal (AsyncClient ρ)}
    (hb : c.proceed b = some r) :
    ¬ (c.client.position = .idle ∧ ∀ event, c.client.ops event = 0) := by
  rintro ⟨hidle, hops⟩
  unfold AsyncClient.proceed at hb
  obtain ⟨r', hr', -⟩ := Option.map_eq_some_iff.mp hb
  cases b <;> split at hr' <;> simp [step, hidle, hops] at hr'

/-- **A step of a usable client succeeds.** -/
theorem Usable.proceed {b : ClientAction ρ} {r : Except ClientFatal (AsyncClient ρ)} (h : Usable c)
    (hb : c.proceed b = some r) :
    ∃ c', r = .ok c' ∧ c'.client.responseReader = true ∧ Usable c' := by
  have hreader := h.reader.resolve_right (enabled_of_proceed hb)
  unfold AsyncClient.proceed at hb
  obtain ⟨r', hr', rfl⟩ := Option.map_eq_some_iff.mp hb
  split at hr'
  · next ht =>
    obtain ⟨d', rfl, hd', hops⟩ := step_unary_ok hreader (h.unary ht) hr'
    exact ⟨_, rfl, hd', Or.inl hd', fun _ => hops⟩
  · next ht =>
    obtain ⟨d', rfl, hd'⟩ := step_streaming_ok hreader hr'
    refine ⟨_, rfl, hd', Or.inl hd', fun hn => ?_⟩
    cases ht.symm.trans hn

end Handlers

theorem usable_of_walk {Q : AsyncClient ρ → ClientStep ρ → Prop} (h : Walk Fresh clientStep Q c) :
    Usable c := by
  refine Walk.inv (I := Usable) (fun c hf => usable_of_fresh (c := c) hf) (fun c b c' hu _ hs => ?_) h
  cases b with
  | write =>
    cases hs
    exact hu.writeAsync
  | event b =>
    obtain ⟨c1, he, -, hu'⟩ := hu.proceed (proceed_of_clientStep hs)
    cases he
    exact hu'

theorem usable_of_reachable (hs : Reachable (clientSide ρ) s) {j : ℕ}
    (hc : s.clients[j]? = some c) : Usable c :=
  usable_of_walk ((components ρ).walk_of_reachable hs hc)

/-! ### The runs of one client -/

/-- The machine of a specialisation. -/
def machineOf (ρ : Type) [Inhabited ρ] (type : ClientType) (callback : Bool) :
    Machine (Client ρ) (ClientAction ρ) ClientFatal :=
  match type with
  | .normalRpc => unary ρ callback
  | .serverStreaming => streaming ρ callback

/-- `WriteAsync` is called only once. -/
def WritesOnce (c : AsyncClient ρ) (b : ClientStep ρ) : Prop :=
  b = .write → c.client.responseReader = false

theorem init_of_writeAsync {callback : Bool} (h : c.client = .construct callback) :
    c.writeAsync.type = c.type ∧ c.writeAsync.client = (machineOf ρ c.type callback).init := by
  unfold AsyncClient.writeAsync
  split
  · next ht => exact ⟨rfl, by rw [ht, h]; rfl⟩
  · next ht => exact ⟨rfl, by rw [ht, h]; rfl⟩

theorem step_of_proceed {b : ClientAction ρ} (hb : c.proceed b = some (.ok c')) (callback : Bool) :
    c'.type = c.type ∧ (machineOf ρ c.type callback).Step c.client b c'.client := by
  unfold AsyncClient.proceed at hb
  obtain ⟨r, hr, he⟩ := Option.map_eq_some_iff.mp hb
  obtain ⟨d', rfl, rfl⟩ := map_eq_ok.mp he
  refine ⟨rfl, ?_⟩
  split at hr
  · next ht =>
    rw [ht]
    exact hr
  · next ht =>
    rw [ht]
    exact hr

/-- **A client that is written to once does a run of its own machine**, once it is written to. -/
theorem client_runs {as : List (Action ρ)} (hr : Run (clientSide ρ) as s)
    (ha : Along (clientSide ρ) ((components ρ).Each WritesOnce) as) {j : ℕ}
    (hc : s.clients[j]? = some c) :
    ∃ callback, c.client = .construct callback ∨ Reachable (machineOf ρ c.type callback) c.client := by
  have hwalk := (components ρ).walk (Q := WritesOnce) (fun _ _ j c b hP => hP j c b) hr ha hc
  have hinv := Walk.inv (I := fun c : AsyncClient ρ => Usable c ∧ ∃ callback,
    c.client = .construct callback ∨ Reachable (machineOf ρ c.type callback) c.client ∧
      c.client.responseReader = true) ?_ ?_ hwalk
  · obtain ⟨-, callback, hf | ⟨hreach, -⟩⟩ := hinv
    · exact ⟨callback, Or.inl hf⟩
    · exact ⟨callback, Or.inr hreach⟩
  · rintro c ⟨callback, hf⟩
    exact ⟨usable_of_fresh ⟨callback, hf⟩, callback, Or.inl hf⟩
  · rintro c b c' ⟨hu, callback, hcl⟩ hq hs
    cases b with
    | write =>
      cases hs
      have hfresh : c.client = .construct callback :=
        hcl.resolve_right fun h => by cases h.2.symm.trans (hq rfl)
      obtain ⟨htype, hinit⟩ := init_of_writeAsync hfresh
      refine ⟨hu.writeAsync, callback, Or.inr ⟨?_, ?_⟩⟩
      · rw [htype, hinit]
        exact Run.init.reachable
      · unfold AsyncClient.writeAsync
        split <;> rfl
    | event b =>
      have hb := proceed_of_clientStep hs
      obtain ⟨c1, he, hreader, hu'⟩ := hu.proceed hb
      cases he
      have hreach : Reachable (machineOf ρ c.type callback) c.client := by
        rcases hcl with hf | ⟨h, -⟩
        · refine absurd ?_ (enabled_of_proceed hb)
          rw [hf]
          exact ⟨rfl, fun _ => rfl⟩
        · exact h
      obtain ⟨htype, hstep⟩ := step_of_proceed hb callback
      refine ⟨hu', callback, Or.inr ⟨?_, hreader⟩⟩
      rw [htype]
      exact hreach.step hstep

end AsyncGrpc.Client.Clients
