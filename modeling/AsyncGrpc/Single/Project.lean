import AsyncGrpc.Model.Server
import AsyncGrpc.Single.Moves

/-! # Every `Rpc` of a server walks by itself

`State.conn s r` is the `Rpc` number `r` of the server state `s` with its own waiting events, and
`actOf s a r` what the server step `a` is for it. `components` connects the two machines: the server
is a family of `Conn`s, each created as a listener and then moved by its own steps only. So whatever
is proved about the walks of one `Conn` holds of every `Rpc` in every run of the server. The
connection rests on `Routed`: an event waits in the queue its `Rpc` points to. -/

namespace AsyncGrpc.Single.Project

open AsyncGrpc.Lib.Runs AsyncGrpc.Model.Types AsyncGrpc.Model.Rpc AsyncGrpc.Model.Service
open AsyncGrpc.Model.Server AsyncGrpc.Single.Machine AsyncGrpc.Single.Moves

variable {μ : Type} {cfg : Config}

theorem eventQueue_of_fixed {a b : Rpc μ} (h : fixedPart a = fixedPart b) :
    a.eventQueue = b.eventQueue := congrArg (·.2.2.1) h

/-- The `Rpc` number `r` with its own waiting events. -/
def conn (s : State μ) (r : ℕ) : Option (Conn μ) :=
  s.cells[r]?.map fun c => ⟨c, pick r (s.eventQueues c.rpc.eventQueue)⟩

/-- What the step `a` of the server is for the `Rpc` number `r`. -/
def actOf (s : State μ) (a : Action μ) (r : ℕ) : Option (Step μ) :=
  match a with
  | .deliver r' t ok m => if r' = r then some (.deliver t ok m) else none
  | .handle q script =>
    match s.eventQueues q, s.cells[r]? with
    | (r', _) :: _, some c =>
      if r' = r then some (.handle (s.shuttingDown c.rpc.service) script) else none
    | _, _ => none
  | .lockWriter r' w => if r' = r then some (.lockWriter w) else none
  | .stepWriter r' i => if r' = r then some (.stepWriter i) else none
  | .stopServing _ => none

/-- Every event waits in the queue that its `Rpc` points to. -/
def Routed (s : State μ) : Prop :=
  ∀ q, ∀ p ∈ s.eventQueues q, ∃ c, s.cells[p.1]? = some c ∧ c.rpc.eventQueue = q

/-! ### The parts of a step -/

section Parts
variable {s : State μ} {r r' q : ℕ}

theorem conn_eq_some {l : Conn μ} : conn s r = some l ↔
    s.cells[r]? = some l.cell ∧ l.inbox = pick r (s.eventQueues l.cell.rpc.eventQueue) := by
  unfold conn
  rw [Option.map_eq_some_iff]
  constructor
  · rintro ⟨c, hc, rfl⟩; exact ⟨hc, rfl⟩
  · rintro ⟨hc, hi⟩; exact ⟨l.cell, hc, by rw [← hi]⟩

theorem conn_store_self {c0 : Cell μ} {c : Ctx μ} (h0 : s.cells[r]? = some c0) :
    conn (s.store r c) r = some (ofCtx (pick r (s.eventQueues c.rpc.eventQueue)) c) := by
  rw [conn_eq_some]
  have hlt : r < s.cells.length := (List.getElem?_eq_some_iff.mp h0).1
  refine ⟨?_, ?_⟩
  · simp [State.store, ofCtx, List.getElem?_set_self hlt]
  · simp [State.store, ofCtx]

theorem conn_store_of_ne {c : Ctx μ} (hne : r ≠ r') : conn (s.store r c) r' = conn s r' := by
  unfold conn State.store
  rw [List.getElem?_set_ne hne]
  rcases hc : s.cells[r']? with _ | c'
  · rfl
  · simp only [Option.map_some]
    by_cases hq : c'.rpc.eventQueue = c.rpc.eventQueue
    · rw [hq, Function.update_self, pick_append, pick_map_of_ne hne, List.append_nil]
    · rw [Function.update_of_ne hq]

theorem Routed.store {c0 : Cell μ} {c : Ctx μ} (h : Routed s) (h0 : s.cells[r]? = some c0)
    (hq : c.rpc.eventQueue = c0.rpc.eventQueue) : Routed (s.store r c) := by
  have hlt : r < s.cells.length := (List.getElem?_eq_some_iff.mp h0).1
  intro q p hp
  have hcell : ∀ c1, s.cells[p.1]? = some c1 → c1.rpc.eventQueue = q →
      ∃ c', (s.store r c).cells[p.1]? = some c' ∧ c'.rpc.eventQueue = q := by
    intro c1 h1 h2
    by_cases hr : r = p.1
    · subst hr
      rw [h0] at h1
      cases h1
      exact ⟨c.toCell, by simp [State.store, List.getElem?_set_self hlt], by rw [hq, h2]⟩
    · exact ⟨c1, by simp [State.store, List.getElem?_set_ne hr, h1], h2⟩
  by_cases hqq : q = c.rpc.eventQueue
  · subst hqq
    simp only [State.store, Function.update_self, List.mem_append, List.mem_map] at hp
    rcases hp with hp | ⟨e, -, rfl⟩
    · obtain ⟨c1, h1, h2⟩ := h _ p hp
      exact hcell c1 h1 h2
    · exact hcell c0 h0 hq.symm
  · simp only [State.store, Function.update_of_ne hqq] at hp
    obtain ⟨c1, h1, h2⟩ := h q p hp
    exact hcell c1 h1 h2

/-- The event at the head of the queue `q` is taken out. -/
theorem Routed.pop {e : RpcEvent} {rest : List (ℕ × RpcEvent)} (h : Routed s)
    (hq : s.eventQueues q = (r, e) :: rest) :
    Routed { s with eventQueues := Function.update s.eventQueues q rest } := by
  intro q' p hp
  by_cases hqq : q' = q
  · subst hqq
    simp only [Function.update_self] at hp
    exact h q' p (by rw [hq]; exact List.mem_cons_of_mem _ hp)
  · simp only [Function.update_of_ne hqq] at hp
    exact h q' p hp

theorem conn_pop_of_ne {e : RpcEvent} {rest : List (ℕ × RpcEvent)}
    (hq : s.eventQueues q = (r, e) :: rest) (hne : r ≠ r') :
    conn { s with eventQueues := Function.update s.eventQueues q rest } r' = conn s r' := by
  unfold conn
  rcases hc : s.cells[r']? with _ | c'
  · rfl
  · simp only [Option.map_some]
    by_cases hqq : c'.rpc.eventQueue = q
    · rw [hqq, Function.update_self, hq, pick_cons_of_ne hne]
    · rw [Function.update_of_ne hqq]

theorem addRpc_eq_ok {rpc : Rpc μ} {s' : State μ} (h : s.addRpc rpc = .ok s') :
    ∃ c, listen rpc = .ok c ∧ s' = { s with cells := s.cells ++ [c.toCell] } := by
  obtain ⟨c, hc, h2⟩ := bind_eq_ok.mp h
  cases h2
  exact ⟨c, hc, rfl⟩

theorem Routed.append (h : Routed s) (c : Cell μ) :
    Routed { s with cells := s.cells ++ [c] } := by
  intro q p hp
  obtain ⟨c1, h1, h2⟩ := h q p hp
  have hlt : p.1 < s.cells.length := (List.getElem?_eq_some_iff.mp h1).1
  exact ⟨c1, by rw [← h1]; exact List.getElem?_append_left hlt, h2⟩

theorem conn_append_old {c : Cell μ} {l : Conn μ} (h : conn s r = some l) :
    conn { s with cells := s.cells ++ [c] } r = some l := by
  rw [conn_eq_some] at h ⊢
  have hlt : r < s.cells.length := (List.getElem?_eq_some_iff.mp h.1).1
  exact ⟨by rw [← h.1]; exact List.getElem?_append_left hlt, h.2⟩

/-- A cell that was not there before is the one that was added, and no event is for it yet. -/
theorem conn_append_new (hr : Routed s) {c : Cell μ} {l : Conn μ} (h : conn s r = none)
    (h' : conn { s with cells := s.cells ++ [c] } r = some l) : l = ⟨c, []⟩ := by
  rw [conn_eq_some] at h'
  obtain ⟨h1, h2⟩ := h'
  have hge : s.cells.length ≤ r := by
    simpa [conn, List.getElem?_eq_none_iff] using h
  rw [List.getElem?_append_right hge] at h1
  have hr0 : r - s.cells.length = 0 := by
    have := (List.getElem?_eq_some_iff.mp h1).1
    simp only [List.length_singleton] at this
    omega
  rw [hr0] at h1
  have hc : c = l.cell := by simpa using h1
  have hnil : pick r (s.eventQueues l.cell.rpc.eventQueue) = [] := by
    unfold pick
    rw [List.filterMap_eq_nil_iff]
    intro p hp
    obtain ⟨c1, h3, -⟩ := hr _ p hp
    have hlt : p.1 < s.cells.length := (List.getElem?_eq_some_iff.mp h3).1
    rw [if_neg (by omega)]
  rw [hc, ← hnil, ← h2]

end Parts

/-! ### Listeners -/

/-- The cell of a listener. -/
def listening (rpc : Rpc μ) : Ctx μ :=
  startOp (.requestAsync rpc.rpcHandlerInfo.rpcType)
    { startOp .asyncNotifyWhenDone { newCell rpc with active := true, rpc := setPending .done true rpc }
      with rpc := setPending .newConnection true (setPending .done true rpc) }

/-- A new `Rpc` can always be added and registered. -/
theorem listen_newRpc (methodIndex completionQueue eventQueue : ℕ) (info : RpcHandlerInfo)
    (service : ℕ) :
    listen (newRpc methodIndex completionQueue eventQueue info service : Rpc μ) =
      .ok (listening (newRpc methodIndex completionQueue eventQueue info service)) := by
  obtain ⟨factory, ty, name⟩ := info
  cases ty <;> rfl

theorem fresh_listening (methodIndex completionQueue eventQueue : ℕ) (info : RpcHandlerInfo)
    (service : ℕ) {c : Ctx μ}
    (h : listen (newRpc methodIndex completionQueue eventQueue info service) = .ok c) :
    Fresh (⟨c.toCell, []⟩ : Conn μ) := by
  refine ⟨methodIndex, completionQueue, eventQueue, info, service, c, h, ?_⟩
  rw [listen_newRpc] at h
  cases h
  rfl

theorem fresh_eq {l : Conn μ} (h : Fresh l) :
    ∃ (methodIndex completionQueue eventQueue : ℕ) (info : RpcHandlerInfo) (service : ℕ),
      l = ofCtx [] (listening (newRpc methodIndex completionQueue eventQueue info service)) := by
  obtain ⟨methodIndex, completionQueue, eventQueue, info, service, c, hc, rfl⟩ := h
  rw [listen_newRpc] at hc
  cases hc
  exact ⟨methodIndex, completionQueue, eventQueue, info, service, rfl⟩

theorem fresh_history {l : Conn μ} (h : Fresh l) : ∃ ty, l.cell.history =
    [.start .asyncNotifyWhenDone, .start (.requestAsync ty)] := by
  obtain ⟨-, -, -, info, -, rfl⟩ := fresh_eq h
  exact ⟨info.rpcType, rfl⟩

/-- `HandleNewConnection` clones the `Rpc` exactly when the service is not shutting down. -/
theorem handle_new_eq {sd : Bool} {e : RpcEvent} {script : Script μ} {c c' : Ctx μ}
    {new : Option (Rpc μ)} (h : handle sd e script c = .ok (c', new)) :
    new = if sd = false ∧ e = .completion .newConnection then some (clone c'.rpc) else none := by
  cases e with
  | completion t =>
    cases t with
    | newConnection =>
      replace h : handleNewConnection sd (c.rpc.events .newConnection).ok script
        (pops .newConnection c) = .ok (c', new) := h
      unfold handleNewConnection at h
      cases sd with
      | true => cases h; rfl
      | false =>
        cases hok : (c.rpc.events .newConnection).ok <;> rw [hok] at h
        · cases h; rfl
        · obtain ⟨c1, -, h2⟩ := bind_eq_ok.mp h
          cases h2; rfl
    | _ =>
      obtain ⟨c1, -, h2⟩ := map_eq_ok.mp h
      cases h2
      simp
  | writeNeeded =>
    replace h : handleInternal sd script c = .ok (c', new) := h
    unfold handleInternal at h
    split at h
    · obtain ⟨c1, -, h2⟩ := map_eq_ok.mp h
      cases h2
      simp
    · cases h
      simp

/-- A listener that `HandleNewConnection` adds is a clone. -/
theorem handle_new {sd : Bool} {e : RpcEvent} {script : Script μ} {c c' : Ctx μ} {rpc : Rpc μ}
    (h : handle sd e script c = .ok (c', some rpc)) : rpc = clone c'.rpc := by
  have hnew := handle_new_eq h
  split_ifs at hnew
  exact Option.some.inj hnew

/-- The listener that `HandleNewConnection` adds for `rpc`, with the event queue `q`. -/
def relistener (q : ℕ) (rpc : Rpc μ) : Cell μ := (listening (setEventQueue q (clone rpc))).toCell

/-- What an event thread does with the next event. -/
theorem handleNext_eq_ok {q r : ℕ} {e : RpcEvent} {rest : List (ℕ × RpcEvent)} {script : Script μ}
    {c : Cell μ} {s s' : State μ} (h : handleNext cfg q r e rest script c s = .ok s') :
    ∃ c' new, handle (s.shuttingDown c.rpc.service) e script ⟨c, []⟩ = .ok (c', new) ∧
      let s1 := { s with eventQueues := Function.update s.eventQueues q rest }.store r c'
      (new = none ∧ s' = s1 ∨ new = some (clone c'.rpc) ∧
        s' = { s1 with
          selections := s.selections + 1
          cells := s1.cells ++ [relistener (cfg.eventQueueSelector s.selections) c'.rpc] }) := by
  obtain ⟨⟨c', new⟩, h1, h2⟩ := bind_eq_ok.mp h
  refine ⟨c', new, h1, ?_⟩
  cases new with
  | none => cases h2; exact Or.inl ⟨rfl, rfl⟩
  | some rpc =>
    obtain ⟨cl, h3, rfl⟩ := addRpc_eq_ok h2
    rw [handle_new h1] at h3
    cases (listen_newRpc _ _ _ _ _).symm.trans h3
    exact Or.inr ⟨congrArg some (handle_new h1), rfl⟩

theorem fresh_relistener (q : ℕ) (rpc : Rpc μ) : Fresh (⟨relistener q rpc, []⟩ : Conn μ) :=
  fresh_listening _ _ _ _ _ (listen_newRpc _ _ _ _ _)

/-! ### Starting -/

/-- Nothing has happened yet: every queue is empty and every `Rpc` listens. -/
def Started (s : State μ) : Prop :=
  (∀ q, s.eventQueues q = []) ∧ ∀ c ∈ s.cells, Fresh (⟨c, []⟩ : Conn μ)

theorem Started.startListening {service methodIndex completionQueue : ℕ} {info : RpcHandlerInfo}
    {s s' : State μ} (h : Started s)
    (hs : startListening cfg service methodIndex info s completionQueue = .ok s') : Started s' := by
  obtain ⟨cl, h1, rfl⟩ := addRpc_eq_ok hs
  refine ⟨h.1, fun c hc => ?_⟩
  rcases List.mem_append.mp hc with hc | hc
  · exact h.2 c hc
  · rw [List.mem_singleton.mp hc]
    exact fresh_listening _ _ _ _ _ h1

theorem started_start {s : State μ} (h : start cfg = .ok s) : Started s := by
  refine foldlM_inv (P := Started) (fun s p s1 hs h1 => ?_) ⟨fun _ => rfl, by simp [State.empty]⟩ h
  refine foldlM_inv (P := Started) (fun s p s1 hs h1 => ?_) hs h1
  exact foldlM_inv (P := Started) (fun s q s1 hs h1 => hs.startListening h1) hs h1

/-- Starting to serve does not fail. -/
theorem start_ok (cfg : Config) : ∃ s : State μ, start cfg = .ok s := by
  refine foldlM_ok (fun s p => foldlM_ok (fun s p => foldlM_ok (fun s q => ?_) _ s) _ s) _ _
  unfold startListening State.addRpc
  dsimp only
  rw [listen_newRpc]
  exact ⟨_, rfl⟩

theorem start_eq (cfg : Config) : start cfg = .ok (server μ cfg).init := by
  obtain ⟨s, hs⟩ : ∃ s : State μ, start cfg = .ok s := start_ok cfg
  simp [server, hs, Except.toOption]

theorem started_init : Started (server μ cfg).init := started_start (start_eq cfg)

/-! ### Steps -/

/-- What a step of the server does: it moves one `Rpc` by a step of its own (`own`), handles the
oldest event of a queue, with a new listener (`relistened`) or without (`handled`), or sets the flag
of a service. -/
inductive Stepped (s : State μ) : Action μ → State μ → Prop
  | own {a : Action μ} {r : ℕ} {c : Cell μ} {c' : Ctx μ} {b : Step μ} (hc : s.cells[r]? = some c)
      (hb : ∀ inbox, (⟨c, inbox⟩ : Conn μ).step b = some (.ok (ofCtx inbox c')))
      (ha : ∀ r', actOf s a r' = if r = r' then some b else none) : Stepped s a (s.store r c')
  | handled {q r : ℕ} {e : RpcEvent} {rest : List (ℕ × RpcEvent)} {script : Script μ} {c : Cell μ}
      {c' : Ctx μ} {new : Option (Rpc μ)} (hq : s.eventQueues q = (r, e) :: rest)
      (hc : s.cells[r]? = some c)
      (hh : handle (s.shuttingDown c.rpc.service) e script ⟨c, []⟩ = .ok (c', new)) :
      Stepped s (.handle q script)
        ({ s with eventQueues := Function.update s.eventQueues q rest }.store r c')
  | relistened {a : Action μ} {s1 : State μ} {n : ℕ} {cl : Cell μ} (h : Stepped s a s1)
      (hf : Fresh (⟨cl, []⟩ : Conn μ)) :
      Stepped s a { s1 with selections := n, cells := s1.cells ++ [cl] }
  | stopped {service : ℕ} :
      Stepped s (.stopServing service)
        { s with shuttingDown := Function.update s.shuttingDown service true }

section Steps
variable {s s' : State μ} {a : Action μ} {r : ℕ}

/-- A step that is neither the handling of an event nor the end of a service moves one `Rpc`. -/
theorem own_of_step (h : (server μ cfg).Step s a s') (hh : ∀ q script, a ≠ .handle q script)
    (hstop : ∀ service, a ≠ .stopServing service) :
    ∃ (r : ℕ) (c : Cell μ) (c' : Ctx μ) (b : Step μ), s.cells[r]? = some c ∧
      (∀ inbox, (⟨c, inbox⟩ : Conn μ).step b = some (.ok (ofCtx inbox c'))) ∧
      (∀ r', actOf s a r' = if r = r' then some b else none) ∧ s' = s.store r c' := by
  replace h : step cfg s a = some (.ok s') := h
  unfold step at h
  cases a with
  | deliver r t ok m =>
    dsimp only at h
    split at h
    · next c hc =>
      split_ifs at h with hd
      cases h
      exact ⟨r, c, _, .deliver t ok m, hc, fun inbox => by simp [Conn.step, hd, ofCtx],
        fun r' => rfl, rfl⟩
    · cases h
  | handle q script => exact absurd rfl (hh q script)
  | lockWriter r w =>
    dsimp only at h
    split at h
    · next c hc =>
      split_ifs at h with hw
      cases h
      exact ⟨r, c, _, .lockWriter w, hc, fun inbox => by simp [Conn.step, hw, ofCtx],
        fun r' => rfl, rfl⟩
    · cases h
  | stepWriter r i =>
    dsimp only at h
    split at h
    · next c hc =>
      split at h
      · next k hk =>
        split_ifs at h with hh
        obtain ⟨c', h1, rfl⟩ := map_eq_ok.mp (Option.some.inj h)
        refine ⟨r, c, c', .stepWriter i, hc, fun inbox => ?_, fun r' => rfl, rfl⟩
        simp only [Conn.step, hk, hh, h1]
        rfl
      · cases h
    · cases h
  | stopServing service => exact absurd rfl (hstop service)

/-- An event thread handles the oldest event of its queue. -/
theorem handleNext_of_step {q : ℕ} {script : Script μ}
    (h : (server μ cfg).Step s (.handle q script) s') :
    ∃ (r : ℕ) (e : RpcEvent) (rest : List (ℕ × RpcEvent)) (c : Cell μ),
      s.eventQueues q = (r, e) :: rest ∧ s.cells[r]? = some c ∧
        handleNext cfg q r e rest script c s = .ok s' := by
  replace h : step cfg s (.handle q script) = some (.ok s') := h
  unfold step at h
  dsimp only at h
  split at h
  · cases h
  · next r e rest hq =>
    split at h
    · next c hc => exact ⟨r, e, rest, c, hq, hc, Option.some.inj h⟩
    · cases h

theorem stepped_of_step (h : (server μ cfg).Step s a s') : Stepped s a s' := by
  cases a with
  | handle q script =>
    obtain ⟨r, e, rest, c, hq, hc, hn⟩ := handleNext_of_step h
    obtain ⟨c', new, h1, ⟨-, rfl⟩ | ⟨-, rfl⟩⟩ := handleNext_eq_ok hn
    · exact .handled hq hc h1
    · exact (Stepped.handled hq hc h1).relistened (fresh_relistener _ _)
  | stopServing service => cases h; exact .stopped
  | _ =>
    obtain ⟨r, c, c', b, hc, hb, ha, rfl⟩ := own_of_step h (by simp) (by simp)
    exact .own hc hb ha

theorem Stepped.routed (hR : Routed s) (h : Stepped s a s') : Routed s' := by
  induction h with
  | own hc hb ha => exact hR.store hc (eventQueue_of_fixed (moved_of_step (hb [])).fixed)
  | handled hq hc hh =>
    exact (hR.pop hq).store hc (eventQueue_of_fixed (handled_of_handle hh).fixed)
  | relistened _ _ ih => exact ih.append _
  | stopped => exact hR

theorem routed_of_reachable (h : Reachable (server μ cfg) s) : Routed s := by
  refine inv_of_reachable (M := server μ cfg) ?_
    (fun s a s' hR hs => (stepped_of_step hs).routed hR) h
  intro q p hp
  rw [started_init.1 q] at hp
  simp at hp

/-- What a step of the server is for an `Rpc` that exists. -/
theorem Stepped.old (hR : Routed s) (h : Stepped s a s') {l : Conn μ} (hl : conn s r = some l) :
    ∃ l', conn s' r = some l' ∧ Follows Conn.step l (actOf s a r) l' := by
  obtain ⟨hcell, hin⟩ := conn_eq_some.mp hl
  induction h with
  | @own a r0 c c' b hc hb ha =>
    rw [ha r]
    by_cases hr : r0 = r
    · subst hr
      rw [hc] at hcell
      cases hcell
      refine ⟨_, conn_store_self hc, ?_⟩
      rw [if_pos rfl]
      have hfix : c'.rpc.eventQueue = l.cell.rpc.eventQueue :=
        eventQueue_of_fixed (moved_of_step (hb [])).fixed
      rw [hfix, ← hin]
      exact hb l.inbox
    · exact ⟨l, by rw [conn_store_of_ne hr, hl], by rw [if_neg hr]; rfl⟩
  | @handled q r0 e rest script c c' new hq hc hh =>
    simp only [actOf, hq, hcell]
    by_cases hr : r0 = r
    · subst hr
      rw [hc] at hcell
      cases hcell
      have hqc : l.cell.rpc.eventQueue = q := by
        obtain ⟨c1, h1, h2⟩ := hR q (r0, e) (by rw [hq]; simp)
        rw [hc] at h1
        cases h1
        exact h2
      have hfix : c'.rpc.eventQueue = q :=
        (eventQueue_of_fixed (handled_of_handle hh).fixed).trans hqc
      refine ⟨_, conn_store_self hc, ?_⟩
      rw [if_pos rfl, hfix]
      dsimp only
      rw [Function.update_self]
      have hi : l.inbox = e :: pick r0 rest := by rw [hin, hqc, hq, pick_cons_self]
      unfold Follows Conn.step
      dsimp only
      rw [hi]
      dsimp only
      rw [hh]
      rfl
    · refine ⟨l, ?_, by rw [if_neg hr]; rfl⟩
      rw [conn_store_of_ne hr, conn_pop_of_ne hq hr, hl]
  | relistened _ _ ih =>
    obtain ⟨l', h1, h2⟩ := ih
    exact ⟨l', conn_append_old h1, h2⟩
  | stopped => exact ⟨l, hl, rfl⟩

/-- An `Rpc` that appears with a step of the server is a new listener. -/
theorem Stepped.new (hR : Routed s) (h : Stepped s a s') (hn : conn s r = none) {l : Conn μ}
    (hl : conn s' r = some l) : Fresh l := by
  have hnone : s.cells[r]? = none := by simpa [conn] using hn
  have hstore : ∀ (s1 : State μ) (r0 : ℕ) (c' : Ctx μ), s1.cells = s.cells →
      conn (s1.store r0 c') r = none := by
    intro s1 r0 c' h1
    simp only [conn, State.store, h1, Option.map_eq_none_iff, List.getElem?_eq_none_iff,
      List.length_set]
    exact List.getElem?_eq_none_iff.mp hnone
  induction h with
  | own => cases (hstore s _ _ rfl).symm.trans hl
  | @handled q _ _ rest =>
    cases (hstore { s with eventQueues := Function.update s.eventQueues q rest } _ _ rfl).symm.trans
      hl
  | @relistened a s1 n cl h hf ih =>
    rcases h1 : conn s1 r with _ | l1
    · have hl' := conn_append_new (h.routed hR) h1 hl
      rw [hl']
      exact hf
    · cases (show conn { s1 with selections := n, cells := s1.cells ++ [cl] } r = some l1 from
        conn_append_old h1).symm.trans hl
      exact ih h1
  | stopped => cases hn.symm.trans (show conn s r = some l from hl)

end Steps

/-! ### The server as a family of `Rpc`s -/

theorem init_fresh {r : ℕ} {l : Conn μ} (h : conn (server μ cfg).init r = some l) : Fresh l := by
  obtain ⟨h1, h2⟩ := conn_eq_some.mp h
  obtain ⟨hq, hf⟩ : Started (server μ cfg).init := started_init
  have hl : l = ⟨l.cell, []⟩ := by rw [hq, pick_nil] at h2; rw [← h2]
  rw [hl]
  exact hf l.cell (List.mem_of_getElem? h1)

/-- **The server is a family of `Rpc`s**, each of which starts as a listener and then moves by its
own steps only. -/
def components (μ : Type) (cfg : Config) : Components (server μ cfg) ℕ (Conn μ) (Step μ) where
  Fresh := Fresh
  lstep := Conn.step
  proj := conn
  act := actOf
  init_fresh := fun _ _ h => init_fresh h
  step_new := fun _ _ _ hr hs _ hn _ hl => (stepped_of_step hs).new (routed_of_reachable hr) hn hl
  step_old := fun _ _ _ hr hs _ _ hl => (stepped_of_step hs).old (routed_of_reachable hr) hl

/-- The states one `Rpc` can be in. -/
abbrev Walks (Q : Conn μ → Step μ → Prop) : Conn μ → Prop := Walk Fresh Conn.step Q

theorem walks_of_reachable {s : State μ} (h : Reachable (server μ cfg) s) {r : ℕ} {l : Conn μ}
    (hl : conn s r = some l) : Walks (fun _ _ => True) l :=
  (components μ cfg).walk_of_reachable h hl

/-- An `Rpc` seen from the server. -/
theorem conn_of_cell {s : State μ} {r : ℕ} {c : Cell μ} (hc : s.cells[r]? = some c) :
    conn s r = some ⟨c, pick r (s.eventQueues c.rpc.eventQueue)⟩ := by
  simp [conn, hc]

theorem forall_conn {s : State μ} {G : Cell μ → Prop} :
    (∀ r l, conn s r = some l → G l.cell) ↔ ∀ (r : ℕ) (c : Cell μ), s.cells[r]? = some c → G c :=
  ⟨fun h r _ hc => h r _ (conn_of_cell hc), fun h r _ hl => h r _ (conn_eq_some.mp hl).1⟩

/-- The events of an `Rpc` are where it looks for them. -/
theorem mem_inbox {s : State μ} (h : Reachable (server μ cfg) s) {r q : ℕ} {l : Conn μ}
    (hl : conn s r = some l) {e : RpcEvent} (hm : (r, e) ∈ s.eventQueues q) :
    e ∈ l.inbox ∧ q = l.cell.rpc.eventQueue := by
  obtain ⟨h1, h2⟩ := conn_eq_some.mp hl
  obtain ⟨c, h3, h4⟩ := routed_of_reachable h q (r, e) hm
  rw [h1] at h3
  cases h3
  rw [h2, mem_pick, h4]
  exact ⟨hm, rfl⟩

/-- A step of the server leaves an `Rpc` alone or moves it. -/
theorem moved_or_eq {s s' : State μ} {a : Action μ} (h : Reachable (server μ cfg) s)
    (hs : (server μ cfg).Step s a s') {r : ℕ} {l : Conn μ} (hl : conn s r = some l) :
    ∃ l', conn s' r = some l' ∧
      (actOf s a r = none ∧ l' = l ∨ ∃ b, actOf s a r = some b ∧ Moved l b l') := by
  obtain ⟨l', hl', hf⟩ := (stepped_of_step hs).old (routed_of_reachable h) hl
  refine ⟨l', hl', ?_⟩
  rcases hb : actOf s a r with _ | b
  · rw [hb] at hf
    exact Or.inl ⟨rfl, hf⟩
  · rw [hb] at hf
    exact Or.inr ⟨b, rfl, moved_of_step hf⟩

/-- The oldest event of a queue is the oldest event of its `Rpc`. -/
theorem conn_head {s : State μ} (h : Reachable (server μ cfg) s) {q r : ℕ} {e : RpcEvent}
    {rest : List (ℕ × RpcEvent)} (hq : s.eventQueues q = (r, e) :: rest) :
    ∃ c, s.cells[r]? = some c ∧ conn s r = some ⟨c, e :: pick r rest⟩ := by
  obtain ⟨c, hc, hcq⟩ := routed_of_reachable h q (r, e) (by rw [hq]; simp)
  refine ⟨c, hc, ?_⟩
  rw [conn_of_cell hc, hcq, hq, pick_cons_self]

theorem actOf_handle {s : State μ} {q r : ℕ} {e : RpcEvent} {rest : List (ℕ × RpcEvent)}
    {script : Script μ} {c : Cell μ} (hq : s.eventQueues q = (r, e) :: rest)
    (hc : s.cells[r]? = some c) :
    actOf s (.handle q script) r = some (.handle (s.shuttingDown c.rpc.service) script) := by
  simp [actOf, hq, hc]

/-- An `Rpc` handles an event when it is at the head of its queue. -/
theorem exists_of_actOf {s : State μ} {a : Action μ} {r : ℕ} {sd : Bool} {script : Script μ}
    {c : Cell μ} (h : actOf s a r = some (.handle sd script)) (hc : s.cells[r]? = some c) :
    ∃ q e rest, a = .handle q script ∧ s.eventQueues q = (r, e) :: rest ∧
      sd = s.shuttingDown c.rpc.service := by
  cases a with
  | handle q script' =>
    rcases hq : s.eventQueues q with _ | ⟨⟨r', e⟩, rest⟩
    · simp [actOf, hq] at h
    · simp only [actOf, hq, hc] at h
      split_ifs at h with hr
      cases h
      subst hr
      exact ⟨q, e, rest, rfl, hq, rfl⟩
  | deliver r' => simp [actOf] at h
  | lockWriter r' => simp [actOf] at h
  | stepWriter r' => simp [actOf] at h
  | stopServing => simp [actOf] at h

/-- Handling the oldest event of a queue, as the `Rpc` of the event sees it. -/
theorem handled_of_step {s s' : State μ} (h : Reachable (server μ cfg) s) {q r : ℕ} {e : RpcEvent}
    {rest : List (ℕ × RpcEvent)} {script : Script μ} (hq : s.eventQueues q = (r, e) :: rest)
    (hs : (server μ cfg).Step s (.handle q script) s') :
    ∃ (c : Cell μ) (c' : Ctx μ), conn s r = some ⟨c, e :: pick r rest⟩ ∧
      conn s' r = some (ofCtx (pick r rest) c') ∧
      Handled (s.shuttingDown c.rpc.service) e ⟨c, []⟩ c' := by
  obtain ⟨c, hc, hl⟩ := conn_head h hq
  have hb : actOf s (.handle q script) r = _ := actOf_handle hq hc
  obtain ⟨l', hl', ⟨hnone, -⟩ | ⟨b, hb', hm⟩⟩ := moved_or_eq h hs hl
  · cases hb.symm.trans hnone
  cases hb.symm.trans hb'
  cases hm with
  | handled hi hh =>
    obtain ⟨rfl, rfl⟩ := List.cons.inj hi
    exact ⟨c, _, hl, hl', hh⟩

theorem cell_of_conn {s : State μ} {r : ℕ} {l : Conn μ} {c : Cell μ} (hl : conn s r = some l)
    (hc : s.cells[r]? = some c) : l.cell = c :=
  Option.some.inj ((conn_eq_some.mp hl).1.symm.trans hc)

/-- **The server aborts only in a step of one `Rpc`.** -/
theorem step_of_aborts {s : State μ} {a : Action μ} {f : Fatal} (h : Reachable (server μ cfg) s)
    (ha : (server μ cfg).Aborts s a f) :
    ∃ r l b, conn s r = some l ∧ actOf s a r = some b ∧ l.step b = some (.error f) := by
  replace ha : step cfg s a = some (.error f) := ha
  unfold step at ha
  cases a with
  | deliver r t ok m =>
    dsimp only at ha
    split at ha
    · split_ifs at ha
      cases ha
    · cases ha
  | handle q script =>
    dsimp only at ha
    split at ha
    · cases ha
    · next r e rest hq =>
      obtain ⟨c, hc, hl⟩ := conn_head h hq
      rw [hc] at ha
      refine ⟨r, _, .handle (s.shuttingDown c.rpc.service) script, hl, ?_, ?_⟩
      · simp [actOf, hq, hc]
      · rcases bind_eq_error.mp (Option.some.inj ha) with h1 | ⟨⟨c', new⟩, h1, h2⟩
        · exact congrArg some (map_eq_error.mpr h1)
        · -- the new listener can always be added
          cases new with
          | none => cases h2
          | some rpc =>
            rw [handle_new h1] at h2
            rcases bind_eq_error.mp h2 with h3 | ⟨_, -, h3⟩
            · cases (listen_newRpc _ _ _ _ _).symm.trans h3
            · cases h3
  | lockWriter r w =>
    dsimp only at ha
    split at ha
    · split_ifs at ha
      cases ha
    · cases ha
  | stepWriter r i =>
    dsimp only at ha
    split at ha
    · next c hc =>
      split at ha
      · next k hk =>
        split_ifs at ha with hh
        refine ⟨r, _, .stepWriter i, conn_of_cell hc, by simp [actOf], ?_⟩
        have h1 := map_eq_error.mp (Option.some.inj ha)
        simp only [Conn.step, hk, hh, h1]
        rfl
      · cases ha
    · cases ha
  | stopServing service => cases ha

/-- **Induction over the steps of one `Rpc`.** -/
theorem Walks.inv {Q : Conn μ → Step μ → Prop} {I : Conn μ → Prop} (h0 : ∀ l, Fresh l → I l)
    (hstep : ∀ l b l', I l → Q l b → Moved l b l' → I l') {l : Conn μ} (h : Walks Q l) : I l :=
  Walk.inv h0 (fun l b l' hi hq hs => hstep l b l' hi hq (moved_of_step hs)) h

end AsyncGrpc.Single.Project
