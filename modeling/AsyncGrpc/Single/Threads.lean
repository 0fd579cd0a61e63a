import AsyncGrpc.Server.EventThreads
import AsyncGrpc.Single.Tasks

/-! # Every `Rpc` of a server with event threads is interleaved by itself

`busy s r` is the `Rpc` number `r` with its own waiting events and what the thread of its event queue
is at, and `stepOf s a r` what the step `a` of the server is for it. `threadComponents` connects the two
machines, as `Single.Project` does where events are handled in one go: whatever the threads of a server
do, every `Rpc` goes through a run of `Single.EventThread` (`interleaved_of_reachable`), and a step that
aborts is one of an `Rpc` (`aborts_of_threaded`). The connection rests on `Assigned`: a thread handles
events of its own queue only. -/

namespace AsyncGrpc.Single.Threads

open AsyncGrpc.Lib.Runs AsyncGrpc.Model.Types AsyncGrpc.Model.Rpc AsyncGrpc.Model.Service
open AsyncGrpc.Model.Server AsyncGrpc.Server.EventThreads
open AsyncGrpc.Single.Machine AsyncGrpc.Single.Moves AsyncGrpc.Single.EventThread
open AsyncGrpc.Single.Interleaving AsyncGrpc.Single.Spans AsyncGrpc.Single.Tasks
open AsyncGrpc.Single.Project (conn actOf Routed conn_eq_some conn_store_self conn_store_of_ne
  conn_pop_of_ne conn_append_old conn_append_new conn_of_cell eventQueue_of_fixed relistener
  fresh_relistener listen_newRpc started_init init_fresh)

variable {μ : Type} {cfg : Config} {s s' : Threaded μ} {a : ThreadStep μ} {q r : ℕ}

/-- The `Rpc` number `r` when the thread of its event queue is `t`. -/
def viewed (t : EventThread) (r : ℕ) (l : Conn μ) : Busy μ :=
  if t.rpc = r then ⟨⟨l.cell, l.inbox⟩, t.todo, t.inside⟩ else idle l

/-- The `Rpc` number `r` with its own waiting events and what its event thread is at. -/
def busy (s : Threaded μ) (r : ℕ) : Option (Busy μ) :=
  (conn s.state r).map fun l => viewed (s.threads l.cell.rpc.eventQueue) r l

/-- What the step `a` of the server is for the `Rpc` number `r`. -/
def stepOf (s : Threaded μ) (a : ThreadStep μ) (r : ℕ) : Option (BusyStep μ) :=
  match a with
  | .takeUp q =>
    match s.state.eventQueues q, s.state.cells[r]? with
    | (r', _) :: _, some c =>
      if r' = r then some (.takeUp (s.state.shuttingDown c.rpc.service)) else none
    | _, _ => none
  | .goOn q => if (s.threads q).rpc = r then some .goOn else none
  | .call q k => if (s.threads q).rpc = r then some (.call k) else none
  | .other (.deliver r' t ok m) => if r' = r then some (.deliver t ok m) else none
  | .other (.lockWriter r' w) => if r' = r then some (.lockWriter w) else none
  | .other (.stepWriter r' i) => if r' = r then some (.stepWriter i) else none
  | .other _ => none

/-- The steps of an event thread in the middle of an event. -/
def workOf : ThreadStep μ → Option (ℕ × BusyStep μ)
  | .goOn q => some (q, .goOn)
  | .call q k => some (q, .call k)
  | _ => none

/-- The `Rpc` number `r` points to the event queue `q`. -/
def PointsTo (s : State μ) (r q : ℕ) : Prop := ∃ c, s.cells[r]? = some c ∧ c.rpc.eventQueue = q

/-- A thread that does not wait handles an event of an `Rpc` that points to its queue. -/
def Assigned (s : Threaded μ) : Prop :=
  ∀ q, (s.threads q).waits = true ∨ PointsTo s.state (s.threads q).rpc q

/-! ### What a thread shows of an `Rpc` -/

section Views
variable {t : EventThread} {l : Conn μ} {b : Busy μ}

theorem waits_iff : t.waits = true ↔ t.todo = [] ∧ t.inside = none := by
  simp [EventThread.waits]

theorem viewed_of_waits (h : t.waits = true) : viewed t r l = idle l := by
  obtain ⟨h1, h2⟩ := waits_iff.mp h
  unfold viewed
  split_ifs
  · rw [h1, h2]
    rfl
  · rfl

theorem viewed_of_ne (h : t.rpc ≠ r) : viewed t r l = idle l := if_neg h

theorem viewed_of_eq (h : t.rpc = r) : viewed t r l = ⟨⟨l.cell, l.inbox⟩, t.todo, t.inside⟩ := if_pos h

theorem busy_eq_some : busy s r = some b ↔
    ∃ l, conn s.state r = some l ∧ b = viewed (s.threads l.cell.rpc.eventQueue) r l := by
  unfold busy
  rw [Option.map_eq_some_iff]
  exact ⟨fun ⟨l, hl, hb⟩ => ⟨l, hl, hb.symm⟩, fun ⟨l, hl, hb⟩ => ⟨l, hl, hb.symm⟩⟩

theorem busy_of_conn (h : conn s.state r = some l) :
    busy s r = some (viewed (s.threads l.cell.rpc.eventQueue) r l) := by
  simp [busy, h]

/-- The thread of another `Rpc` turns to something else. -/
theorem viewed_update {threads : ℕ → EventThread} {p : ℕ} (hold : viewed (threads q) r l = idle l)
    (hnew : t.rpc ≠ r) : viewed (Function.update threads q t p) r l = viewed (threads p) r l := by
  by_cases hp : p = q
  · subst hp
    rw [Function.update_self, viewed_of_ne hnew, hold]
  · rw [Function.update_of_ne hp]

end Views

/-! ### What a step does -/

/-- The state after the thread of the queue `q` has got to `b`. -/
def worked (cfg : Config) (s : Threaded μ) (q : ℕ) (b : Busy μ) : Threaded μ :=
  let t := s.threads q
  let state := s.state.store t.rpc b.ctx
  ⟨if t.next = some (.use .clone) then
      { state with
        selections := s.state.selections + 1
        cells := state.cells ++ [relistener (cfg.eventQueueSelector s.state.selections) b.ctx.rpc] }
    else state, Function.update s.threads q ⟨t.rpc, b.todo, b.inside⟩⟩

/-- A clone can always be added. -/
theorem relisten_eq (rpc : Rpc μ) (s : State μ) :
    relisten cfg (clone rpc) s = .ok { s with
      selections := s.selections + 1
      cells := s.cells ++ [relistener (cfg.eventQueueSelector s.selections) rpc] } := by
  unfold relisten State.selectEventQueue State.addRpc
  have hlisten : listen (setEventQueue (cfg.eventQueueSelector s.selections) (clone rpc)) =
      .ok (Project.listening (setEventQueue (cfg.eventQueueSelector s.selections) (clone rpc))) :=
    listen_newRpc _ _ _ _ _
  dsimp only
  rw [hlisten]
  rfl

theorem work_eq {b : BusyStep μ} {c : Cell μ} (hc : s.state.cells[(s.threads q).rpc]? = some c) :
    s.work cfg q b = (Busy.step ⟨⟨c, []⟩, (s.threads q).todo, (s.threads q).inside⟩ b).map
      (worked cfg s q <$> ·) := by
  unfold Threaded.work
  simp only [hc]
  congr 1
  funext x
  cases x with
  | error f => rfl
  | ok b' =>
    show _ = Except.ok (worked cfg s q b')
    by_cases hn : (s.threads q).next = some (.use .clone)
    · simp only [worked, hn, if_true]
      show (relisten cfg (clone b'.ctx.rpc) _ >>= _) = _
      rw [relisten_eq]
      rfl
    · simp only [worked, hn, if_false]
      rfl

/-- The ways a step goes on. -/
inductive Went (s : Threaded μ) : ThreadStep μ → Threaded μ → Prop
  | takenUp {q r : ℕ} {e : RpcEvent} {rest : List (ℕ × RpcEvent)} {c : Cell μ}
      (hq : s.state.eventQueues q = (r, e) :: rest) (hc : s.state.cells[r]? = some c)
      (hw : (s.threads q).waits = true) :
      Went s (.takeUp q)
        ⟨{ s.state with eventQueues := Function.update s.state.eventQueues q rest }.store r
            (takeUp (s.state.shuttingDown c.rpc.service) e ⟨c, []⟩).1,
          Function.update s.threads q
            ⟨r, (takeUp (s.state.shuttingDown c.rpc.service) e ⟨c, []⟩).2, none⟩⟩
  | worked {a : ThreadStep μ} {q : ℕ} {b : BusyStep μ} {c : Cell μ} {b' : Busy μ}
      (ha : workOf a = some (q, b)) (hc : s.state.cells[(s.threads q).rpc]? = some c)
      (hb : Busy.step ⟨⟨c, []⟩, (s.threads q).todo, (s.threads q).inside⟩ b = some (.ok b')) :
      Went s a ⟨s.state.store (s.threads q).rpc b'.ctx,
        Function.update s.threads q ⟨(s.threads q).rpc, b'.todo, b'.inside⟩⟩
  | relistened {a : ThreadStep μ} {s1 : Threaded μ} {n : ℕ} {cl : Cell μ} (h : Went s a s1)
      (hf : Fresh (⟨cl, []⟩ : Conn μ)) :
      Went s a ⟨{ s1.state with selections := n, cells := s1.state.cells ++ [cl] }, s1.threads⟩
  | other {a : Action μ} {s' : State μ} (hh : ∀ q script, a ≠ .handle q script)
      (h : Project.Stepped s.state a s') : Went s (.other a) ⟨s', s.threads⟩

section Steps

theorem work_cases {b : BusyStep μ} {x : Except Fatal (Threaded μ)} (h : s.work cfg q b = some x) :
    ∃ c y, s.state.cells[(s.threads q).rpc]? = some c ∧
      Busy.step ⟨⟨c, []⟩, (s.threads q).todo, (s.threads q).inside⟩ b = some y ∧
      x = Threads.worked cfg s q <$> y := by
  rcases hc : s.state.cells[(s.threads q).rpc]? with _ | c
  · simp [Threaded.work, hc] at h
  · rw [work_eq hc] at h
    obtain ⟨y, hy, rfl⟩ := Option.map_eq_some_iff.mp h
    exact ⟨c, y, rfl, hy, rfl⟩

theorem went_of_work {b : BusyStep μ} (ha : workOf a = some (q, b)) (h : s.work cfg q b = some (.ok s')) :
    Went s a s' := by
  obtain ⟨c, y, hc, hy, hx⟩ := work_cases h
  obtain ⟨b', rfl, rfl⟩ := map_eq_ok.mp hx.symm
  have hwent := Went.worked ha hc hy
  unfold Threads.worked
  dsimp only
  split_ifs
  · exact hwent.relistened (fresh_relistener _ _)
  · exact hwent

theorem went_of_takeUp (h : s.takeUp q = some s') : Went s (.takeUp q) s' := by
  unfold Threaded.takeUp at h
  split at h
  · cases h
  · next hq =>
    split at h
    · next hc =>
      split_ifs at h with hw
      cases h
      exact .takenUp hq hc hw
    · cases h

/-- A step that no event thread makes is one of the server by itself. -/
theorem other_cases {a : Action μ} {x : Except Fatal (Threaded μ)}
    (h : (threaded μ cfg).step s (.other a) = some x) :
    (∀ q script, a ≠ .handle q script) ∧
      ∃ y, (server μ cfg).step s.state a = some y ∧ x = (⟨·, s.threads⟩) <$> y := by
  have hmap (hh : ∀ q script, a ≠ .handle q script)
      (h : ((server μ cfg).step s.state a).map (fun y => (⟨·, s.threads⟩) <$> y) = some x) :
      (∀ q script, a ≠ .handle q script) ∧
        ∃ y, (server μ cfg).step s.state a = some y ∧ x = (⟨·, s.threads⟩) <$> y := by
    obtain ⟨y, hy, rfl⟩ := Option.map_eq_some_iff.mp h
    exact ⟨hh, y, hy, rfl⟩
  cases a with
  | handle => cases h
  | _ => exact hmap (by simp) h

theorem went_of_step (h : (threaded μ cfg).Step s a s') : Went s a s' := by
  cases a with
  | takeUp q =>
    obtain ⟨s1, h1, h2⟩ := Option.map_eq_some_iff.mp h
    cases h2
    exact went_of_takeUp h1
  | goOn q => exact went_of_work rfl h
  | call q k => exact went_of_work rfl h
  | other a =>
    obtain ⟨hh, y, hy, hx⟩ := other_cases h
    obtain ⟨st, rfl, rfl⟩ := map_eq_ok.mp hx.symm
    exact .other hh (Project.stepped_of_step hy)

/-- A thread that goes on does not wait. -/
theorem waits_of_work {b : BusyStep μ} {t : EventThread} {c : Ctx μ} {x : Except Fatal (Busy μ)}
    (ha : workOf a = some (q, b)) (hb : Busy.step ⟨c, t.todo, t.inside⟩ b = some x) : t.waits = false := by
  rw [Bool.eq_false_iff]
  intro hw
  obtain ⟨h1, h2⟩ := waits_iff.mp hw
  rw [h1, h2] at hb
  cases a with
  | goOn => cases ha; cases hb
  | call => cases ha; cases hb
  | takeUp => cases ha
  | other => cases ha

/-- A thread works for an `Rpc` that points to its queue. -/
theorem Assigned.queue (hA : Assigned s) {b : BusyStep μ} {c : Cell μ} {x : Except Fatal (Busy μ)}
    (ha : workOf a = some (q, b)) (hc : s.state.cells[(s.threads q).rpc]? = some c)
    (hb : Busy.step ⟨⟨c, []⟩, (s.threads q).todo, (s.threads q).inside⟩ b = some x) :
    c.rpc.eventQueue = q := by
  rcases hA q with hw | ⟨c1, h1, h2⟩
  · cases hw.symm.trans (waits_of_work ha hb)
  · cases hc.symm.trans h1
    exact h2

theorem Routed.queue {st : State μ} (hR : Routed st) {c : Cell μ} {e : RpcEvent}
    {rest : List (ℕ × RpcEvent)} (hq : st.eventQueues q = (r, e) :: rest) (hc : st.cells[r]? = some c) :
    c.rpc.eventQueue = q := by
  obtain ⟨c1, h1, h2⟩ := hR q (r, e) (by rw [hq]; exact List.mem_cons_self)
  cases hc.symm.trans h1
  exact h2

theorem eventQueue_of_step {b : BusyStep μ} {b0 b1 : Busy μ} (h : b0.step b = some (.ok b1)) :
    b1.ctx.rpc.eventQueue = b0.ctx.rpc.eventQueue :=
  eventQueue_of_fixed (stepped_of_step h).fixed

theorem eventQueue_takeUp (sd : Bool) (e : RpcEvent) (c : Ctx μ) :
    (takeUp sd e c).1.rpc.eventQueue = c.rpc.eventQueue :=
  eventQueue_of_fixed (kept_takeUp sd e c).fixed

end Steps

/-! ### Threads and queues -/

section Queues
variable {st st' : State μ} {i : ℕ}

theorem PointsTo.store {c0 : Cell μ} {c : Ctx μ} (h : PointsTo st i q) (h0 : st.cells[r]? = some c0)
    (hq : c.rpc.eventQueue = c0.rpc.eventQueue) : PointsTo (st.store r c) i q := by
  obtain ⟨c1, h1, h2⟩ := h
  have hlt : r < st.cells.length := (List.getElem?_eq_some_iff.mp h0).1
  by_cases hr : r = i
  · subst hr
    cases h0.symm.trans h1
    exact ⟨c.toCell, List.getElem?_set_self hlt, hq.trans h2⟩
  · exact ⟨c1, (List.getElem?_set_ne hr).trans h1, h2⟩

theorem PointsTo.append (h : PointsTo st i q) (c : Cell μ) (n : ℕ) :
    PointsTo { st with selections := n, cells := st.cells ++ [c] } i q := by
  obtain ⟨c1, h1, h2⟩ := h
  exact ⟨c1, List.getElem?_append_left (List.getElem?_eq_some_iff.mp h1).1 ▸ h1, h2⟩

theorem PointsTo.stepped {a : Action μ} (h : PointsTo st i q) (hs : Project.Stepped st a st') :
    PointsTo st' i q := by
  induction hs with
  | own hc hb => exact h.store hc (eventQueue_of_fixed (moved_of_step (hb [])).fixed)
  | @handled q' _ _ rest _ _ _ _ hq hc hh =>
    have hpop : PointsTo { st with eventQueues := Function.update st.eventQueues q' rest } i q := h
    exact hpop.store hc (eventQueue_of_fixed (handled_of_handle hh).fixed)
  | relistened _ _ ih => exact ih.append _ _
  | stopped => exact h

theorem Went.routed (hR : Routed s.state) (h : Went s a s') : Routed s'.state := by
  induction h with
  | takenUp hq hc => exact (hR.pop hq).store hc (eventQueue_takeUp _ _ _)
  | worked ha hc hb => exact hR.store hc (eventQueue_of_step hb)
  | relistened _ _ ih => exact ih.append _
  | other _ h => exact h.routed hR

/-- A step that keeps where the `Rpc`s point to, and after which the thread of `q` is `t`. -/
theorem Assigned.update (hA : Assigned s) {t : EventThread}
    (hkeep : ∀ i p, PointsTo s.state i p → PointsTo st i p) (ht : PointsTo st t.rpc q) :
    Assigned ⟨st, Function.update s.threads q t⟩ := by
  intro p
  by_cases hp : p = q
  · subst hp
    exact .inr (by simpa using ht)
  · simpa [Function.update_of_ne hp] using (hA p).imp_right (hkeep _ _)

theorem Went.assigned (hR : Routed s.state) (hA : Assigned s) (h : Went s a s') : Assigned s' := by
  induction h with
  | @takenUp q r e rest c hq hc hw =>
    have hkeep (i p : ℕ) (h : PointsTo s.state i p) :
        PointsTo ({ s.state with eventQueues := Function.update s.state.eventQueues q rest }.store r
          (takeUp (s.state.shuttingDown c.rpc.service) e ⟨c, []⟩).1) i p := by
      have hpop :
          PointsTo { s.state with eventQueues := Function.update s.state.eventQueues q rest } i p := h
      exact hpop.store hc (eventQueue_takeUp _ _ _)
    exact hA.update hkeep (hkeep _ _ ⟨c, hc, Routed.queue hR hq hc⟩)
  | worked ha hc hb =>
    have hkeep (i p : ℕ) (h : PointsTo s.state i p) := h.store hc (eventQueue_of_step hb)
    exact hA.update hkeep (hkeep _ _ ⟨_, hc, hA.queue ha hc hb⟩)
  | relistened _ _ ih => exact fun p => (ih p).imp_right fun h => h.append _ _
  | other _ h => exact fun p => (hA p).imp_right fun hp => hp.stepped h

/-- Events and threads are where they belong. -/
theorem routed_of_threaded (h : Reachable (threaded μ cfg) s) : Routed s.state ∧ Assigned s := by
  refine inv_of_reachable (M := threaded μ cfg) (I := fun s => Routed s.state ∧ Assigned s)
    ⟨?_, fun _ => .inl rfl⟩ (fun s a s' hi hs => ?_) h
  · exact Project.routed_of_reachable Run.init.reachable
  · have hwent := went_of_step hs
    exact ⟨hwent.routed hi.1, hwent.assigned hi.1 hi.2⟩

end Queues

/-! ### The server as a family of `Rpc`s -/

section Family
variable {b : Busy μ}

theorem stepOf_work {st : BusyStep μ} (ha : workOf a = some (q, st)) :
    stepOf s a r = if (s.threads q).rpc = r then some st else none := by
  cases a with
  | goOn => cases ha; rfl
  | call => cases ha; rfl
  | takeUp => cases ha
  | other => cases ha

theorem stepOf_takeUp {e : RpcEvent} {rest : List (ℕ × RpcEvent)} {p : ℕ} {c : Cell μ}
    (hq : s.state.eventQueues q = (p, e) :: rest) (hc : s.state.cells[r]? = some c) :
    stepOf s (.takeUp q) r =
      if p = r then some (.takeUp (s.state.shuttingDown c.rpc.service)) else none := by
  simp only [stepOf, hq, hc]

/-- What a step of the other threads is for an `Rpc`. -/
theorem stepOf_other {a : Action μ} (hh : ∀ q script, a ≠ .handle q script) :
    (actOf s.state a r = none ∧ stepOf s (.other a) r = none) ∨
      ∃ b st, actOf s.state a r = some b ∧ stepOf s (.other a) r = some st ∧ otherStep st = some b := by
  have hite {p : Prop} [Decidable p] {b : Step μ} {st : BusyStep μ} (ho : otherStep st = some b) :
      ((if p then some b else none) = none ∧ (if p then some st else none) = none) ∨
        ∃ b' st', (if p then some b else none) = some b' ∧ (if p then some st else none) = some st' ∧
          otherStep st' = some b' := by
    by_cases hp : p
    · exact .inr ⟨b, st, if_pos hp, if_pos hp, ho⟩
    · exact .inl ⟨if_neg hp, if_neg hp⟩
  cases a with
  | handle q script => exact absurd rfl (hh q script)
  | deliver => exact hite rfl
  | lockWriter => exact hite rfl
  | stepWriter => exact hite rfl
  | stopServing => exact .inl ⟨rfl, rfl⟩

theorem step_withFront {st : BusyStep μ} (ha : workOf a = some (q, st)) (front : List RpcEvent)
    (b : Busy μ) : (withFront front b).step st = (b.step st).map (withFront front <$> ·) := by
  cases a with
  | goOn => cases ha; exact alone_withFront front b b .goOn
  | call q k => cases ha; exact alone_withFront front b b (.call k)
  | takeUp => cases ha
  | other => cases ha

theorem Went.old_takenUp (hR : Routed s.state) {p : ℕ} {e : RpcEvent} {rest : List (ℕ × RpcEvent)}
    {c : Cell μ} (hq : s.state.eventQueues q = (p, e) :: rest) (hc : s.state.cells[p]? = some c)
    (hw : (s.threads q).waits = true) {l : Conn μ} (hl : conn s.state r = some l) :
    ∃ b', busy ⟨{ s.state with eventQueues := Function.update s.state.eventQueues q rest }.store p
          (takeUp (s.state.shuttingDown c.rpc.service) e ⟨c, []⟩).1,
        Function.update s.threads q
          ⟨p, (takeUp (s.state.shuttingDown c.rpc.service) e ⟨c, []⟩).2, none⟩⟩ r = some b' ∧
      Follows Busy.step (viewed (s.threads l.cell.rpc.eventQueue) r l) (stepOf s (.takeUp q) r) b' := by
  obtain ⟨hcell, hin⟩ := conn_eq_some.mp hl
  rw [stepOf_takeUp hq hcell]
  by_cases hp : p = r
  · subst hp
    cases hc.symm.trans hcell
    have hqc : l.cell.rpc.eventQueue = q := Routed.queue hR hq hc
    have hqc' := (eventQueue_takeUp (s.state.shuttingDown l.cell.rpc.service) e ⟨l.cell, []⟩).trans hqc
    have hi : l.inbox = e :: pick p rest := by rw [hin, hqc, hq, pick_cons_self]
    have hl1 : l = ⟨l.cell, e :: pick p rest⟩ := by rw [← hi]
    refine ⟨_, busy_of_conn (conn_store_self hc), ?_⟩
    rw [if_pos rfl, hqc, viewed_of_waits hw, hl1]
    refine (step_takeUp l.cell e (pick p rest) _).trans (congrArg (some ∘ Except.ok) ?_)
    rw [viewed_of_eq (by simp [ofCtx, hqc'])]
    simp only [ofCtx, hqc', Function.update_self]
    rfl
  · rw [if_neg hp]
    refine ⟨_, busy_of_conn ((conn_store_of_ne hp).trans ((conn_pop_of_ne hq hp).trans hl)), ?_⟩
    exact viewed_update (viewed_of_waits hw) hp

theorem Went.old_worked (hA : Assigned s) {st : BusyStep μ} {c : Cell μ} {b' : Busy μ}
    (ha : workOf a = some (q, st)) (hc : s.state.cells[(s.threads q).rpc]? = some c)
    (hb : Busy.step ⟨⟨c, []⟩, (s.threads q).todo, (s.threads q).inside⟩ st = some (.ok b'))
    {l : Conn μ} (hl : conn s.state r = some l) :
    ∃ b1, busy ⟨s.state.store (s.threads q).rpc b'.ctx,
        Function.update s.threads q ⟨(s.threads q).rpc, b'.todo, b'.inside⟩⟩ r = some b1 ∧
      Follows Busy.step (viewed (s.threads l.cell.rpc.eventQueue) r l) (stepOf s a r) b1 := by
  obtain ⟨hcell, hin⟩ := conn_eq_some.mp hl
  rw [stepOf_work ha]
  by_cases hp : (s.threads q).rpc = r
  · rw [hp] at hc
    cases hc.symm.trans hcell
    have hqc : l.cell.rpc.eventQueue = q := hA.queue ha (hp ▸ hc) hb
    have hqc' : b'.ctx.rpc.eventQueue = q := (eventQueue_of_step hb).trans hqc
    rw [hp]
    refine ⟨_, busy_of_conn (conn_store_self hc), ?_⟩
    rw [if_pos rfl, hqc, viewed_of_eq hp, viewed_of_eq (by simp [ofCtx, hqc'])]
    have hfront := step_withFront ha l.inbox ⟨⟨l.cell, []⟩, (s.threads q).todo, (s.threads q).inside⟩
    have hview : withFront l.inbox ⟨⟨l.cell, []⟩, (s.threads q).todo, (s.threads q).inside⟩ =
        ⟨⟨l.cell, l.inbox⟩, (s.threads q).todo, (s.threads q).inside⟩ := by
      simp [withFront, working, behind]
    rw [hview, hb] at hfront
    refine hfront.trans (congrArg (some ∘ Except.ok) ?_)
    simp only [ofCtx, hqc', Function.update_self]
    rw [hin, hqc]
    rfl
  · rw [if_neg hp]
    refine ⟨_, busy_of_conn ((conn_store_of_ne hp).trans hl), ?_⟩
    exact viewed_update (viewed_of_ne hp) hp

/-- What a step of the server is for an `Rpc` that exists. -/
theorem Went.old (hR : Routed s.state) (hA : Assigned s) (h : Went s a s') (hb : busy s r = some b) :
    ∃ b', busy s' r = some b' ∧ Follows Busy.step b (stepOf s a r) b' := by
  obtain ⟨l, hl, rfl⟩ := busy_eq_some.mp hb
  induction h with
  | takenUp hq hc hw => exact Went.old_takenUp hR hq hc hw hl
  | worked ha hc hb => exact Went.old_worked hA ha hc hb hl
  | relistened _ _ ih =>
    obtain ⟨b', h1, h2⟩ := ih
    obtain ⟨l', hl', rfl⟩ := busy_eq_some.mp h1
    exact ⟨_, busy_of_conn (conn_append_old hl'), h2⟩
  | other hh h =>
    obtain ⟨l', hl', hf⟩ := h.old hR hl
    refine ⟨_, busy_of_conn hl', ?_⟩
    rcases stepOf_other (s := s) (r := r) hh with ⟨h1, h2⟩ | ⟨b, st, h1, h2, h3⟩
    · rw [h1] at hf
      rw [h2, show l' = l from hf]
      rfl
    · rw [h1] at hf
      rw [h2, eventQueue_of_fixed (moved_of_step hf).fixed]
      unfold viewed
      split_ifs
      · exact step_other h3 hf
      · exact step_other h3 hf

/-- An `Rpc` that appears with a step of the server is a new listener. -/
theorem Went.new (hR : Routed s.state) (hA : Assigned s) (h : Went s a s') (hn : busy s r = none)
    (hb : busy s' r = some b) : ∃ l, Fresh l ∧ b = idle l := by
  have hnone : conn s.state r = none := by simpa [busy] using hn
  have hcell : s.state.cells.length ≤ r := by simpa [conn] using hnone
  have hstore (st : State μ) (p : ℕ) (c : Ctx μ) (hst : st.cells = s.state.cells) :
      conn (st.store p c) r = none := by
    simpa [conn, State.store, hst] using hcell
  obtain ⟨l, hl, rfl⟩ := busy_eq_some.mp hb
  induction h with
  | @takenUp q _ _ rest =>
    let st := { s.state with eventQueues := Function.update s.state.eventQueues q rest }
    cases (hstore st _ _ rfl).symm.trans hl
  | worked => cases (hstore s.state _ _ rfl).symm.trans hl
  | @relistened a s1 n cl h hf ih =>
    rcases h1 : conn s1.state r with _ | l1
    · have hl' := conn_append_new (h.routed hR) h1 hl
      subst hl'
      refine ⟨_, hf, ?_⟩
      rcases h.assigned hR hA cl.rpc.eventQueue with hw | ⟨c, hc, -⟩
      · exact viewed_of_waits hw
      · refine viewed_of_ne fun heq => ?_
        rw [heq] at hc
        simp [conn, hc] at h1
    · cases (show conn { s1.state with selections := n, cells := s1.state.cells ++ [cl] } r = some l1 from
        conn_append_old h1).symm.trans hl
      exact ih h1 (busy_of_conn h1)
  | other hh h =>
    refine ⟨l, h.new hR hnone hl, ?_⟩
    rcases hA l.cell.rpc.eventQueue with hw | ⟨c, hc, -⟩
    · exact viewed_of_waits hw
    · refine viewed_of_ne fun heq => ?_
      rw [heq] at hc
      simp [conn, hc] at hnone

/-- **The server with its event threads is a family of `Rpc`s**, each of which starts as a listener and
then moves by its own steps only. -/
def threadComponents (μ : Type) (cfg : Config) :
    Components (threaded μ cfg) ℕ (Busy μ) (BusyStep μ) where
  Fresh := fun b => ∃ l, Fresh l ∧ b = idle l
  lstep := Busy.step
  proj := busy
  act := stepOf
  init_fresh := fun r b h => by
    obtain ⟨l, hl, rfl⟩ := busy_eq_some.mp h
    exact ⟨l, init_fresh hl, viewed_of_waits rfl⟩
  step_new := fun s a s' hr hs r hn b hb =>
    (went_of_step hs).new (routed_of_threaded hr).1 (routed_of_threaded hr).2 hn hb
  step_old := fun s a s' hr hs r b hb =>
    (went_of_step hs).old (routed_of_threaded hr).1 (routed_of_threaded hr).2 hb

/-- Every `Rpc` goes through a run of its own. -/
theorem interleaved_of_reachable (h : Reachable (threaded μ cfg) s) (hb : busy s r = some b) :
    ∃ l0, Fresh l0 ∧ Reachable (interleaved l0) b := by
  have hwalk := (threadComponents μ cfg).walk_of_reachable h hb
  refine Walk.inv (I := fun b => ∃ l0, Fresh l0 ∧ Reachable (interleaved l0) b) ?_ ?_ hwalk
  · rintro _ ⟨l, hf, rfl⟩
    exact ⟨l, hf, Run.init.reachable⟩
  · rintro b st b' ⟨l0, hf, hr⟩ - hs
    exact ⟨l0, hf, hr.step hs⟩

/-- A step of the server leaves an `Rpc` alone or is one of its steps. -/
theorem step_or_eq {b' : Busy μ} (h : Reachable (threaded μ cfg) s) (hs : (threaded μ cfg).Step s a s')
    (hb : busy s r = some b) (hb' : busy s' r = some b') :
    stepOf s a r = none ∧ b' = b ∨ ∃ st, stepOf s a r = some st ∧ b.step st = some (.ok b') := by
  obtain ⟨b1, h1, hf⟩ := (threadComponents μ cfg).step_old s a s' h hs r b hb
  cases h1.symm.trans hb'
  rcases hst : (threadComponents μ cfg).act s a r with _ | st
  · rw [hst] at hf
    exact .inl ⟨hst, hf⟩
  · rw [hst] at hf
    exact .inr ⟨st, hst, hf⟩

/-- The steps of the server that are a step of the `Rpc` number `r`. -/
inductive ActsAs (s : Threaded μ) (r : ℕ) : ThreadStep μ → BusyStep μ → Prop
  | takeUp {q : ℕ} {e : RpcEvent} {rest : List (ℕ × RpcEvent)} {sd : Bool}
      (hq : s.state.eventQueues q = (r, e) :: rest) : ActsAs s r (.takeUp q) (.takeUp sd)
  | goOn {q : ℕ} (hr : (s.threads q).rpc = r) : ActsAs s r (.goOn q) .goOn
  | call {q : ℕ} {k : HandlerCall μ} (hr : (s.threads q).rpc = r) : ActsAs s r (.call q k) (.call k)
  | deliver {t : Tag} {ok : Bool} {m : μ} : ActsAs s r (.other (.deliver r t ok m)) (.deliver t ok m)
  | lockWriter {w : WriterMethod μ} : ActsAs s r (.other (.lockWriter r w)) (.lockWriter w)
  | stepWriter {i : ℕ} : ActsAs s r (.other (.stepWriter r i)) (.stepWriter i)

theorem actsAs_of_stepOf {st : BusyStep μ} (h : stepOf s a r = some st) : ActsAs s r a st := by
  unfold stepOf at h
  split at h
  · split at h
    · next hq hc =>
      split_ifs at h with hr
      cases h
      exact .takeUp (hr ▸ hq)
    · cases h
  · split_ifs at h with hr
    cases h
    exact .goOn hr
  · split_ifs at h with hr
    cases h
    exact .call hr
  · split_ifs at h with hr
    cases h
    exact hr ▸ .deliver
  · split_ifs at h with hr
    cases h
    exact hr ▸ .lockWriter
  · split_ifs at h with hr
    cases h
    exact hr ▸ .stepWriter
  · cases h

/-- The oldest event of a queue is the oldest event of its `Rpc`. -/
theorem outbox_of_queue (h : Reachable (threaded μ cfg) s) (hb : busy s r = some b) {e : RpcEvent}
    {rest : List (ℕ × RpcEvent)} (hq : s.state.eventQueues q = (r, e) :: rest) :
    b.ctx.outbox = e :: pick r rest := by
  obtain ⟨l, hl, rfl⟩ := busy_eq_some.mp hb
  obtain ⟨hc, hin⟩ := conn_eq_some.mp hl
  have hout : (viewed (s.threads l.cell.rpc.eventQueue) r l).ctx.outbox = l.inbox := by
    unfold viewed
    split_ifs <;> rfl
  rw [hout, hin, Routed.queue (routed_of_threaded h).1 hq hc, hq, pick_cons_self]

end Family

end AsyncGrpc.Single.Threads
