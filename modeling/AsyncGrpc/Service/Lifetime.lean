import AsyncGrpc.Single.Lifecycle

/-! # The lifetime of an `Rpc` in `ActiveRpcs`

When an entry leaves `ActiveRpcs`, and what is outstanding then: `RemoveIfNotPending` removes it only
with nothing outstanding, `HandleNewConnection` also with `DONE` outstanding when it refuses a
connection that gRPC has accepted. And why it does leave: an `Rpc` in `ActiveRpcs` waits for some
completion. -/

namespace AsyncGrpc.Service.Lifetime

open AsyncGrpc.Lib.Runs AsyncGrpc.Model.Types AsyncGrpc.Model.Rpc AsyncGrpc.Model.Service
open AsyncGrpc.Model.Server AsyncGrpc.Single.Machine AsyncGrpc.Single.Moves AsyncGrpc.Single.Project
open AsyncGrpc.Single.Lifecycle

variable {μ : Type} {cfg : Config}

/-! ### `RemoveIfNotPending` -/

section Removal
variable {sd : Bool} {e : RpcEvent} {c c' : Ctx μ} {l l' : Conn μ} {b : Step μ}

/-- The entry is removed where `site` says. -/
def RemovedBy (e : RpcEvent) (c' : Cell μ) : RemoveSite → Prop
  | .removeIfNotPending => c'.active = false ∧ anyPending c'.rpc = false
  | .handleNewConnection => c'.active = false ∧ e = .completion .newConnection

/-- `RemoveIfNotPending` removes an entry only when none of the flags it tests is set. -/
theorem handled_removes {site : RemoveSite} (hh : Handled sd e c c')
    (hm : .remove site ∈ c'.history) : .remove site ∈ c.history ∨ RemovedBy e c'.toCell site := by
  obtain ⟨c1, he, -, hback⟩ := hh.ended
  have hrefused : .remove site ∈ (remove .handleNewConnection c1).history →
      .remove site ∈ c.history ∨ site = .handleNewConnection := by
    intro h
    rw [remove_history, List.mem_append] at h
    refine h.imp (hback site) (fun h => ?_)
    split_ifs at h
    · simpa using h
    · cases h
  cases he with
  | kept => exact Or.inl (hback site hm)
  | tidied =>
    rw [tidies_history, List.mem_append] at hm
    refine hm.imp (hback site) (fun h => ?_)
    split_ifs at h with ha
    · simp only [Bool.and_eq_true, Bool.not_eq_eq_eq_not, Bool.not_true] at ha
      simp only [List.mem_cons, Act.remove.injEq, reduceCtorEq, List.not_mem_nil, or_false,
        false_or] at h
      subst h
      simp [RemovedBy, ha]
    · simp at h
  | refused he =>
    refine (hrefused hm).imp_right (fun h => ?_)
    subst h
    exact ⟨remove_active _ _, he⟩
  | failed he =>
    rw [use_history, List.mem_append] at hm
    refine (hrefused (hm.resolve_right (by simp))).imp_right (fun h => ?_)
    subst h
    exact ⟨remove_active _ _, he⟩

/-- A removal is recorded only when an event is handled. -/
theorem moved_removes {site : RemoveSite} (hm : Moved l b l') (h0 : .remove site ∉ l.cell.history)
    (h1 : .remove site ∈ l'.cell.history) :
    ∃ e rest sd c', l.inbox = e :: rest ∧ l' = ofCtx rest c' ∧ Handled sd e ⟨l.cell, []⟩ c' ∧
      RemovedBy e l'.cell site := by
  have hwriter : WriterMoved l l' → False := by
    intro hw
    obtain ⟨acts, h2, h3⟩ := hw.history
    rw [h2, List.mem_append] at h1
    cases h3 _ (h1.resolve_left h0)
  cases hm.kind with
  | delivered => simp [deliver, h0] at h1
  | handled hi hh => exact ⟨_, _, _, _, hi, rfl, hh, (handled_removes hh h1).resolve_left h0⟩
  | locked hw => exact (hwriter hw).elim
  | stepped hw => exact (hwriter hw).elim

end Removal

theorem settled_of_removed {l : Conn μ} (h : Invariant l) (ha : l.cell.active = false) :
    (l.cell.rpc.events .newConnection).pending = false := by
  cases h.phase with
  | listening _ ha' => cases ha.symm.trans ha'
  | delivered _ ha' => cases ha.symm.trans ha'
  | connected hc => exact hc.settled
  | refused _ _ _ hn => exact hn

/-- **`RemoveIfNotPending` never removes an `Rpc` that gRPC still knows.** When a step of any run
removes the entry of `r` there, none of the five tags of `r` is outstanding afterwards: gRPC holds no
operation under it and no event queue holds its event. -/
theorem removeIfNotPending_nothing_outstanding {s s' : State μ} {a : Action μ} {r : ℕ} {c c' : Cell μ}
    (hs : Reachable (server μ cfg) s) (hstep : (server μ cfg).Step s a s')
    (hc : s.cells[r]? = some c) (hc' : s'.cells[r]? = some c')
    (hbefore : .remove .removeIfNotPending ∉ c.history)
    (hafter : .remove .removeIfNotPending ∈ c'.history) :
    ∀ t, c'.ops t = 0 ∧ ∀ q, (r, .completion t) ∉ s'.eventQueues q := by
  obtain ⟨l', hl', hm⟩ := moved_or_eq hs hstep (conn_of_cell hc)
  obtain rfl := cell_of_conn hl' hc'
  rcases hm with ⟨-, rfl⟩ | ⟨b, -, hm⟩
  · exact absurd hafter hbefore
  have hinv := invariant_of_reachable (hs.step hstep) hl'
  obtain ⟨-, -, -, -, -, -, -, ha, hp⟩ := moved_removes hm hbefore hafter
  intro t
  have hflag : (l'.cell.rpc.events t).pending = false := by
    by_cases ht : t = .newConnection
    · subst ht; exact settled_of_removed hinv ha
    · exact anyPending_eq_false.mp hp t ht
  obtain ⟨h1, h2⟩ := hinv.tally.of_not_pending hflag
  exact ⟨h1, fun q hq => h2 (mem_inbox (hs.step hstep) hl' hq).1⟩

/-- A unary call that is answered: it is removed when `DONE`, the last of its tags, is handled. -/
theorem removeIfNotPending_nothing_outstanding_unary : ∃ (s s' : State ℕ) (c' : Cell ℕ),
    Reachable (server ℕ (.single .normalRpc)) s ∧ s'.cells[0]? = some c' ∧
      .remove .removeIfNotPending ∈ c'.history ∧
      ∀ t, c'.ops t = 0 ∧ ∀ q, (0, .completion t) ∉ s'.eventQueues q := by
  obtain ⟨s, s', hr, hs, hp⟩ := exists_step (server ℕ (.single .normalRpc))
    [.deliver 0 .newConnection true 7, .handle 0 { onRequest := [.send (some 8)] }, .handle 0 {},
      .deliver 0 .finish true 0, .handle 0 {}, .deliver 0 .done true 0] (.handle 0 {})
    (fun s s' =>
      s.cells[0]?.any (fun c : Cell ℕ => decide (Act.remove .removeIfNotPending ∉ c.history)) &&
        s'.cells[0]?.any (fun c : Cell ℕ => decide (Act.remove .removeIfNotPending ∈ c.history)))
    (by decide)
  simp only [Bool.and_eq_true, Option.any_eq_true, decide_eq_true_eq] at hp
  obtain ⟨⟨c, hc, h0⟩, c', hc', h1⟩ := hp
  exact ⟨s, s', c', hr.reachable, hc', h1,
    removeIfNotPending_nothing_outstanding hr.reachable hs hc hc' h0 h1⟩

/-! ### What is still to come -/

/-- The tag `t` of `r` is still to come: gRPC can deliver it, or its event waits in a queue. -/
def Awaited (s : State μ) (r : ℕ) (t : Tag) : Prop :=
  (∃ c, s.cells[r]? = some c ∧ deliverable t c = true) ∨ ∃ q, (r, .completion t) ∈ s.eventQueues q

theorem awaited_iff {s : State μ} (hs : Reachable (server μ cfg) s) {r : ℕ} {l : Conn μ}
    (hl : conn s r = some l) (t : Tag) : Awaited s r t ↔ l.awaited t := by
  obtain ⟨hc, hin⟩ := conn_eq_some.mp hl
  refine or_congr ⟨?_, fun h => ⟨_, hc, h⟩⟩ ⟨?_, fun h => ?_⟩
  · rintro ⟨c, hc', h⟩
    rw [hc] at hc'
    cases hc'
    exact h
  · rintro ⟨q, hq⟩
    exact (mem_inbox hs hl hq).1
  · rw [hin] at h
    exact ⟨_, mem_pick.mp h⟩

/-- A pending tag is still to come, `DONE` if the connection was accepted. -/
theorem awaited_of_pending {l : Conn μ} (hl : Invariant l) {t : Tag}
    (hp : (l.cell.rpc.events t).pending = true) (hd : t = .done → l.cell.accepted = some true) :
    l.awaited t := by
  have h1 := hl.tally t
  rw [flag_eq_one.mpr hp] at h1
  unfold Conn.outstanding at h1
  rcases Nat.eq_zero_or_pos (l.cell.ops t) with h0 | h0
  · exact Or.inr (List.count_pos_iff.mp (by omega))
  · exact Or.inl (deliverable_iff.mpr ⟨h0, hd⟩)

/-! ### Refused connections -/

section Refusal
variable {sd : Bool} {e : RpcEvent} {c c' : Ctx μ} {l l' : Conn μ} {b : Step μ}

/-- `HandleNewConnection` removes the entry when it finds the service shutting down, or that the
connection has failed. -/
theorem handled_refuses (hh : Handled sd (.completion .newConnection) c c') (ha : c.active = true) :
    (c'.active = false ↔ sd = true ∨ (c.rpc.events .newConnection).ok = false) ∧
      (c'.active = false → c'.rpc = (pops .newConnection c).rpc) ∧ c'.accepted = c.accepted := by
  cases hh with
  | refused =>
    exact ⟨iff_of_true (remove_active _ _) (Or.inl rfl), fun _ => remove_rpc _ _,
      remove_accepted _ _⟩
  | failed hok =>
    exact ⟨iff_of_true (remove_active _ _) (Or.inr hok), fun _ => remove_rpc _ _,
      remove_accepted _ _⟩
  | accepted hok _ _ hv =>
    have hact := hv.frame.2.2.1.trans ha
    exact ⟨iff_of_false (by simp [use, log, hact]) (by simp [hok]),
      fun h => (nomatch hact.symm.trans h), hv.frame.1⟩
  | reaccepted hok _ hv =>
    have hact := hv.frame.2.2.1.trans ha
    exact ⟨iff_of_false (by simp [use, log, hact]) (by simp [hok]),
      fun h => (nomatch hact.symm.trans h), hv.frame.1⟩

/-- The entry was removed without the connection having been accepted. -/
structure Dead (l : Conn μ) : Prop where
  handler : l.cell.rpc.handler = false
  removed : l.cell.active = false
  unaccepted : l.cell.accepted ≠ some true

theorem Dead.inbox (h : Dead l) (hl : Invariant l) : l.inbox = [] := by
  obtain ⟨-, -, hin | ⟨hacc, -⟩⟩ := hl.phase.refused_of h.handler h.removed
  · exact hin
  · exact absurd hacc h.unaccepted

theorem Dead.not_deliverable (h : Dead l) (hl : Invariant l) (t : Tag) :
    deliverable t l.cell = false := by
  obtain ⟨hidle, hn, -⟩ := hl.phase.refused_of h.handler h.removed
  by_contra hne
  have hd : deliverable t l.cell = true := by simpa using hne
  have hp := (hl.tally.of_deliverable hd).1
  by_cases h1 : t = .newConnection
  · subst h1
    cases hn.symm.trans hp
  · by_cases h2 : t = .done
    · exact h.unaccepted ((deliverable_iff.mp hd).2 h2)
    · have hno : (l.cell.rpc.events t).pending = false := hidle.quiet t h1 h2
      simp [hno] at hp

/-- Nothing ever happens again to such an `Rpc`. -/
theorem Dead.stuck (h : Dead l) (hl : Invariant l) : ¬ Moved l b l' := by
  obtain ⟨hidle, -, -⟩ := hl.phase.refused_of h.handler h.removed
  intro hm
  cases hm with
  | delivered hd => cases (h.not_deliverable hl _).symm.trans hd
  | handled hi => cases (h.inbox hl).symm.trans hi
  | locked hw => cases hidle.writer.symm.trans hw
  | enqueued hk => exact not_idle_of_call hk hidle
  | gotWeakPtr hk => exact not_idle_of_call hk hidle
  | pushed hk => exact not_idle_of_call hk hidle
  | returned hk => exact not_idle_of_call hk hidle

theorem Dead.not_awaited (h : Dead l) (hl : Invariant l) (t : Tag) : ¬ l.awaited t := by
  rintro (hd | hm)
  · have hno : deliverable t l.cell = false := h.not_deliverable hl t
    simp [hno] at hd
  · rw [h.inbox hl] at hm
    cases hm

theorem Dead.later {s s' : State μ} {r : ℕ} (hs : Reachable (server μ cfg) s) (hd : Dead l)
    (hl : conn s r = some l) (h : Later (server μ cfg) s s') : conn s' r = some l := by
  refine (h.inv (I := fun s => Reachable (server μ cfg) s ∧ conn s r = some l)
    (fun s a s' hi hstep => ⟨hi.1.step hstep, ?_⟩) ⟨hs, hl⟩).2
  obtain ⟨l', hl', hm⟩ := moved_or_eq hi.1 hstep hi.2
  rcases hm with ⟨-, rfl⟩ | ⟨b, -, hm⟩
  · exact hl'
  · exact absurd hm (hd.stuck (invariant_of_reachable hi.1 hi.2))

/-- A removal by `HandleNewConnection` leaves an `Rpc` that never had a handler. -/
theorem refused_of_history {Q : Conn μ → Step μ → Prop} (h : Walks Q l)
    (hm : .remove .handleNewConnection ∈ l.cell.history) :
    l.cell.rpc.handler = false ∧ l.cell.active = false := by
  refine of_walk (I := fun l => .remove .handleNewConnection ∈ l.cell.history →
    l.cell.rpc.handler = false ∧ l.cell.active = false) (fun l hf h0 => ?_)
    (fun l b l' ih hl hmv hm => ?_) h hm
  · obtain ⟨ty, hh⟩ := fresh_history hf
    rw [hh] at h0
    simp at h0
  by_cases h0 : .remove .handleNewConnection ∈ l.cell.history
  · obtain ⟨hhan, ha⟩ := ih h0
    obtain ⟨hidle, -, hin⟩ := hl.phase.refused_of hhan ha
    cases hmv.kind with
    | delivered => exact ⟨hhan, ha⟩
    | handled hi hh =>
      rcases hin with hin | ⟨-, hin⟩
      · cases hin.symm.trans hi
      · obtain ⟨rfl, rfl⟩ := List.cons.inj (hin.symm.trans hi)
        refine ⟨?_, hh.inactive ha⟩
        cases hh with
        | done =>
          show (tidies _).rpc.handler = false
          rw [tidies_rpc]
          exact hhan
    | locked hw => exact ⟨hw.handler.trans hhan, hw.active.trans ha⟩
    | stepped hw => exact ⟨hw.handler.trans hhan, hw.active.trans ha⟩
  · obtain ⟨e, rest, sd, c', hi, rfl, hh, ha, rfl⟩ := moved_removes hmv h0 hm
    obtain ⟨hidle, hact, -⟩ := hl.idle hi
    refine ⟨?_, ha⟩
    show c'.rpc.handler = false
    rw [(handled_refuses hh hact).2.1 ha]
    exact hidle.handler

/-- A connection is refused only if gRPC reports that it has failed. -/
def RefusesOnlyFailed (l : Conn μ) : Step μ → Prop
  | .handle sd _ => l.inbox.head? = some (.completion .newConnection) → sd = true →
      (l.cell.rpc.events .newConnection).ok = false
  | _ => True

/-- An `Rpc` whose entry was removed before it had a handler was not accepted by gRPC. -/
def NotAbandoned (c : Cell μ) : Prop :=
  c.rpc.handler = false → c.active = false → c.accepted ≠ some true

theorem notAbandoned_of_fresh (h : Fresh l) : NotAbandoned l.cell := by
  obtain ⟨_, _, _, _, _, rfl⟩ := fresh_eq h
  exact fun _ ha => (nomatch ha)

/-- An `Rpc` that was abandoned stays so. -/
theorem notAbandoned_back (hl : Invariant l) (hm : Moved l b l') (h : NotAbandoned l'.cell) :
    NotAbandoned l.cell := by
  intro hh ha
  obtain ⟨hidle, hn, hin⟩ := hl.phase.refused_of hh ha
  cases hm with
  | @delivered t ok m hd =>
    have ht : t ≠ .newConnection := by
      rintro rfl
      have hpend := (hl.tally.of_deliverable hd).1
      simp [hn] at hpend
    simpa [deliver, ht] using h hh ha
  | handled hi hhd =>
    rcases hin with hin | ⟨-, hin⟩
    · cases hin.symm.trans hi
    obtain ⟨rfl, rfl⟩ := List.cons.inj (hin.symm.trans hi)
    have ha' := hhd.inactive ha
    cases hhd with
    | done =>
      have hacc : (tidies (pops .done ⟨l.cell, []⟩)).accepted ≠ some true :=
        h (by rw [ofCtx, tidies_rpc]; exact hh) ha'
      rw [tidies_accepted] at hacc
      exact hacc
  | locked hw => cases hidle.writer.symm.trans hw
  | enqueued hk => exact absurd hidle (not_idle_of_call hk)
  | gotWeakPtr hk => exact absurd hidle (not_idle_of_call hk)
  | pushed hk => exact absurd hidle (not_idle_of_call hk)
  | returned hk => exact absurd hidle (not_idle_of_call hk)

/-- **The exact condition for one step**: no connection is refused that gRPC has accepted. -/
theorem notAbandoned_moved (hl : Invariant l) (h : NotAbandoned l.cell) (hm : Moved l b l') :
    NotAbandoned l'.cell ↔ RefusesOnlyFailed l b := by
  -- a step that leaves handler and entry alone would have to start from a dead `Rpc`
  have hsame : l.cell.rpc.handler = false → l.cell.active = false → False := fun h1 h2 =>
    (Dead.mk h1 h2 (h h1 h2)).stuck hl hm
  have hwriter : WriterMoved l l' → NotAbandoned l'.cell := fun hw h1 h2 =>
    (hsame (hw.handler.symm.trans h1) (hw.active.symm.trans h2)).elim
  cases hm.kind with
  | delivered => exact iff_of_true (fun h1 h2 => (hsame h1 h2).elim) trivial
  | locked hw => exact iff_of_true (hwriter hw) trivial
  | stepped hw => exact iff_of_true (hwriter hw) trivial
  | @handled sd script e rest c' hi hh =>
    cases hl.phase with
    | listening _ _ _ _ _ hin => cases hin.symm.trans hi
    | delivered hidle hact hacc _ _ hin =>
      obtain ⟨rfl, rfl⟩ := List.cons.inj (hin.symm.trans hi)
      obtain ⟨hiff, hrpc, hacc'⟩ := handled_refuses hh hact
      replace hacc' : c'.accepted = some (l.cell.rpc.events .newConnection).ok := hacc'.trans hacc
      constructor
      · intro h' _ hsd
        have ha : c'.active = false := hiff.mpr (Or.inl hsd)
        have hhan : c'.rpc.handler = false := by
          rw [hrpc ha]
          exact hidle.handler
        have hne : c'.accepted ≠ some true := h' hhan ha
        rw [hacc'] at hne
        simpa using hne
      · intro hq _ ha
        have hok : (l.cell.rpc.events .newConnection).ok = false :=
          (hiff.mp ha).elim (hq (by rw [hi]; rfl)) id
        show c'.accepted ≠ some true
        rw [hacc', hok]
        simp
    | connected hc =>
      refine iff_of_true (fun h1 => ?_) (fun hhead => ?_)
      · have hhan : c'.rpc.handler = true := (hc.handled hl.tally hl.reads hi hh).handler
        cases h1.symm.trans hhan
      · have hpend := (hl.tally.of_mem (List.mem_of_head? hhead)).1
        simp [hc.settled] at hpend
    | refused hidle ha => exact (hsame hidle.handler ha).elim

/-- The runs in which no connection is refused that gRPC has accepted. -/
theorem along_notAbandoned {as : List (Action μ)} {s : State μ} (hr : Run (server μ cfg) as s) :
    Along (server μ cfg) ((components μ cfg).Each RefusesOnlyFailed) as ↔
      ∀ (r : ℕ) (c : Cell μ), s.cells[r]? = some c → NotAbandoned c := by
  refine Iff.trans ((components μ cfg).along_iff (G := fun l => NotAbandoned l.cell)
    (fun _ hf => notAbandoned_of_fresh hf) (fun l b l' hw hs hg => ?_) (fun l b l' hw hg hs => ?_) hr)
    (forall_conn (G := NotAbandoned))
  · exact notAbandoned_back (invariant_of_walk hw) (moved_of_step hs) hg
  · exact notAbandoned_moved (invariant_of_walk hw) hg (moved_of_step hs)

end Refusal

/-- **When a removal by `HandleNewConnection` is final.** A run abandons no `Rpc` that gRPC has
accepted exactly if no connection is refused that comes with `ok`; then in every state of the run
nothing is still to come for an `Rpc` that `HandleNewConnection` has removed. For one
`NEW_CONNECTION` event, too, the condition is exact: if its handling removes the `Rpc`, then nothing
is to come for it in any later state, unless the service is shutting down and the event comes with
`ok`. -/
theorem refused_nothing_awaited_iff {as : List (Action μ)} {s : State μ}
    (hr : Run (server μ cfg) as s) :
    (Along (server μ cfg) ((components μ cfg).Each RefusesOnlyFailed) as ↔
        ∀ (r : ℕ) (c : Cell μ), s.cells[r]? = some c → NotAbandoned c) ∧
      (Along (server μ cfg) ((components μ cfg).Each RefusesOnlyFailed) as →
        ∀ (r : ℕ) (c : Cell μ), s.cells[r]? = some c → .remove .handleNewConnection ∈ c.history →
          ∀ t, ¬ Awaited s r t) ∧
      ∀ (q r : ℕ) (rest : List (ℕ × RpcEvent)) (script : Script μ) (s' : State μ) (c c' : Cell μ),
        s.eventQueues q = (r, .completion .newConnection) :: rest →
        (server μ cfg).Step s (.handle q script) s' → s.cells[r]? = some c →
        s'.cells[r]? = some c' →
        ((c'.active = false →
            ∀ s'', Later (server μ cfg) s' s'' → ∀ t, ¬ Awaited s'' r t) ↔
          ¬ (s.shuttingDown c.rpc.service = true ∧ (c.rpc.events .newConnection).ok = true)) := by
  have key := along_notAbandoned hr
  refine ⟨key, fun ha r c hc hm t => ?_, ?_⟩
  · have hl := conn_of_cell hc
    have hwalk := walks_of_reachable hr.reachable hl
    obtain ⟨hhan, hact⟩ := refused_of_history hwalk hm
    have hdead : Dead ⟨c, pick r (s.eventQueues c.rpc.eventQueue)⟩ :=
      ⟨hhan, hact, key.mp ha r c hc hhan hact⟩
    rw [awaited_iff hr.reachable hl]
    exact hdead.not_awaited (invariant_of_walk hwalk) t
  · intro q r rest script s' c c' hq hstep hc hc'
    obtain ⟨c0, c1, hl, hl', hh⟩ := handled_of_step hr.reachable hq hstep
    obtain rfl := cell_of_conn hl hc
    obtain rfl := cell_of_conn hl' hc'
    have hreach := hr.reachable.step hstep
    have hinv' := invariant_of_reachable hreach hl'
    obtain ⟨hidle, hact, hacc, hdone⟩ := (invariant_of_reachable hr.reachable hl).idle rfl
    obtain ⟨hiff, hrpc, hacc'⟩ := handled_refuses hh hact
    constructor
    · rintro h ⟨hsd, hok⟩
      have ha : c1.active = false := hiff.mpr (Or.inl hsd)
      refine h ha s' Relation.ReflTransGen.refl .done ?_
      rw [awaited_iff hreach hl']
      refine awaited_of_pending hinv' ?_ (fun _ => ?_)
      · show (c1.rpc.events .done).pending = true
        rw [hrpc ha, pops_events_of_ne (by decide)]
        exact hdone
      · exact hacc'.trans (hacc.trans (congrArg some hok))
    · intro hn ha s'' hlater t
      have hdead : Dead (ofCtx (pick r rest) c1) := by
        refine ⟨?_, ha, fun hacc1 => ?_⟩
        · show c1.rpc.handler = false
          rw [hrpc ha]
          exact hidle.handler
        · have hok : (c0.rpc.events .newConnection).ok = true :=
            Option.some.inj (hacc.symm.trans (hacc'.symm.trans hacc1))
          rcases hiff.mp ha with hsd | hok'
          · exact hn ⟨hsd, hok⟩
          · cases hok'.symm.trans hok
      have hl'' := hdead.later hreach hl' hlater
      rw [awaited_iff (hreach.later hlater) hl'']
      exact hdead.not_awaited hinv' t

/-- A listener that fails when the server shuts down. -/
theorem refused_nothing_awaited_iff_shutdown : ∃ (as : List (Action ℕ)) (s : State ℕ) (c : Cell ℕ),
    Run (server ℕ (.single .bidiStreaming)) as s ∧ s.cells[0]? = some c ∧
      .remove .handleNewConnection ∈ c.history ∧ ∀ t, ¬ Awaited s 0 t := by
  obtain ⟨s, hr, hp⟩ := exists_run (server ℕ (.single .bidiStreaming))
    [.stopServing 0, .deliver 0 .newConnection false 0, .handle 0 {}]
    (fun s => s.cells[0]?.any (fun c : Cell ℕ =>
        decide (Act.remove .handleNewConnection ∈ c.history)) &&
      s.cells.all (fun c : Cell ℕ => c.rpc.handler || c.active || decide (c.accepted ≠ some true)))
    (by decide)
  simp only [Bool.and_eq_true, Option.any_eq_true, List.all_eq_true, decide_eq_true_eq,
    Bool.or_eq_true] at hp
  obtain ⟨⟨c, hc, hm⟩, hall⟩ := hp
  obtain ⟨hiff, hnone, -⟩ := refused_nothing_awaited_iff hr
  have halong := hiff.mpr (fun r c hc hh ha =>
    (hall c (List.mem_of_getElem? hc)).resolve_left (by simp [hh, ha]))
  exact ⟨_, s, c, hr, hc, hm, hnone halong 0 c hc hm⟩

/-- A connection that gRPC accepts just when the service begins to shut down: it is refused, its `Rpc`
is removed, and then gRPC delivers the `DONE` tag that was registered for it. -/
theorem done_delivered_after_refusal : ∃ (as : List (Action ℕ)) (s s' : State ℕ) (c : Cell ℕ),
    Run (server ℕ (.single .bidiStreaming)) as s ∧ s.cells[0]? = some c ∧
      .remove .handleNewConnection ∈ c.history ∧ Awaited s 0 .done ∧
      (server ℕ (.single .bidiStreaming)).Step s (.deliver 0 .done true 0) s' := by
  obtain ⟨s, s', hr, hs, hp⟩ := exists_step (server ℕ (.single .bidiStreaming))
    [.stopServing 0, .deliver 0 .newConnection true 0, .handle 0 {}] (.deliver 0 .done true 0)
    (fun s _ => s.cells[0]?.any (fun c : Cell ℕ =>
      decide (Act.remove .handleNewConnection ∈ c.history) && deliverable .done c)) (by decide)
  simp only [Option.any_eq_true, Bool.and_eq_true, decide_eq_true_eq] at hp
  obtain ⟨c, hc, hm, hd⟩ := hp
  exact ⟨_, s, s', c, hr, hc, hm, Or.inl ⟨c, hc, hd⟩, hs⟩

/-! ### No `Rpc` stays in `ActiveRpcs` for ever -/

/-- What an `Rpc` in `ActiveRpcs` waits for. -/
theorem awaited_of_active {l : Conn μ} (hl : Invariant l) (ha : l.cell.active = true) :
    l.awaited .newConnection ∨ l.cell.accepted = some true ∧
      (l.cell.rpc.events .newConnection).pending = false ∧ ∃ t, t ≠ .newConnection ∧ l.awaited t := by
  cases hl.phase with
  | listening _ _ _ hn => exact Or.inl (awaited_of_pending hl hn (fun h => nomatch h))
  | delivered _ _ _ hn => exact Or.inl (awaited_of_pending hl hn (fun h => nomatch h))
  | connected hc =>
    refine Or.inr ⟨hc.accepted, hc.settled, ?_⟩
    by_contra hnone
    push Not at hnone
    -- otherwise none of the flags is set that `IsAnyEventPending` looks at
    have hno : anyPending l.cell.rpc = false := by
      refine anyPending_eq_false.mpr (fun t ht => ?_)
      by_contra hp
      exact hnone t ht (awaited_of_pending hl (by simpa using hp) (fun _ => hc.accepted))
    have hbusy : anyPending l.cell.rpc = true := hc.busy ha
    simp [hno] at hbusy
  | refused _ ha' => cases ha'.symm.trans ha

/-- **No `Rpc` leaks.** Every `Rpc` in `ActiveRpcs` waits for its `NEW_CONNECTION` or, when that has
been handled, for another of its tags, and gRPC will deliver it. So when nothing is to come any more
for the `Rpc`s of a service, its `ActiveRpcs` is empty and can be destroyed. -/
theorem active_awaits {s : State μ} (hs : Reachable (server μ cfg) s) :
    (∀ (r : ℕ) (c : Cell μ), s.cells[r]? = some c → c.active = true →
        Awaited s r .newConnection ∨ c.accepted = some true ∧
          (c.rpc.events .newConnection).pending = false ∧ ∃ t, t ≠ .newConnection ∧ Awaited s r t) ∧
      ∀ service, (∀ (r : ℕ) (c : Cell μ), s.cells[r]? = some c → c.rpc.service = service →
          ∀ t, ¬ Awaited s r t) → noRpcsInFlight service s = true := by
  have hwaits : ∀ (r : ℕ) (c : Cell μ), s.cells[r]? = some c → c.active = true →
      Awaited s r .newConnection ∨ c.accepted = some true ∧
        (c.rpc.events .newConnection).pending = false ∧ ∃ t, t ≠ .newConnection ∧ Awaited s r t := by
    intro r c hc ha
    have hl := conn_of_cell hc
    simp only [awaited_iff hs hl]
    exact awaited_of_active (invariant_of_reachable hs hl) ha
  refine ⟨hwaits, fun service hnone => ?_⟩
  unfold noRpcsInFlight
  rw [List.all_eq_true]
  intro c hm
  obtain ⟨r, hc⟩ := List.getElem?_of_mem hm
  by_contra hne
  simp only [Bool.or_eq_true, decide_eq_true_eq, Bool.not_eq_true', not_or, not_not,
    Bool.not_eq_false] at hne
  rcases hwaits r c hc hne.2 with h | ⟨-, -, t, -, h⟩
  · exact hnone r c hc hne.1 _ h
  · exact hnone r c hc hne.1 _ h

/-- A server that has served one call is shut down. -/
theorem active_awaits_shutdown : ∃ s : State ℕ, Reachable (server ℕ (.single .normalRpc)) s ∧
    s.cells.length = 2 ∧ s.shuttingDown 0 = true ∧ noRpcsInFlight 0 s = true := by
  obtain ⟨s, hr, hp⟩ := exists_run (server ℕ (.single .normalRpc))
    [.deliver 0 .newConnection true 7, .handle 0 { onRequest := [.send (some 8)] }, .handle 0 {},
      .stopServing 0, .deliver 0 .finish true 0, .handle 0 {}, .deliver 1 .newConnection false 0,
      .handle 0 {}, .deliver 0 .done true 0, .handle 0 {}]
    (fun s => decide (s.cells.length = 2) && s.shuttingDown 0 && (s.eventQueues 0).isEmpty &&
      s.cells.all (fun c : Cell ℕ => decide (c.rpc.eventQueue = 0) &&
        [Tag.newConnection, .read, .write, .finish, .done].all (fun t => !deliverable t c)))
    (by decide)
  simp only [Bool.and_eq_true, decide_eq_true_eq, List.isEmpty_iff, List.all_eq_true,
    Bool.not_eq_true'] at hp
  obtain ⟨⟨⟨hlen, hsd⟩, hq⟩, hall⟩ := hp
  refine ⟨s, hr.reachable, hlen, hsd, (active_awaits hr.reachable).2 0 (fun r c hc _ t => ?_)⟩
  obtain ⟨hqueue, hd⟩ := hall c (List.mem_of_getElem? hc)
  rw [awaited_iff hr.reachable (conn_of_cell hc)]
  rintro (h | h)
  · have hno : deliverable t c = false := hd t (by cases t <;> simp)
    cases hno.symm.trans h
  · rw [hqueue, hq] at h
    cases h

end AsyncGrpc.Service.Lifetime
