import AsyncGrpc.Single.Project

/-! # The phases of an `Rpc`, and its tags

Two invariants of one `Rpc`, kept by all its steps:

* `Conn.Tally`: the `pending` flag of an event is set exactly when its tag is outstanding, and no tag
  is outstanding twice;
* `Phase`: it listens, its connection has been delivered, it is connected, or it was refused; in
  each phase only some tags can be outstanding. `IsAnyEventPending` does not look at
  `NEW_CONNECTION`, but no other event is handled while that tag is outstanding.

`invariant_of_reachable` states both for every `Rpc` of a running server. -/

namespace AsyncGrpc.Single.Lifecycle

open AsyncGrpc.Lib.Runs AsyncGrpc.Model.Types AsyncGrpc.Model.Rpc AsyncGrpc.Model.Service
open AsyncGrpc.Model.Server AsyncGrpc.Single.Machine AsyncGrpc.Single.Moves AsyncGrpc.Single.Project

variable {μ : Type} {cfg : Config}

/-! ### The tags -/

/-- The `pending` flag of an event, as a number. -/
def flag (rpc : Rpc μ) (t : Tag) : ℕ := if (rpc.events t).pending then 1 else 0

/-- Every tag is outstanding as often as its event is marked as pending. -/
def Tally (l : Conn μ) : Prop := ∀ t, l.outstanding t = flag l.cell.rpc t

section Tags
variable {l : Conn μ} {rest : List RpcEvent} {c c' : Ctx μ} {t : Tag}

theorem flag_setPending_self (rpc : Rpc μ) (t : Tag) (b : Bool) :
    flag (setPending t b rpc) t = if b then 1 else 0 := by
  simp [flag, setPending]

theorem flag_setPending_of_ne (rpc : Rpc μ) {t t' : Tag} (b : Bool) (h : t' ≠ t) :
    flag (setPending t b rpc) t' = flag rpc t' := by
  simp [flag, setPending, Function.update_of_ne h]

theorem flag_eq_zero {rpc : Rpc μ} : flag rpc t = 0 ↔ (rpc.events t).pending = false := by
  unfold flag; split_ifs with h <;> simp [h]

theorem flag_eq_one {rpc : Rpc μ} : flag rpc t = 1 ↔ (rpc.events t).pending = true := by
  unfold flag; split_ifs with h <;> simp [h]

theorem flag_le_one (rpc : Rpc μ) (t : Tag) : flag rpc t ≤ 1 := by
  unfold flag; split_ifs <;> omega

theorem outstanding_ofCtx (rest : List RpcEvent) (c : Ctx μ) (t : Tag) :
    (ofCtx rest c).outstanding t =
      c.ops t + (rest.count (.completion t) + c.outbox.count (.completion t)) := by
  simp [Conn.outstanding, ofCtx, List.count_append]

/-- A tag whose event waits in the queue is pending, and gRPC does not hold it. -/
theorem Tally.of_mem (h : Tally l) (hm : .completion t ∈ l.inbox) :
    (l.cell.rpc.events t).pending = true ∧ l.cell.ops t = 0 ∧
      l.inbox.count (.completion t) = 1 := by
  have h1 := h t
  have h2 := flag_le_one l.cell.rpc t
  have h3 : 0 < l.inbox.count (.completion t) := List.count_pos_iff.mpr hm
  unfold Conn.outstanding at h1
  exact ⟨flag_eq_one.mp (by omega), by omega, by omega⟩

/-- A tag that is not pending is not outstanding. -/
theorem Tally.of_not_pending (h : Tally l) (hp : (l.cell.rpc.events t).pending = false) :
    l.cell.ops t = 0 ∧ .completion t ∉ l.inbox := by
  have h1 := h t
  rw [flag_eq_zero.mpr hp] at h1
  unfold Conn.outstanding at h1
  exact ⟨by omega, List.count_eq_zero.mp (by omega)⟩

/-- An event is taken from the queue and its flag cleared. -/
theorem Tally.pops (h : Tally l) (hi : l.inbox = .completion t :: rest) :
    Tally (ofCtx rest (pops t ⟨l.cell, []⟩)) := by
  intro t'
  have hn : ∀ t', rest.count (.completion t') + (if t = t' then 1 else 0) =
      l.inbox.count (.completion t') := by
    intro t'
    rw [hi, List.count_cons]
    by_cases ht : t = t' <;> simp [ht]
  have h1 := h t'
  have h2 := hn t'
  rw [outstanding_ofCtx]
  show l.cell.ops t' + (rest.count (.completion t') + 0) = flag (setPending t false l.cell.rpc) t'
  unfold Conn.outstanding at h1
  by_cases ht : t' = t
  · subst ht
    rw [flag_setPending_self]
    have h3 := (h.of_mem (t := t') (by rw [hi]; simp)).2.2
    have h4 := flag_le_one l.cell.rpc t'
    simp only [if_true] at h2
    simp only [Bool.false_eq_true, if_false]
    omega
  · rw [flag_setPending_of_ne _ _ ht]
    rw [if_neg (Ne.symm ht)] at h2
    omega

/-- An operation is started under a tag that is not pending. -/
theorem Tally.begins (h : Tally (ofCtx rest c)) {op : Op μ}
    (hp : (c.rpc.events op.tag).pending = false) : Tally (ofCtx rest (begins op c)) := by
  intro t
  have h1 := h t
  rw [outstanding_ofCtx] at h1 ⊢
  show Function.update c.ops op.tag (c.ops op.tag + 1) t + _ = flag (setPending op.tag true c.rpc) t
  replace h1 : c.ops t + _ = flag c.rpc t := h1
  by_cases ht : t = op.tag
  · subst ht
    rw [Function.update_self, flag_setPending_self]
    rw [flag_eq_zero.mpr hp] at h1
    simp only [if_true]
    show c.ops op.tag + 1 + (rest.count _ + c.outbox.count _) = 1
    omega
  · rw [Function.update_of_ne ht, flag_setPending_of_ne _ _ ht]
    exact h1

/-- The handler pushes no completions. -/
theorem Tally.calledBack (h : Tally (ofCtx rest c)) {cb : Callback μ} {items : List (SendItem μ)}
    {w : Bool} : Tally (ofCtx rest (calledBack cb items w c)) := by
  intro t
  have h1 := h t
  rw [outstanding_ofCtx] at h1 ⊢
  have h2 : (c.outbox ++ List.replicate items.length RpcEvent.writeNeeded).count (.completion t) =
      c.outbox.count (.completion t) := by
    simp [List.count_append, List.count_replicate]
  show c.ops t + (rest.count _ + (c.outbox ++ _).count _) = flag c.rpc t
  rw [h2]
  exact h1

theorem Tally.initialized (h : Tally (ofCtx rest c)) {items : List (SendItem μ)} {w : Bool} :
    Tally (ofCtx rest (initialized items w c)) := Tally.calledBack (w := w) h

theorem Tally.quiet (h : Tally (ofCtx rest c)) (hq : Quiet c c') : Tally (ofCtx rest c') := by
  intro t
  have h1 := h t
  rw [outstanding_ofCtx] at h1 ⊢
  show _ = flag c'.rpc t
  rw [hq.ops, hq.outbox, hq.rpc]
  exact h1

theorem Tally.issues (h : Tally (ofCtx rest c)) {item : SendItem μ} {rest' : List (SendItem μ)}
    (hw : (c.rpc.events .write).pending = false) (hf : (c.rpc.events .finish).pending = false) :
    Tally (ofCtx rest (issues item rest' c)) := by
  unfold Moves.issues
  dsimp only
  refine Tally.begins ?_ ?_
  · split_ifs <;> exact h
  · rcases opOf_tag c.rpc.rpcHandlerInfo.rpcType item with ht | ht <;> rw [ht] <;>
      split_ifs <;> assumption

theorem Tally.ofCtx_needed (h : Tally l) (hi : l.inbox = .writeNeeded :: rest) :
    Tally (ofCtx rest ⟨l.cell, []⟩) := by
  intro t
  have h1 := h t
  rw [outstanding_ofCtx]
  unfold Conn.outstanding at h1
  rw [hi, List.count_cons] at h1
  show l.cell.ops t + (rest.count (.completion t) + 0) = flag l.cell.rpc t
  simpa using h1

/-- A handled event keeps the tally; a connection is only accepted with no read outstanding. -/
theorem Tally.handled {sd : Bool} {e : RpcEvent} (h : Tally l) (hi : l.inbox = e :: rest)
    (hh : Handled sd e ⟨l.cell, []⟩ c')
    (hr : e = .completion .newConnection → (l.cell.rpc.events .read).pending = false) :
    Tally (ofCtx rest c') :=
  Handled.rule (J := fun c => Tally (ofCtx rest c)) (fun _ _ hq hj => hj.quiet hq)
    (fun _ _ _ _ _ hj => hj.calledBack) (fun _ _ _ hj => hj.initialized)
    (fun _ _ hp hj => hj.begins hp) (fun _ _ _ _ hw hf hj => hj.issues hw hf) hh
    (fun _ he => h.pops (he ▸ hi)) (fun he => h.ofCtx_needed (he ▸ hi)) hr

theorem pending_deliver (t t' : Tag) (ok : Bool) (m : μ) (c : Cell μ) :
    ((deliver t ok m c).rpc.events t').pending = (c.rpc.events t').pending := by
  by_cases ht : t' = t
  · subst ht; simp [deliver]
  · simp [deliver, Function.update_of_ne ht]

theorem flag_deliver (t t' : Tag) (ok : Bool) (m : μ) (c : Cell μ) :
    flag (deliver t ok m c).rpc t' = flag c.rpc t' := by
  unfold flag
  rw [pending_deliver]

theorem deliverable_iff {c : Cell μ} :
    deliverable t c = true ↔ 0 < c.ops t ∧ (t = .done → c.accepted = some true) := by
  unfold deliverable
  simp only [Bool.and_eq_true, decide_eq_true_eq, Bool.or_eq_true, beq_iff_eq]
  exact and_congr_right fun _ => ⟨fun h he => h.resolve_left (fun hne => hne he), fun h => by
    by_cases ht : t = .done
    · exact Or.inr (h ht)
    · exact Or.inl ht⟩

/-- A tag that gRPC can deliver is pending, and its event is not in the queue. -/
theorem Tally.of_deliverable (h : Tally l) (hd : deliverable t l.cell = true) :
    (l.cell.rpc.events t).pending = true ∧ .completion t ∉ l.inbox := by
  have hpos := (deliverable_iff.mp hd).1
  constructor
  · by_contra hno
    have := (h.of_not_pending (Bool.eq_false_iff.mpr hno)).1
    omega
  · intro hm
    have := (h.of_mem hm).2.1
    omega

theorem Tally.delivered {ok : Bool} {m : μ} (h : Tally l) (hd : deliverable t l.cell = true) :
    Tally ⟨deliver t ok m l.cell, l.inbox ++ [.completion t]⟩ := by
  have hpos := (deliverable_iff.mp hd).1
  intro t'
  have h1 := h t'
  rw [flag_deliver, ← h1]
  unfold Conn.outstanding
  rw [List.count_append, List.count_singleton]
  by_cases ht : t' = t
  · subst ht
    simp only [deliver, Function.update_self, beq_self_eq_true, if_true]
    omega
  · have hne : (RpcEvent.completion t == RpcEvent.completion t') = false := by
      simp [Ne.symm ht]
    simp [deliver, Function.update_of_ne ht, hne]

end Tags

/-! ### The phases -/

/-- No connection is handled: there is no handler, nothing to send and no operation but the two that
`RequestNextMethodInvocation` starts. -/
structure Idle (c : Cell μ) : Prop where
  handler : c.rpc.handler = false
  writer : c.writer = false
  calls : c.calls = []
  sendQueue : c.rpc.sendQueue = []
  quiet : ∀ t, t ≠ .newConnection → t ≠ .done → (c.rpc.events t).pending = false

/-- The connection was accepted and handed to a handler. While the entry is in `ActiveRpcs`, some
event is pending; afterwards neither `READ` nor `DONE` is. -/
structure Connected (c : Cell μ) : Prop where
  accepted : c.accepted = some true
  handler : c.rpc.handler = true
  settled : (c.rpc.events .newConnection).pending = false
  busy : c.active = true → anyPending c.rpc = true
  ended : c.active = false →
    (c.rpc.events .read).pending = false ∧ (c.rpc.events .done).pending = false

/-- Where an `Rpc` stands. -/
inductive Phase (l : Conn μ) : Prop
  | listening (hi : Idle l.cell) (ha : l.cell.active = true) (hacc : l.cell.accepted = none)
      (hn : (l.cell.rpc.events .newConnection).pending = true)
      (hd : (l.cell.rpc.events .done).pending = true) (hin : l.inbox = [])
  | delivered {rest : List RpcEvent} (hi : Idle l.cell) (ha : l.cell.active = true)
      (hacc : l.cell.accepted = some (l.cell.rpc.events .newConnection).ok)
      (hn : (l.cell.rpc.events .newConnection).pending = true)
      (hd : (l.cell.rpc.events .done).pending = true)
      (hin : l.inbox = .completion .newConnection :: rest)
      (hr : rest = [] ∨ l.cell.accepted = some true ∧ rest = [.completion .done])
  | connected (hc : Connected l.cell)
  | refused (hi : Idle l.cell) (ha : l.cell.active = false) (hacc : l.cell.accepted ≠ none)
      (hn : (l.cell.rpc.events .newConnection).pending = false)
      (hr : l.inbox = [] ∨ l.cell.accepted = some true ∧ l.inbox = [.completion .done])

/-- The invariant of one `Rpc`: its tags and its phase, and reads only of streamed requests. -/
structure Invariant (l : Conn μ) : Prop where
  tally : Tally l
  phase : Phase l
  reads : (l.cell.rpc.events .read).pending = true →
    requestStreaming l.cell.rpc.rpcHandlerInfo.rpcType = true

/-! ### The phases are kept -/

section Phases
variable {l l' : Conn μ} {b : Step μ} {rest : List RpcEvent} {c c' : Ctx μ} {e : RpcEvent}
  {sd : Bool}

theorem anyPending_of (rpc : Rpc μ) (t : Tag) (ht : t ≠ .newConnection)
    (h : (rpc.events t).pending = true) : anyPending rpc = true := by
  cases t <;> simp_all [anyPending]

theorem anyPending_eq_false {rpc : Rpc μ} : anyPending rpc = false ↔
    ∀ t, t ≠ .newConnection → (rpc.events t).pending = false := by
  constructor
  · intro h t ht
    rcases hp : (rpc.events t).pending with _ | _
    · rfl
    · rw [anyPending_of rpc t ht hp] at h; cases h
  · intro h
    simp [anyPending, h]

/-- `RemoveIfNotPending` leaves a connected `Rpc` connected. -/
theorem Connected.tidies (hacc : c.accepted = some true) (hh : c.rpc.handler = true)
    (hn : (c.rpc.events .newConnection).pending = false)
    (hover : c.active = false →
      (c.rpc.events .read).pending = false ∧ (c.rpc.events .done).pending = false) :
    Connected (tidies c).toCell where
  accepted := by rw [tidies_accepted]; exact hacc
  handler := by rw [tidies_rpc]; exact hh
  settled := by rw [tidies_rpc]; exact hn
  busy := by
    rw [tidies_rpc, tidies_active]
    intro h
    exact (Bool.and_eq_true_iff.mp h).2
  ended := by
    rw [tidies_rpc, tidies_active]
    intro h
    rcases Bool.and_eq_false_iff.mp h with h | h
    · exact hover h
    · exact ⟨anyPending_eq_false.mp h _ (by decide), anyPending_eq_false.mp h _ (by decide)⟩

theorem Connected.sentQueue (hq : SentQueue c c') (hacc : c.accepted = some true)
    (hh : c.rpc.handler = true) (hn : (c.rpc.events .newConnection).pending = false)
    (hover : c.active = false →
      (c.rpc.events .read).pending = false ∧ (c.rpc.events .done).pending = false) :
    Connected (Moves.tidies c').toCell := by
  obtain ⟨h1, h2, h3, -, -, -⟩ := hq.frame
  refine .tidies (h1.trans hacc) (h2.trans hh) ?_ (fun ha => ?_)
  · rw [hq.events_of_ne (by decide) (by decide)]
    exact hn
  · rw [hq.events_of_ne (by decide) (by decide), hq.events_of_ne (by decide) (by decide)]
    exact hover (h3.symm.trans ha)

/-- A handled event leaves a connected `Rpc` connected. -/
theorem Connected.handled (hc : Connected l.cell) (hl : Tally l)
    (hr : (l.cell.rpc.events .read).pending = true →
      requestStreaming l.cell.rpc.rpcHandlerInfo.rpcType = true)
    (hi : l.inbox = e :: rest) (hh : Handled sd e ⟨l.cell, []⟩ c') :
    Connected c'.toCell := by
  obtain ⟨hacc, hhan, hnc, hbusy, hover⟩ := hc
  have hmem : ∀ {t}, e = .completion t → (l.cell.rpc.events t).pending = true := by
    rintro t rfl
    exact (hl.of_mem (by rw [hi]; simp)).1
  have hno : e ≠ .completion .newConnection := by
    intro he
    rw [hmem he] at hnc
    cases hnc
  -- after the flag of the handled event is cleared, nothing new is pending
  have hpops : ∀ t, l.cell.active = false →
      ((pops t ⟨l.cell, []⟩).rpc.events .read).pending = false ∧
        ((pops t ⟨l.cell, []⟩).rpc.events .done).pending = false := by
    intro t ha
    obtain ⟨h1, h2⟩ := hover ha
    constructor
    · by_cases ht : Tag.read = t
      · subst ht; exact pops_pending_self _ _
      · rw [pops_events_of_ne ht]; exact h1
    · by_cases ht : Tag.done = t
      · subst ht; exact pops_pending_self _ _
      · rw [pops_events_of_ne ht]; exact h2
  cases hh with
  | refused => exact absurd rfl hno
  | failed => exact absurd rfl hno
  | accepted => exact absurd rfl hno
  | reaccepted => exact absurd rfl hno
  | read _ _ _ hv =>
    cases hv with
    | streaming ht =>
      refine ⟨hacc, hhan, hnc, fun _ => anyPending_of _ .read (by decide) (begins_pending_self _ _),
        fun ha => ?_⟩
      have := (hover ha).1
      rw [hmem rfl] at this
      cases this
    | unary ht =>
      have h1 := hr (hmem rfl)
      replace ht : requestStreaming l.cell.rpc.rpcHandlerInfo.rpcType = false := ht
      rw [ht] at h1
      cases h1
  | readsDone => exact .tidies hacc hhan hnc (hpops .read)
  | write hq => exact .sentQueue hq hacc hhan hnc (hpops .write)
  | finish => exact .tidies hacc hhan hnc (hpops .finish)
  | done => exact .tidies hacc hhan hnc (hpops .done)
  | writeNeeded _ hq => exact .sentQueue hq hacc hhan hnc hover
  | stale => exact ⟨hacc, hhan, hnc, hbusy, hover⟩

theorem Idle.of_eq {a b : Cell μ} (h : Idle a) (hh : b.rpc.handler = a.rpc.handler)
    (hw : b.writer = a.writer) (hk : b.calls = a.calls) (hq : b.rpc.sendQueue = a.rpc.sendQueue)
    (he : ∀ t, t ≠ .newConnection → t ≠ .done → (b.rpc.events t).pending = (a.rpc.events t).pending) :
    Idle b :=
  ⟨hh.trans h.handler, hw.trans h.writer, hk.trans h.calls, hq.trans h.sendQueue,
    fun t h1 h2 => (he t h1 h2).trans (h.quiet t h1 h2)⟩

theorem Idle.popped {a : Cell μ} (h : Idle a) {t : Tag} (ht : t = .newConnection ∨ t = .done) :
    Idle (pops t ⟨a, []⟩).toCell := by
  refine h.of_eq rfl rfl rfl rfl (fun t' h1 h2 => ?_)
  rw [pops_events_of_ne]
  rcases ht with rfl | rfl <;> assumption

/-- A connection that was refused or has failed: only `DONE` can still come. -/
theorem Phase.removed {t : Tag} (hi : Idle l.cell) (ht : t = .newConnection ∨ t = .done)
    (hn : ((pops t ⟨l.cell, []⟩).rpc.events .newConnection).pending = false)
    (hacc : l.cell.accepted ≠ none)
    (hr : rest = [] ∨ l.cell.accepted = some true ∧ rest = [.completion .done])
    (hrpc : c'.rpc = (pops t ⟨l.cell, []⟩).rpc) (ha : c'.active = false)
    (hacc' : c'.accepted = l.cell.accepted) (hw : c'.writer = l.cell.writer)
    (hk : c'.calls = l.cell.calls) (ho : c'.outbox = []) : Phase (ofCtx rest c') := by
  refine .refused ((hi.popped ht).of_eq ?_ hw hk ?_ (fun _ _ _ => ?_)) ha ?_ ?_ ?_
  · rw [← hrpc]; rfl
  · rw [← hrpc]; rfl
  · rw [← hrpc]; rfl
  · rw [← hacc'] at hacc; exact hacc
  · rw [← hrpc] at hn; exact hn
  · have : (ofCtx rest c').inbox = rest := by simp [ofCtx, ho]
    rw [this]
    rw [← hacc'] at hr
    exact hr

/-- The connection is accepted. -/
theorem Connected.accepted_of {a : Cell μ} {items : List (SendItem μ)} {w : Bool} (ha : a.active = true)
    (hacc : a.accepted = some true) (hd : (a.rpc.events .done).pending = true)
    (hv : Invited (initialized items w (use .onConnection (pops .newConnection ⟨a, []⟩))) c') :
    Connected c'.toCell := by
  obtain ⟨h1, h2, h3, -⟩ := hv.frame
  refine ⟨h1.trans hacc, h2, ?_, fun _ => ?_, fun hf => ?_⟩
  · rw [hv.events_of_ne (by decide)]
    exact pops_pending_self .newConnection ⟨a, []⟩
  · refine anyPending_of _ .done (by decide) ?_
    rw [hv.events_of_ne (by decide)]
    exact hd
  · have : a.active = false := h3.symm.trans hf
    rw [ha] at this
    cases this

theorem Phase.handled (h : Invariant l) (hi : l.inbox = e :: rest)
    (hh : Handled sd e ⟨l.cell, []⟩ c') : Phase (ofCtx rest c') := by
  obtain ⟨ht, hp, hr⟩ := h
  cases hp with
  | listening _ _ _ _ _ hin => cases hin.symm.trans hi
  | delivered hidle ha hacc hn hd hin hrest =>
    obtain ⟨rfl, rfl⟩ := List.cons.inj (hin.symm.trans hi)
    have hne : l.cell.accepted ≠ none := by rw [hacc]; simp
    cases hh with
    | refused =>
      exact .removed hidle (Or.inl rfl) (pops_pending_self _ _) hne hrest (remove_rpc _ _)
        (remove_active _ _) (remove_accepted _ _) (remove_writer _ _) (remove_calls _ _)
        (remove_outbox _ _)
    | failed =>
      exact .removed hidle (Or.inl rfl) (pops_pending_self _ _) hne hrest (remove_rpc _ _)
        (remove_active _ _) (remove_accepted _ _) (remove_writer _ _) (remove_calls _ _)
        (remove_outbox _ _)
    | accepted hok _ _ hv =>
      have hc : l.cell.accepted = some true := hacc.trans (congrArg some hok)
      have := Connected.accepted_of ha hc hd hv
      exact .connected ⟨this.1, this.2, this.3, this.4, this.5⟩
    | reaccepted _ hhan _ => cases hidle.handler.symm.trans hhan
  | connected hc => exact .connected (hc.handled ht hr hi hh)
  | refused hidle ha hacc hn hrest =>
    rcases hrest with hin | ⟨hacc', hin⟩
    · cases hin.symm.trans hi
    · obtain ⟨rfl, rfl⟩ := List.cons.inj (hin.symm.trans hi)
      cases hh with
      | done =>
        refine .removed hidle (Or.inr rfl) ?_ hacc (Or.inl rfl) (tidies_rpc _) ?_
          (tidies_accepted _) (tidies_writer _) (tidies_calls _) (tidies_outbox _)
        · rw [pops_events_of_ne (by decide)]; exact hn
        · rw [tidies_active]
          exact Bool.and_eq_false_imp.mpr (fun h1 => by cases ha.symm.trans h1)

theorem Phase.delivered_of {t : Tag} {ok : Bool} {m : μ} (h : Invariant l)
    (hdel : deliverable t l.cell = true) :
    Phase ⟨deliver t ok m l.cell, l.inbox ++ [.completion t]⟩ := by
  obtain ⟨ht, hp, hr⟩ := h
  obtain ⟨-, hdone⟩ := deliverable_iff.mp hdel
  obtain ⟨hpend, hnin⟩ := ht.of_deliverable hdel
  have hflags : ∀ t', ((deliver t ok m l.cell).rpc.events t').pending =
      (l.cell.rpc.events t').pending := fun t' => pending_deliver t t' ok m l.cell
  have hidle : Idle l.cell → Idle (deliver t ok m l.cell) := fun hi =>
    hi.of_eq rfl rfl rfl rfl (fun t' _ _ => hflags t')
  -- of an idle `Rpc` only the two tags of `RequestNextMethodInvocation` can come
  have htag : Idle l.cell → t = .newConnection ∨ t = .done := by
    intro hi
    by_contra hne
    push Not at hne
    have hno := hi.quiet t hne.1 hne.2
    cases hno.symm.trans hpend
  cases hp with
  | listening hi ha hacc hn hd hin =>
    rcases htag hi with rfl | rfl
    · refine .delivered (hidle hi) ha ?_ ((hflags _).trans hn) ((hflags _).trans hd)
        (by rw [hin]; rfl) (Or.inl rfl)
      simp [deliver]
    · cases hacc.symm.trans (hdone rfl)
  | delivered hi ha hacc hn hd hin hrest =>
    rcases htag hi with rfl | rfl
    · exact absurd (by rw [hin]; simp) hnin
    · refine .delivered (hidle hi) ha ?_ ((hflags _).trans hn) ((hflags _).trans hd)
        (by rw [hin]; rfl) (Or.inr ⟨hdone rfl, ?_⟩)
      · simpa [deliver] using hacc
      · rcases hrest with rfl | ⟨-, rfl⟩
        · rfl
        · exact absurd (by rw [hin]; simp) hnin
  | connected hc =>
    obtain ⟨hacc, hhan, hnc, hbusy, hover⟩ := hc
    have htn : t ≠ .newConnection := by
      rintro rfl
      cases hnc.symm.trans hpend
    refine .connected ⟨?_, hhan, (hflags _).trans hnc, fun ha => ?_, fun ha => ?_⟩
    · simpa [deliver, htn] using hacc
    · exact anyPending_of _ t htn ((hflags _).trans hpend)
    · exact ⟨(hflags _).trans (hover ha).1, (hflags _).trans (hover ha).2⟩
  | refused hi ha hacc hn hrest =>
    rcases htag hi with rfl | rfl
    · cases hn.symm.trans hpend
    · refine .refused (hidle hi) ha hacc ((hflags _).trans hn) (Or.inr ⟨hdone rfl, ?_⟩)
      rcases hrest with hin | ⟨-, hin⟩
      · rw [hin]; rfl
      · exact absurd (by rw [hin]; simp) hnin

/-- A read becomes pending only where requests are streamed. -/
theorem reads_invited (hv : Invited c c') (hp : (c'.rpc.events .read).pending = true) :
    requestStreaming c.rpc.rpcHandlerInfo.rpcType = true ∨ (c.rpc.events .read).pending = true := by
  cases hv with
  | streaming ht => exact Or.inl ht
  | unary => exact Or.inr hp

theorem reads_handled (hh : Handled sd e c c') (hp : (c'.rpc.events .read).pending = true) :
    requestStreaming c.rpc.rpcHandlerInfo.rpcType = true ∨ (c.rpc.events .read).pending = true := by
  cases hh with
  | refused =>
    rw [remove_rpc] at hp
    exact Or.inr (pending_of_pops hp)
  | failed =>
    replace hp : ((remove .handleNewConnection (pops .newConnection c)).rpc.events .read).pending =
      true := hp
    rw [remove_rpc] at hp
    exact Or.inr (pending_of_pops hp)
  | accepted _ _ _ hv => exact (reads_invited hv hp).imp id pending_of_pops
  | reaccepted _ _ hv => exact (reads_invited hv hp).imp id pending_of_pops
  | read _ _ _ hv => exact (reads_invited hv hp).imp id pending_of_pops
  | readsDone => rw [tidies_rpc] at hp; exact Or.inr (pending_of_pops hp)
  | write hq =>
    rw [tidies_rpc, hq.events_of_ne (by decide) (by decide)] at hp
    exact Or.inr (pending_of_pops hp)
  | finish => rw [tidies_rpc] at hp; exact Or.inr (pending_of_pops hp)
  | done => rw [tidies_rpc] at hp; exact Or.inr (pending_of_pops hp)
  | writeNeeded _ hq =>
    rw [tidies_rpc, hq.events_of_ne (by decide) (by decide)] at hp
    exact Or.inr hp
  | stale => exact Or.inr hp

theorem rpcType_of_fixed {a b : Rpc μ} (h : fixedPart a = fixedPart b) :
    a.rpcHandlerInfo = b.rpcHandlerInfo := congrArg (·.2.2.2.1) h

theorem not_idle_of_call {a : Cell μ} {i : ℕ} {k : WriterCall μ} (hk : a.calls[i]? = some k) :
    ¬ Idle a := by
  intro h
  rw [h.calls] at hk
  simp at hk

theorem Phase.connected_of_not_idle (h : Phase l) (hi : ¬ Idle l.cell) : Connected l.cell := by
  cases h with
  | listening h0 => exact absurd h0 hi
  | delivered h0 => exact absurd h0 hi
  | connected hc => exact hc
  | refused h0 => exact absurd h0 hi

end Phases

/-! ### The invariant -/

theorem invariant_of_fresh {l : Conn μ} (h : Fresh l) : Invariant l := by
  obtain ⟨_, _, _, _, _, rfl⟩ := fresh_eq h
  refine ⟨fun t => ?_, .listening ⟨rfl, rfl, rfl, rfl, fun t h1 h2 => ?_⟩ rfl rfl rfl rfl rfl,
    fun h => ?_⟩
  · cases t <;> rfl
  · cases t <;> first | rfl | contradiction
  · cases h

/-- The steps of `Writer` calls happen on connected `Rpc`s and do not touch what the invariant is
about. -/
theorem Invariant.writer {l l' : Conn μ} (h : Invariant l) (hi : ¬ Idle l.cell)
    (he : l'.cell.rpc.events = l.cell.rpc.events) (hh : l'.cell.rpc.handler = l.cell.rpc.handler)
    (hinfo : l'.cell.rpc.rpcHandlerInfo = l.cell.rpc.rpcHandlerInfo)
    (hops : l'.cell.ops = l.cell.ops) (hacc : l'.cell.accepted = l.cell.accepted)
    (ha : l'.cell.active = l.cell.active)
    (hin : ∀ t, l'.inbox.count (.completion t) = l.inbox.count (.completion t)) :
    Invariant l' := by
  obtain ⟨ht, hp, hr⟩ := h
  obtain ⟨h1, h2, h3, h4, h5⟩ := hp.connected_of_not_idle hi
  refine ⟨fun t => ?_, .connected ⟨hacc.trans h1, hh.trans h2, ?_, fun h => ?_, fun h => ?_⟩, ?_⟩
  · have := ht t
    unfold Conn.outstanding flag at this ⊢
    rw [hops, hin, he]
    exact this
  · rw [he]; exact h3
  · have := h4 (ha.symm.trans h)
    unfold anyPending at this ⊢
    rw [he]
    exact this
  · rw [he]; exact h5 (ha.symm.trans h)
  · rw [he, hinfo]; exact hr

/-- `NEW_CONNECTION` is only handled while nothing has been done with the connection. -/
theorem Invariant.idle {l : Conn μ} {rest : List RpcEvent} (h : Invariant l)
    (hi : l.inbox = .completion .newConnection :: rest) : Idle l.cell ∧ l.cell.active = true ∧
      l.cell.accepted = some (l.cell.rpc.events .newConnection).ok ∧
      (l.cell.rpc.events .done).pending = true := by
  have hpend : (l.cell.rpc.events .newConnection).pending = true :=
    (h.tally.of_mem (by rw [hi]; simp)).1
  cases h.phase with
  | listening _ _ _ _ _ hin => cases hin.symm.trans hi
  | delivered hidle ha hacc _ hd => exact ⟨hidle, ha, hacc, hd⟩
  | connected hc => cases hc.settled.symm.trans hpend
  | refused _ _ _ hn => cases hn.symm.trans hpend

/-- Other events than `NEW_CONNECTION` and `DONE` are only handled for a connected `Rpc`. -/
theorem Invariant.connected {l : Conn μ} {e : RpcEvent} {rest : List RpcEvent} (h : Invariant l)
    (hi : l.inbox = e :: rest) (hn : e ≠ .completion .newConnection) (hd : e ≠ .completion .done) :
    Connected l.cell := by
  cases h.phase with
  | listening _ _ _ _ _ hin => cases hin.symm.trans hi
  | delivered _ _ _ _ _ hin => exact absurd (List.cons.inj (hin.symm.trans hi)).1.symm hn
  | connected hc => exact hc
  | refused _ _ _ _ hr =>
    rcases hr with hin | ⟨-, hin⟩
    · cases hin.symm.trans hi
    · exact absurd (List.cons.inj (hin.symm.trans hi)).1.symm hd

/-- An `Rpc` without handler and entry was refused; nothing but `DONE` can be waiting for it. -/
theorem Phase.refused_of {l : Conn μ} (h : Phase l) (hh : l.cell.rpc.handler = false)
    (ha : l.cell.active = false) :
    Idle l.cell ∧ (l.cell.rpc.events .newConnection).pending = false ∧
      (l.inbox = [] ∨ l.cell.accepted = some true ∧ l.inbox = [.completion .done]) := by
  cases h with
  | listening _ ha' => cases ha.symm.trans ha'
  | delivered _ ha' => cases ha.symm.trans ha'
  | connected hc => cases hh.symm.trans hc.handler
  | refused hi _ _ hn hr => exact ⟨hi, hn, hr⟩

theorem Invariant.no_read {l : Conn μ} {e : RpcEvent} {rest : List RpcEvent} (h : Invariant l)
    (hi : l.inbox = e :: rest) (he : e = .completion .newConnection) :
    (l.cell.rpc.events .read).pending = false := by
  subst he
  exact (h.idle hi).1.quiet _ (by decide) (by decide)

/-- Every step keeps the invariant. -/
theorem Invariant.moved {l l' : Conn μ} {b : Step μ} (h : Invariant l) (hm : Moved l b l') :
    Invariant l' := by
  cases hm with
  | @delivered t ok m hd =>
    refine ⟨h.tally.delivered hd, .delivered_of h hd, fun hp => h.reads ?_⟩
    exact (pending_deliver t .read ok m l.cell).symm.trans hp
  | @handled sd script e rest c' hi hh =>
    refine ⟨h.tally.handled hi hh (h.no_read hi), .handled h hi hh, fun hp => ?_⟩
    have hinfo := rpcType_of_fixed hh.fixed
    show requestStreaming c'.rpc.rpcHandlerInfo.rpcType = true
    rw [hinfo]
    exact (reads_handled hh hp).elim id h.reads
  | locked hw =>
    exact h.writer (fun hi => by cases hi.writer.symm.trans hw) rfl rfl rfl rfl rfl rfl
      (fun t => rfl)
  | enqueued hk =>
    exact h.writer (not_idle_of_call hk) rfl rfl rfl rfl rfl rfl (fun t => by simp [ofCtx, setPc,
      enqueueMessage, log])
  | gotWeakPtr hk =>
    exact h.writer (not_idle_of_call hk) rfl rfl rfl rfl rfl rfl (fun t => by simp [ofCtx, setPc])
  | pushed hk =>
    exact h.writer (not_idle_of_call hk) rfl rfl rfl rfl rfl rfl (fun t => by
      simp [ofCtx, setPc, pushWriteNeeded, log, List.count_append])
  | returned hk =>
    exact h.writer (not_idle_of_call hk) rfl rfl rfl rfl rfl rfl (fun t => by simp [ofCtx, setPc])

theorem invariant_of_walk {Q : Conn μ → Step μ → Prop} {l : Conn μ} (h : Walks Q l) : Invariant l :=
  Walks.inv (fun _ hf => invariant_of_fresh hf) (fun _ _ _ hi _ hm => hi.moved hm) h

/-- A property of one `Rpc` that its steps keep, given the invariant, holds on all its walks. -/
theorem of_walk {Q : Conn μ → Step μ → Prop} {I : Conn μ → Prop} (h0 : ∀ l, Fresh l → I l)
    (hstep : ∀ l b l', I l → Invariant l → Moved l b l' → I l') {l : Conn μ} (h : Walks Q l) : I l :=
  (Walks.inv (I := fun l => Invariant l ∧ I l) (fun _ hf => ⟨invariant_of_fresh hf, h0 _ hf⟩)
    (fun _ _ _ hi _ hm => ⟨hi.1.moved hm, hstep _ _ _ hi.2 hi.1 hm⟩) h).2

/-- **Every `Rpc` of a running server keeps the invariant.** -/
theorem invariant_of_reachable {s : State μ} (h : Reachable (server μ cfg) s) {r : ℕ} {l : Conn μ}
    (hl : conn s r = some l) : Invariant l :=
  invariant_of_walk (walks_of_reachable h hl)

end AsyncGrpc.Single.Lifecycle
