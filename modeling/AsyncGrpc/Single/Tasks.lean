import AsyncGrpc.Single.Interleaving
import AsyncGrpc.Single.Ledger
import AsyncGrpc.Single.Spans

/-! # Between two steps of the event thread

The invariants of an `Rpc` when completions come in and other threads use their `Writer`s while an
event of it is handled, as `Single.EventThread` has it.

* `Stepped` lists what a step does; `stepped_of_step` proves the list complete. A step of another
  thread is the one that `Single.Moves` describes.
* `ready`: the tasks that are left can be done, one after the other, from the state they find.
* `Sound`: the tags, the items and the stage of the `Rpc`; `sound_of_reachable`. -/

namespace AsyncGrpc.Single.Tasks

open AsyncGrpc.Lib.Runs AsyncGrpc.Model.Types AsyncGrpc.Model.Rpc AsyncGrpc.Model.Service
open AsyncGrpc.Single.Machine AsyncGrpc.Single.Moves
open AsyncGrpc.Single.Project (fresh_eq)
open AsyncGrpc.Single.Lifecycle AsyncGrpc.Single.Ledger AsyncGrpc.Single.Failures
open AsyncGrpc.Single.EventThread AsyncGrpc.Single.Interleaving
open AsyncGrpc.Single.Spans (kept_takeUp perform_fails)

variable {μ : Type} {s s' : Busy μ} {a : BusyStep μ} {c c' : Ctx μ} {l0 : Conn μ}

/-! ### What a step does -/

/-- The `Rpc` with its waiting events, whatever the event thread is at. -/
def seen (s : Busy μ) : Conn μ := ofCtx [] s.ctx

/-- The callback that a task makes through `handler_`. -/
def callbackOf (c : Ctx μ) : Task → Option (Callback μ)
  | .onRequest => some (.onRequest c.rpc.request)
  | .onReadsDone => some .onReadsDone
  | .onFinish => some .onFinish
  | _ => none

/-- What a task does to the `Rpc`, which tasks it puts before those that are left, and which callback
the event thread is in afterwards. -/
inductive Performed (c : Ctx μ) : Task → Ctx μ → List Task → Option Inside → Prop
  | used {m : Member} : Performed c (.use m) (use m c) [] none
  | connected (hh : c.rpc.handler = true) : Performed c .onConnection c [] none
  | connecting (hh : c.rpc.handler = false) :
      Performed c .onConnection (log (.callback .initializeHandler) c) [] (some .initializeHandler)
  | streaming (ht : requestStreaming c.rpc.rpcHandlerInfo.rpcType = true) :
      Performed c .requestStreamingReadIfNeeded (begins .read c) [] none
  | unary (ht : requestStreaming c.rpc.rpcHandlerInfo.rpcType = false) :
      Performed c .requestStreamingReadIfNeeded c [.onRequest, .onReadsDone] none
  | entered {task : Task} {cb : Callback μ} (hcb : callbackOf c task = some cb)
      (hh : c.rpc.handler = true) :
      Performed c task (log (.callback cb) c) [] (some .throughHandler)
  | sent {c' : Ctx μ} (hq : SentQueue c c') : Performed c .handleSendQueue c' [] none
  | tidied : Performed c .removeIfNotPending (tidies c) [] none

theorem performed_of_ok {todo : List Task} {task : Task} (h : perform c todo task = .ok s) :
    ∃ new, s.todo = new ++ todo ∧ Performed c task s.ctx new s.inside := by
  have henter {cb : Callback μ} (h : enter cb todo c = .ok s) (hcb : callbackOf c task = some cb) :
      ∃ new, s.todo = new ++ todo ∧ Performed c task s.ctx new s.inside := by
    unfold enter at h
    split at h
    · next hh =>
      cases h
      exact ⟨[], rfl, .entered hcb hh⟩
    · cases h
  have hread (ht : requestStreaming c.rpc.rpcHandlerInfo.rpcType = true)
      (h : (setRpcEventState .read true c >>= fun c => asyncReaderInterface c >>= fun rw =>
        startVia rw .read c >>= fun c => pure (⟨c, todo, none⟩ : Busy μ)) = .ok s) :
      ∃ new, s.todo = new ++ todo ∧ Performed c .requestStreamingReadIfNeeded s.ctx new s.inside := by
    obtain ⟨c1, h1, h⟩ := bind_eq_ok.mp h
    obtain ⟨rw, -, h⟩ := bind_eq_ok.mp h
    obtain ⟨c2, h2, h⟩ := bind_eq_ok.mp h
    cases h1
    cases startVia_eq_ok h2
    cases h
    exact ⟨[], rfl, .streaming ht⟩
  cases task with
  | use m =>
    cases h
    exact ⟨[], rfl, .used⟩
  | onConnection =>
    rw [perform] at h
    split at h
    · next hh =>
      cases h
      exact ⟨[], rfl, .connected hh⟩
    · next hh =>
      cases h
      exact ⟨[], rfl, .connecting (Bool.eq_false_iff.mpr hh)⟩
  | requestStreamingReadIfNeeded =>
    rw [perform] at h
    split at h
    · next ht => exact hread (by rw [ht]; rfl) h
    · next ht => exact hread (by rw [ht]; rfl) h
    · next ht =>
      cases h
      exact ⟨[.onRequest, .onReadsDone], rfl, .unary (by rw [ht]; rfl)⟩
    · next ht =>
      cases h
      exact ⟨[.onRequest, .onReadsDone], rfl, .unary (by rw [ht]; rfl)⟩
  | onRequest => exact henter h rfl
  | onReadsDone => exact henter h rfl
  | onFinish => exact henter h rfl
  | handleSendQueue =>
    obtain ⟨c1, h1, h⟩ := bind_eq_ok.mp h
    cases h
    exact ⟨[], rfl, .sent (sentQueue_of_ok h1)⟩
  | removeIfNotPending =>
    obtain ⟨c1, h1, h⟩ := bind_eq_ok.mp h
    rw [removeIfNotPending_eq] at h1
    cases h1
    cases h
    exact ⟨[], rfl, .tidied⟩

/-- The ways a step goes on. -/
inductive Stepped (s : Busy μ) : BusyStep μ → Busy μ → Prop
  | takenUp {sd : Bool} {e : RpcEvent} {rest : List RpcEvent} (hout : s.ctx.outbox = e :: rest)
      (htodo : s.todo = []) (hin : s.inside = none) :
      Stepped s (.takeUp sd) ⟨(takeUp sd e { s.ctx with outbox := rest }).1,
        (takeUp sd e { s.ctx with outbox := rest }).2, none⟩
  | performed {task : Task} {todo new : List Task} {inside : Option Inside} {c' : Ctx μ}
      (htodo : s.todo = task :: todo) (hin : s.inside = none)
      (hp : Performed s.ctx task c' new inside) : Stepped s .goOn ⟨c', new ++ todo, inside⟩
  | left {p : Inside} (hin : s.inside = some p) : Stepped s .goOn (leave s.ctx s.todo p)
  | called {k : HandlerCall μ} {p : Inside} {items : List (SendItem μ)} {w : Bool}
      (hin : s.inside = some p) (hs : Sent s.ctx items w) :
      Stepped s (.call k) ⟨{ sends items s.ctx with writer := w }, s.todo, s.inside⟩
  | other {a : BusyStep μ} {b : Step μ} {l : Conn μ} (hb : otherStep a = some b) (hm : Moved (seen s) b l) :
      Stepped s a ⟨⟨l.cell, l.inbox⟩, s.todo, s.inside⟩

/-- A step of another thread is one of the `Rpc` by itself. -/
theorem stepped_of_other {b : Step μ} (hb : otherStep a = some b)
    (h : ∃ l, (seen s).step b = some (.ok l) ∧ s' = ⟨⟨l.cell, l.inbox⟩, s.todo, s.inside⟩) :
    Stepped s a s' := by
  obtain ⟨l, hl, rfl⟩ := h
  exact .other hb (moved_of_step hl)

/-- What a step that goes on has done. -/
theorem stepped_of_step (h : s.step a = some (.ok s')) : Stepped s a s' := by
  cases a with
  | takeUp sd =>
    rw [Busy.step] at h
    split at h
    · next hout htodo hin =>
      cases h
      exact .takenUp hout htodo hin
    · cases h
  | goOn =>
    rw [Busy.step] at h
    split at h
    · next hin =>
      cases h
      exact .left hin
    · next hin htodo =>
      obtain ⟨new, hnew, hp⟩ := performed_of_ok (Option.some.inj h)
      obtain ⟨c1, todo1, inside1⟩ := s'
      cases hnew
      exact .performed htodo hin hp
    · cases h
  | call k =>
    rw [Busy.step] at h
    split at h
    · next hin =>
      obtain ⟨c1, h1, rfl⟩ := map_eq_ok.mp (Option.some.inj h)
      obtain ⟨items, w, rfl, hs⟩ := handlerCall_eq_ok h1
      exact .called hin hs
    · cases h
  | deliver t ok m =>
    rw [Busy.step] at h
    split_ifs at h with hd
    cases h
    exact stepped_of_other rfl ⟨_, if_pos hd, rfl⟩
  | lockWriter w =>
    rw [Busy.step] at h
    split_ifs at h with hw
    cases h
    exact stepped_of_other rfl ⟨_, if_pos hw, rfl⟩
  | stepWriter i =>
    rw [Busy.step] at h
    split at h
    · next k hk =>
      split_ifs at h with hholds
      obtain ⟨c1, h1, rfl⟩ := map_eq_ok.mp (Option.some.inj h)
      have hctx : s.ctx = behind s.ctx.outbox ⟨s.ctx.toCell, []⟩ := by simp [behind]
      rw [hctx, stepWriter_behind] at h1
      obtain ⟨c2, h2, rfl⟩ := map_eq_ok.mp h1
      refine stepped_of_other rfl ⟨ofCtx s.ctx.outbox c2, ?_, rfl⟩
      have hstep : (seen s).step (.stepWriter i) =
          some (ofCtx s.ctx.outbox <$> stepWriter i k ⟨s.ctx.toCell, []⟩) := by
        rw [Conn.step]
        simp only [seen, ofCtx, List.nil_append, hk, hholds, if_true]
      rw [hstep, h2]
      rfl
    · cases h

theorem otherStep_ne_handle {b : Step μ} (hb : otherStep a = some b) (sd : Bool) (script : Script μ) :
    b ≠ .handle sd script := by
  rintro rfl
  cases a <;> cases hb

/-! ### Invariants of the effects -/

theorem takeUp_completion (sd : Bool) (t : Tag) (c : Ctx μ) :
    takeUp sd (.completion t) c = completionTasks sd t (c.rpc.events t).ok (pops t c) := rfl

/-- An event that is taken up removes the entry of the `Rpc`, or nothing happens to it. -/
theorem quiet_completionTasks (sd : Bool) (t : Tag) (ok : Bool) (c : Ctx μ) :
    Quiet c (completionTasks sd t ok c).1 := by
  have hrfl : Quiet c c := ⟨rfl, rfl, rfl, [], by simp, by simp, by simp⟩
  cases t with
  | newConnection =>
    unfold completionTasks
    dsimp only
    split_ifs
    · exact quiet_remove _ c
    · exact hrfl
    · exact quiet_remove _ c
  | read => unfold completionTasks; dsimp only; split_ifs <;> exact hrfl
  | write => exact hrfl
  | finish => exact hrfl
  | done => exact hrfl

/-- **The rule for steps**: what the effects keep, every step keeps. -/
theorem Stepped.rule {J : Ctx μ → Prop} (hquiet : ∀ c c', Quiet c c' → J c → J c')
    (hcall : ∀ cb c, J c → J (log (.callback cb) c))
    (hinit : ∀ c, J c → J { c with rpc := { c.rpc with handler := true } })
    (hsend : ∀ items w c, J c → J { sends items c with writer := w })
    (hread : ∀ c, (c.rpc.events .read).pending = false → J c → J (begins .read c))
    (hissue : ∀ c item rest, c.rpc.sendQueue = item :: rest →
      (c.rpc.events .write).pending = false → (c.rpc.events .finish).pending = false → J c →
        J (issues item rest c))
    (hpops : ∀ t rest, s.ctx.outbox = .completion t :: rest → J s.ctx →
      J (pops t { s.ctx with outbox := rest }))
    (hneeded : ∀ rest, s.ctx.outbox = .writeNeeded :: rest → J s.ctx → J { s.ctx with outbox := rest })
    (hother : ∀ b l, (∀ sd script, b ≠ .handle sd script) → Moved (seen s) b l → J s.ctx →
      J ⟨l.cell, l.inbox⟩)
    (h : Stepped s a s') (hr : s.todo.head? = some .requestStreamingReadIfNeeded →
      (s.ctx.rpc.events .read).pending = false) (hj : J s.ctx) : J s'.ctx := by
  cases h with
  | @takenUp sd e rest hout htodo hin =>
    cases e with
    | completion t => exact hquiet _ _ (quiet_completionTasks sd t _ _) (hpops t rest hout hj)
    | writeNeeded =>
      have hj' := hneeded rest hout hj
      show J (if _ then _ else _ : Ctx μ × List Task).1
      split_ifs
      · exact hquiet _ _ (quiet_wakes _) hj'
      · exact hj'
  | @performed task todo new inside c' htodo hin hp =>
    cases hp with
    | used => exact hquiet _ _ (quiet_use _ _) hj
    | connected => exact hj
    | connecting => exact hcall _ _ hj
    | streaming => exact hread _ (hr (by rw [htodo]; rfl)) hj
    | unary => exact hj
    | entered => exact hcall _ _ hj
    | sent hq =>
      cases hq with
      | idle => exact hj
      | issued hq hw hf => exact hissue _ _ _ hq hw hf hj
    | tidied => exact hquiet _ _ (quiet_tidies _) hj
  | @left p hin =>
    cases p with
    | initializeHandler => exact hinit _ hj
    | throughHandler => exact hj
  | called hin hs => exact hsend _ _ _ hj
  | other hb hm => exact hother _ _ (otherStep_ne_handle hb) hm hj

section Kept
variable {l : Conn μ} {b : Step μ}

theorem Tally.sends (h : Tally (ofCtx [] c)) (items : List (SendItem μ)) (w : Bool) :
    Tally (ofCtx [] { Moves.sends items c with writer := w }) := by
  intro t
  have h1 := h t
  rw [outstanding_ofCtx] at h1 ⊢
  have h2 : (c.outbox ++ List.replicate items.length RpcEvent.writeNeeded).count (.completion t) =
      c.outbox.count (.completion t) := by
    simp [List.count_append, List.count_replicate]
  show c.ops t + (_ + (c.outbox ++ _).count _) = flag c.rpc t
  rw [h2]
  exact h1

/-- The other threads keep the tally. -/
theorem Tally.other (h : Tally l) {l' : Conn μ} (hb : ∀ sd script, b ≠ .handle sd script)
    (hm : Moved l b l') : Tally l' := by
  have hwriter (he : l'.cell.rpc = l.cell.rpc ∨ l'.cell.rpc.events = l.cell.rpc.events)
      (hops : l'.cell.ops = l.cell.ops)
      (hin : ∀ t, l'.inbox.count (.completion t) = l.inbox.count (.completion t)) : Tally l' := by
    intro t
    have h1 := h t
    have he' : l'.cell.rpc.events = l.cell.rpc.events := he.elim (congrArg Rpc.events) id
    unfold Conn.outstanding flag at h1 ⊢
    rw [hops, hin, he']
    exact h1
  cases hm with
  | delivered hd => exact h.delivered hd
  | handled => exact absurd rfl (hb _ _)
  | locked => exact hwriter (.inl rfl) rfl (fun _ => rfl)
  | enqueued => exact hwriter (.inr rfl) rfl (fun t => by simp [ofCtx, setPc, enqueueMessage, log])
  | gotWeakPtr => exact hwriter (.inl rfl) rfl (fun t => by simp [ofCtx, setPc])
  | pushed =>
    exact hwriter (.inl rfl) rfl (fun t => by simp [ofCtx, setPc, pushWriteNeeded, log, List.count_append])
  | returned => exact hwriter (.inl rfl) rfl (fun t => by simp [ofCtx, setPc])

theorem Tally.stepped (h : Tally (seen s)) (hs : Stepped s a s')
    (hr : s.todo.head? = some .requestStreamingReadIfNeeded →
      (s.ctx.rpc.events .read).pending = false) : Tally (seen s') := by
  refine hs.rule (J := fun c => Tally (ofCtx [] c)) (fun _ _ hq hj => hj.quiet hq) (fun _ _ hj => hj)
    (fun _ hj => hj) (fun _ _ _ hj => Tally.sends hj _ _) (fun _ hp hj => hj.begins hp)
    (fun _ _ _ _ hw hf hj => hj.issues hw hf) (fun t rest hout hj => ?_) (fun rest hout hj => ?_)
    (fun _ _ hb hm hj => Tally.other hj hb hm) hr h
  · have hpops : Tally (ofCtx rest (pops t ⟨s.ctx.toCell, []⟩)) := Tally.pops hj hout
    intro t'
    have h1 := hpops t'
    rw [outstanding_ofCtx] at h1 ⊢
    simpa [pops, use, log, ofCtx] using h1
  · have hneeded : Tally (ofCtx rest ⟨s.ctx.toCell, []⟩) := Tally.ofCtx_needed hj hout
    intro t'
    have h1 := hneeded t'
    rw [outstanding_ofCtx] at h1 ⊢
    simpa [ofCtx] using h1

/-- What the other threads leave alone. -/
theorem Moved.other {l' : Conn μ} (hb : ∀ sd script, b ≠ .handle sd script) (hm : Moved l b l') :
    l'.cell.active = l.cell.active ∧ l'.cell.rpc.handler = l.cell.rpc.handler ∧
      (l.cell.ops .newConnection = 0 → l'.cell.accepted = l.cell.accepted) ∧
      ∀ t, (l'.cell.rpc.events t).pending = (l.cell.rpc.events t).pending := by
  cases hm.kind with
  | @delivered t ok m hd =>
    refine ⟨rfl, rfl, fun h0 => if_neg ?_, fun t => pending_deliver _ t _ _ _⟩
    rintro rfl
    have hpos := (deliverable_iff.mp hd).1
    omega
  | handled => exact absurd rfl (hb _ _)
  | locked hw => exact ⟨hw.active, hw.handler, fun _ => hw.accepted, fun t => by rw [hw.events]⟩
  | stepped hw => exact ⟨hw.active, hw.handler, fun _ => hw.accepted, fun t => by rw [hw.events]⟩

theorem Accounted.logged (h : Accounted c.toCell) {act : Act μ} (hs : ∀ t, startedAct t act = none)
    (hh : ∀ t, handledAct t act = none) : Accounted (log act c).toCell := by
  refine h.of_eq (fun t => ?_) (fun t => ?_) (fun _ => rfl)
  · simp [log, started, hs]
  · simp [log, handledOks, hh]

theorem Accounted.sends (h : Accounted c.toCell) (items : List (SendItem μ)) (w : Bool) :
    Accounted ({ Moves.sends items c with writer := w } : Ctx μ).toCell := by
  refine h.of_eq (fun t => ?_) (fun t => ?_) (fun _ => rfl)
  · exact (started_append t _ _).trans (by rw [started_sendActs, List.append_nil])
  · exact (handledOks_append t _ _).trans (by rw [handledOks_sendActs, List.append_nil])

theorem Accounted.other {l' : Conn μ} (h : Accounted l.cell)
    (hb : ∀ sd script, b ≠ .handle sd script) (hm : Moved l b l') : Accounted l'.cell := by
  cases hm.kind with
  | @delivered t ok m =>
    refine h.of_eq (fun t => ?_) (fun t => ?_) (fun t => flag_deliver _ _ _ _ _)
    · simp [deliver, started, startedAct]
    · simp [deliver, handledOks, handledAct]
  | handled => exact absurd rfl (hb _ _)
  | locked hw => exact h.writerMoved hw
  | stepped hw => exact h.writerMoved hw

theorem Accounted.stepped (h : Accounted s.ctx.toCell) (hl : Tally (seen s)) (hs : Stepped s a s')
    (hr : s.todo.head? = some .requestStreamingReadIfNeeded →
      (s.ctx.rpc.events .read).pending = false) : Accounted s'.ctx.toCell := by
  refine hs.rule (J := fun c => Accounted c.toCell) (fun _ _ hq hj => hj.quiet hq)
    (fun _ _ hj => Accounted.logged hj (fun _ => rfl) (fun _ => rfl)) (fun _ hj => hj)
    (fun _ _ _ hj => Accounted.sends hj _ _) (fun _ hp hj => hj.begins _ hp)
    (fun _ _ _ _ hw hf hj => hj.issues hw hf) (fun t rest hout hj => ?_) (fun _ _ hj => hj)
    (fun _ _ hb hm hj => Accounted.other hj hb hm) hr h
  have hmem : .completion t ∈ (seen s).inbox := by
    show _ ∈ s.ctx.outbox
    rw [hout]
    exact List.mem_cons_self
  exact Accounted.pops (c := { s.ctx with outbox := rest }) hj (hl.of_mem hmem).1

theorem InOrder.other {l' : Conn μ} (h : InOrder l.cell) (hb : ∀ sd script, b ≠ .handle sd script)
    (hm : Moved l b l') : InOrder l'.cell := by
  cases hm with
  | delivered =>
    refine h.of_eq ?_ ?_ rfl rfl
    · simp [deliver, enqueued, enqueuedAct]
    · simp [deliver, sentOps, sentAct]
  | handled => exact absurd rfl (hb _ _)
  | locked => exact h
  | @enqueued i k hk hp =>
    refine h.enqueue [k.method.item] ?_ ?_ rfl rfl
    · simp [ofCtx, setPc, enqueueMessage, log, Ledger.enqueued, enqueuedAct]
    · simp [ofCtx, setPc, enqueueMessage, log, sentOps, sentAct]
  | gotWeakPtr => exact h
  | pushed =>
    refine h.of_eq ?_ ?_ rfl rfl
    · simp [ofCtx, setPc, pushWriteNeeded, log, Ledger.enqueued, enqueuedAct]
    · simp [ofCtx, setPc, pushWriteNeeded, log, sentOps, sentAct]
  | returned => exact h

theorem InOrder.stepped (h : InOrder s.ctx.toCell) (hs : Stepped s a s')
    (hr : s.todo.head? = some .requestStreamingReadIfNeeded →
      (s.ctx.rpc.events .read).pending = false) : InOrder s'.ctx.toCell := by
  refine hs.rule (J := fun c => InOrder c.toCell) (fun _ _ hq hj => hj.quiet hq)
    (fun cb c hj => ?_) (fun _ hj => hj) (fun items w c hj => ?_) (fun c _ hj => ?_)
    (fun _ _ _ hq _ _ hj => hj.issues hq) (fun t rest _ hj => ?_) (fun _ _ hj => hj)
    (fun _ _ hb hm hj => InOrder.other hj hb hm) hr h
  · refine hj.of_eq ?_ ?_ rfl rfl
    · simp [log, enqueued, enqueuedAct]
    · simp [log, sentOps, sentAct]
  · refine hj.enqueue items ?_ ?_ rfl rfl
    · exact List.filterMap_append.trans (congrArg _ (enqueued_sendActs items))
    · have hnone : sentOps (sendActs items) = [] := observe_sendActs (fun _ => rfl) rfl items
      exact List.filterMap_append.trans ((congrArg _ hnone).trans (List.append_nil _))
  · refine hj.of_eq ?_ ?_ rfl rfl
    · simp [begins_history, enqueued, enqueuedAct]
    · simp [begins_history, sentOps, sentAct, Op.tag]
  · refine hj.of_eq ?_ ?_ rfl rfl
    · simp [pops_history, enqueued, enqueuedAct, List.filterMap_cons]
    · simp [pops_history, sentOps, sentAct, List.filterMap_cons]

end Kept

/-! ### The stage of an `Rpc` -/

/-- The tasks can be done one after the other when `handler_` is set or not, as `handler` tells, and
`READ` is pending or not: the callbacks find a handler, no second read is started, and the removal of the
entry comes last. -/
def ready : List Task → Bool → Bool → Bool
  | [], _, _ => true
  | .use _ :: todo, handler, reading => ready todo handler reading
  | .onConnection :: todo, _, reading => ready todo true reading
  | .requestStreamingReadIfNeeded :: todo, handler, reading =>
    handler && !reading && ready todo handler true && ready todo handler reading
  | .onRequest :: todo, handler, reading => handler && ready todo handler reading
  | .onReadsDone :: todo, handler, reading => handler && ready todo handler reading
  | .onFinish :: todo, handler, reading => handler && ready todo handler reading
  | .handleSendQueue :: todo, handler, reading => ready todo handler reading
  | .removeIfNotPending :: todo, _, _ => todo.isEmpty

/-- There is a handler: `handler_` is set, or will be when `Initialize` returns. -/
def handles (s : Busy μ) : Bool := s.ctx.rpc.handler || s.inside == some .initializeHandler

/-- `NEW_CONNECTION` has been handled, or is being handled. While the entry is in `ActiveRpcs`, some event
is pending or the event thread will see to it; the entry stays there as long as `READ` is, or will be,
pending. -/
structure Begun (s : Busy μ) : Prop where
  settled : (s.ctx.rpc.events .newConnection).pending = false
  ready : ready s.todo (handles s) (s.ctx.rpc.events .read).pending = true
  served : Idle s.ctx.toCell ∨ handles s = true
  inside : s.inside ≠ none → handles s = true
  listed : (s.ctx.rpc.events .read).pending = true ∨ .requestStreamingReadIfNeeded ∈ s.todo ∨
    .onConnection ∈ s.todo → s.ctx.active = true
  ended : handles s = true → s.ctx.active = false → (s.ctx.rpc.events .done).pending = false
  busy : s.ctx.active = true → anyPending s.ctx.rpc = true ∨ .removeIfNotPending ∈ s.todo ∨
    .requestStreamingReadIfNeeded ∈ s.todo ∧
      requestStreaming s.ctx.rpc.rpcHandlerInfo.rpcType = true
  reads : (s.ctx.rpc.events .read).pending = true →
    requestStreaming s.ctx.rpc.rpcHandlerInfo.rpcType = true
  accepted : s.ctx.active = true → s.ctx.accepted = some true

/-- Before its `NEW_CONNECTION` is taken up, the `Rpc` waits as in `Single.Lifecycle`. -/
inductive Stage (s : Busy μ) : Prop
  | waiting (hi : Invariant (seen s)) (hn : (s.ctx.rpc.events .newConnection).pending = true)
      (htodo : s.todo = []) (hin : s.inside = none)
  | begun (h : Begun s)

section Stages
variable {rest : List RpcEvent}

theorem anyPending_congr {a b : Rpc μ} (h : ∀ t, (b.events t).pending = (a.events t).pending) :
    anyPending b = anyPending a := by
  simp only [anyPending, h]

/-- A step that leaves the flags, the handler, the entry and the tasks alone. -/
theorem Begun.frame (h : Begun s) (hp : ∀ t, (s'.ctx.rpc.events t).pending = (s.ctx.rpc.events t).pending)
    (hh : s'.ctx.rpc.handler = s.ctx.rpc.handler)
    (hinfo : s'.ctx.rpc.rpcHandlerInfo = s.ctx.rpc.rpcHandlerInfo)
    (ha : s'.ctx.active = s.ctx.active) (hacc : s'.ctx.accepted = s.ctx.accepted)
    (htodo : s'.todo = s.todo) (hin : s'.inside = s.inside)
    (hidle : Idle s.ctx.toCell → Idle s'.ctx.toCell ∨ handles s = true) : Begun s' := by
  have hhandles : handles s' = handles s := by unfold handles; rw [hh, hin]
  refine ⟨?_, ?_, ?_, ?_, ?_, ?_, ?_, ?_, ?_⟩
  · rw [hp]; exact h.settled
  · rw [htodo, hhandles, hp]; exact h.ready
  · rw [hhandles]; exact h.served.elim hidle Or.inr
  · rw [hin, hhandles]; exact h.inside
  · rw [hp, htodo, ha]; exact h.listed
  · rw [hhandles, ha, hp]; exact h.ended
  · rw [ha, anyPending_congr hp, htodo, hinfo]; exact h.busy
  · rw [hp, hinfo]; exact h.reads
  · rw [ha, hacc]; exact h.accepted

/-- The other threads do not change the stage; a `Writer` is only used once there is a handler. -/
theorem Begun.other {b : Step μ} {l : Conn μ} (h : Begun s) (hl : Tally (seen s))
    (hb : ∀ sd script, b ≠ .handle sd script) (hm : Moved (seen s) b l) :
    Begun ⟨⟨l.cell, l.inbox⟩, s.todo, s.inside⟩ := by
  obtain ⟨ha, hh, hacc, hp⟩ := Moved.other hb hm
  have hn := (hl.of_not_pending (t := .newConnection) h.settled).1
  refine h.frame hp hh (rpcType_of_fixed hm.fixed) ha (hacc hn) rfl rfl (fun hi => ?_)
  cases hm with
  | delivered => exact .inl (hi.of_eq rfl rfl rfl rfl (fun t _ _ => hp t))
  | handled => exact absurd rfl (hb _ _)
  | locked hw => cases hi.writer.symm.trans hw
  | enqueued hk => exact absurd hi (not_idle_of_call hk)
  | gotWeakPtr hk => exact absurd hi (not_idle_of_call hk)
  | pushed hk => exact absurd hi (not_idle_of_call hk)
  | returned hk => exact absurd hi (not_idle_of_call hk)

theorem Begun.left (h : Begun s) {p : Inside} (hin : s.inside = some p) :
    Begun (leave s.ctx s.todo p) := by
  have hh : handles s = true := h.inside (by rw [hin]; simp)
  have hready := h.ready
  rw [hh] at hready
  cases p with
  | initializeHandler =>
    exact ⟨h.settled, hready, .inr rfl, fun hne => absurd rfl hne, h.listed, fun _ => h.ended hh, h.busy,
      h.reads, h.accepted⟩
  | throughHandler =>
    have hhandler : s.ctx.rpc.handler = true := by simpa [handles, hin] using hh
    have hh' : handles (leave s.ctx s.todo .throughHandler) = true := by
      simp [handles, leave, hhandler]
    refine ⟨h.settled, ?_, .inr hh', fun hne => absurd rfl hne, h.listed, fun _ => h.ended hh, h.busy,
      h.reads, h.accepted⟩
    rw [hh']
    exact hready

theorem Begun.called (h : Begun s) {p : Inside} (hin : s.inside = some p) (items : List (SendItem μ))
    (w : Bool) : Begun ⟨{ sends items s.ctx with writer := w }, s.todo, s.inside⟩ :=
  h.frame (fun _ => rfl) rfl rfl rfl rfl rfl rfl (fun _ => .inr (h.inside (by rw [hin]; simp)))

/-- A step of the event thread that leaves the entry and the flags of `NEW_CONNECTION` and `DONE`
alone. -/
theorem Begun.go (h : Begun s) (ha : s'.ctx.active = s.ctx.active)
    (hacc : s'.ctx.accepted = s.ctx.accepted)
    (hinfo : s'.ctx.rpc.rpcHandlerInfo = s.ctx.rpc.rpcHandlerInfo)
    (hn : s'.ctx.rpc.events .newConnection = s.ctx.rpc.events .newConnection)
    (hd : s'.ctx.rpc.events .done = s.ctx.rpc.events .done)
    (hready : Tasks.ready s'.todo (handles s') (s'.ctx.rpc.events .read).pending = true)
    (hserved : Idle s'.ctx.toCell ∨ handles s' = true) (hinside : s'.inside ≠ none → handles s' = true)
    (hlisted : (s'.ctx.rpc.events .read).pending = true ∨ .requestStreamingReadIfNeeded ∈ s'.todo ∨
        .onConnection ∈ s'.todo →
      (s.ctx.rpc.events .read).pending = true ∨ .requestStreamingReadIfNeeded ∈ s.todo ∨
        .onConnection ∈ s.todo)
    (hended : handles s' = true → handles s = true ∨ s.ctx.active = true)
    (hbusy : anyPending s.ctx.rpc = true ∨ .removeIfNotPending ∈ s.todo ∨
        .requestStreamingReadIfNeeded ∈ s.todo ∧
          requestStreaming s.ctx.rpc.rpcHandlerInfo.rpcType = true →
      anyPending s'.ctx.rpc = true ∨ .removeIfNotPending ∈ s'.todo ∨
        .requestStreamingReadIfNeeded ∈ s'.todo ∧
          requestStreaming s.ctx.rpc.rpcHandlerInfo.rpcType = true)
    (hreads : (s'.ctx.rpc.events .read).pending = true → (s.ctx.rpc.events .read).pending = true ∨
      requestStreaming s.ctx.rpc.rpcHandlerInfo.rpcType = true) : Begun s' := by
  refine ⟨?_, hready, hserved, hinside, ?_, ?_, ?_, ?_, ?_⟩
  · rw [hn]; exact h.settled
  · rw [ha]; exact fun hl => h.listed (hlisted hl)
  · intro hh hoff
    rw [ha] at hoff
    rw [hd]
    rcases hended hh with hh | hon
    · exact h.ended hh hoff
    · cases hoff.symm.trans hon
  · rw [ha, hinfo]; exact fun hon => hbusy (h.busy hon)
  · rw [hinfo]; exact fun hp => (hreads hp).elim h.reads id
  · rw [ha, hacc]; exact h.accepted

theorem Begun.handler_of_ready (h : Begun s) {task : Task} {todo : List Task}
    (htodo : s.todo = task :: todo) (hin : s.inside = none) :
    handles s = s.ctx.rpc.handler ∧
      Tasks.ready (task :: todo) s.ctx.rpc.handler (s.ctx.rpc.events .read).pending = true := by
  have hh : handles s = s.ctx.rpc.handler := by simp [handles, hin]
  have hready := h.ready
  rw [htodo, hh] at hready
  exact ⟨hh, hready⟩

/-- An idle `Rpc` has nothing to send. -/
theorem idle_sentQueue (hi : Idle c.toCell) (hq : SentQueue c c') : c' = c := by
  cases hq with
  | idle => rfl
  | issued hq => cases hi.sendQueue.symm.trans hq

theorem anyPending_sentQueue (hq : SentQueue c c') (h : anyPending c.rpc = true) :
    anyPending c'.rpc = true := by
  cases hq with
  | idle => exact h
  | @issued item rest hq hw hf =>
    refine anyPending_of _ (opOf c.rpc.rpcHandlerInfo.rpcType item).tag ?_ ?_
    · rcases opOf_tag c.rpc.rpcHandlerInfo.rpcType item with ht | ht <;> rw [ht] <;> decide
    · exact begins_pending_self _ _

theorem Begun.performed (h : Begun s) {task : Task} {todo new : List Task} {inside : Option Inside}
    (htodo : s.todo = task :: todo) (hin : s.inside = none)
    (hp : Performed s.ctx task c' new inside) : Begun ⟨c', new ++ todo, inside⟩ := by
  obtain ⟨hhandles, hready⟩ := h.handler_of_ready htodo hin
  have hserved : Idle s.ctx.toCell ∨ s.ctx.rpc.handler = true := hhandles ▸ h.served
  cases hp with
  | used =>
    refine h.go rfl rfl rfl rfl rfl (by simpa [handles, Tasks.ready, use, log] using hready) ?_
      (fun hne => absurd rfl hne) (by simp [htodo, use, log])
      (fun hh => .inl (hhandles.trans (by simpa [handles, use, log] using hh)))
      (by simp [htodo, use, log]) .inl
    exact hserved.imp (fun hi => hi.of_eq rfl rfl rfl rfl (fun _ _ _ => rfl)) (by simp [handles, use, log])
  | connected hh =>
    refine h.go rfl rfl rfl rfl rfl ?_ (.inr ?_) (fun hne => absurd rfl hne) (by simp [htodo])
      (fun _ => .inl (hhandles.trans hh)) (by simp [htodo]) .inl
    · simpa [handles, Tasks.ready, hh] using hready
    · simp [handles, hh]
  | connecting hh =>
    have hon : s.ctx.active = true := h.listed (.inr (.inr (by simp [htodo])))
    refine h.go rfl rfl rfl rfl rfl ?_ (.inr ?_) (fun _ => ?_) (by simp [htodo, log])
      (fun _ => .inr hon) (by simp [htodo, log]) .inl
    · simpa [handles, Tasks.ready, log] using hready
    · simp [handles]
    · simp [handles]
  | streaming ht =>
    simp only [Tasks.ready, Bool.and_eq_true, Bool.not_eq_true'] at hready
    obtain ⟨⟨⟨hh, hno⟩, hnext⟩, -⟩ := hready
    have hread := begins_pending_self .read s.ctx
    refine h.go rfl rfl rfl ?_ ?_ ?_ (.inr ?_) (fun hne => absurd rfl hne)
      (fun _ => .inr (.inl (by simp [htodo]))) (fun _ => .inl (hhandles.trans hh))
      (fun _ => .inl (anyPending_of _ .read (by decide) hread)) (fun _ => .inr ht)
    · exact begins_events_of_ne (by simp [Op.tag]) _
    · exact begins_events_of_ne (by simp [Op.tag]) _
    · rw [show handles _ = true by simpa [handles, begins, startOp, log, setPending] using hh]
      rw [hh] at hnext
      exact (congrArg _ hread).trans hnext
    · simpa [handles, begins, startOp, log, setPending] using hh
  | unary ht =>
    simp only [Tasks.ready, Bool.and_eq_true, Bool.not_eq_true'] at hready
    obtain ⟨⟨⟨hh, hno⟩, -⟩, hnext⟩ := hready
    refine h.go rfl rfl rfl rfl rfl ?_ (.inr ?_) (fun hne => absurd rfl hne) (by simp [htodo])
      (fun _ => .inl (hhandles.trans hh)) ?_ .inl
    · simpa [handles, Tasks.ready, hh] using hnext
    · simp [handles, hh]
    · simp [htodo, ht]
  | @entered _ cb hcb hh =>
    have hnext : Tasks.ready todo true (s.ctx.rpc.events .read).pending = true := by
      cases task <;> simp_all [callbackOf, Tasks.ready]
    refine h.go rfl rfl rfl rfl rfl ?_ (.inr ?_) (fun _ => ?_) ?_
      (fun _ => .inl (hhandles.trans hh)) ?_ .inl
    · simpa [handles, log, hh] using hnext
    · simp [handles, log, hh]
    · simp [handles, log, hh]
    · cases task <;> simp_all [callbackOf, log]
    · cases task <;> simp_all [callbackOf, log]
  | sent hq =>
    obtain ⟨hacc, hh, ha, -, -, -⟩ := hq.frame
    have hread := hq.events_of_ne (t := .read) (by decide) (by decide)
    refine h.go ha hacc (rpcType_of_fixed hq.fixed) (hq.events_of_ne (by decide) (by decide))
      (hq.events_of_ne (by decide) (by decide)) ?_ ?_ (fun hne => absurd rfl hne) ?_ (fun hh' => .inl ?_) ?_
      (fun hp => .inl (by rwa [hread] at hp))
    · simpa [handles, hh, hread, Tasks.ready] using hready
    · rcases hserved with hi | hserved
      · exact .inl (by rw [idle_sentQueue hi hq]; exact hi)
      · exact .inr (by simp [handles, hh, hserved])
    · simp [htodo, hread]
    · rw [hhandles]
      simpa [handles, hh] using hh'
    · rintro (hp | hm)
      · exact .inl (anyPending_sentQueue hq hp)
      · exact .inr (by simpa [htodo] using hm)
  | tidied =>
    -- The removal is the last task; it leaves an entry only if some event is pending.
    obtain rfl : todo = [] := by simpa [Tasks.ready] using hready
    have hsame : handles ⟨tidies s.ctx, [], none⟩ = s.ctx.rpc.handler := by simp [handles]
    refine ⟨?_, rfl, ?_, fun hne => absurd rfl hne, ?_, ?_, ?_, ?_, fun hon => ?_⟩
    · rw [tidies_rpc]; exact h.settled
    · refine hserved.imp (fun hi => hi.of_eq ?_ ?_ ?_ ?_ (fun t _ _ => ?_)) (fun hh => hsame.trans hh)
      all_goals simp
    · simp only [tidies_rpc, tidies_active, List.append_nil, List.not_mem_nil, or_false]
      intro hp
      rw [h.listed (.inl hp), anyPending_of _ .read (by decide) hp]
      rfl
    · intro hh hoff
      rw [tidies_rpc]
      rw [tidies_active] at hoff
      rcases Bool.and_eq_false_iff.mp hoff with hoff | hoff
      · exact h.ended (hhandles.trans (hsame.symm.trans hh)) hoff
      · exact anyPending_eq_false.mp hoff _ (by decide)
    · intro hon
      rw [tidies_active] at hon
      exact .inl (by rw [tidies_rpc]; exact (Bool.and_eq_true_iff.mp hon).2)
    · rw [tidies_rpc]; exact h.reads
    · rw [tidies_active] at hon
      rw [tidies_accepted]
      exact h.accepted (Bool.and_eq_true_iff.mp hon).1

/-- The event of a tag other than `NEW_CONNECTION` is taken up. -/
theorem Begun.popped (h : Begun s) {t : Tag} {todo : List Task} (hin : s.inside = none)
    (hpend : (s.ctx.rpc.events t).pending = true)
    (hready : (s.ctx.rpc.handler = true ∨ t = .done) → Tasks.ready todo s.ctx.rpc.handler
      ((pops t { s.ctx with outbox := rest }).rpc.events .read).pending = true)
    (hlisted : .requestStreamingReadIfNeeded ∈ todo → t = .read) (hconnect : .onConnection ∉ todo)
    (hbusy : .removeIfNotPending ∈ todo ∨ t = .read ∧ .requestStreamingReadIfNeeded ∈ todo) :
    Begun ⟨pops t { s.ctx with outbox := rest }, todo, none⟩ := by
  have hsame : handles ⟨pops t { s.ctx with outbox := rest }, todo, none⟩ = s.ctx.rpc.handler := by
    simp [handles, pops, use, log, setPending]
  have hhandles : handles s = s.ctx.rpc.handler := by simp [handles, hin]
  have hn : Tag.newConnection ≠ t := by
    rintro rfl
    cases h.settled.symm.trans hpend
  have hserved : t = .done ∧ Idle s.ctx.toCell ∨ s.ctx.rpc.handler = true := by
    rcases h.served with hi | hh
    · refine .inl ⟨?_, hi⟩
      by_contra hd
      cases (hi.quiet t hn.symm hd).symm.trans hpend
    · exact .inr (hhandles ▸ hh)
  refine ⟨?_, ?_, ?_, fun hne => absurd rfl hne, ?_, fun hh hoff => ?_, fun hon => ?_, fun hp => ?_,
    h.accepted⟩
  · rw [pops_events_of_ne hn]; exact h.settled
  · rw [hsame]
    exact hready (hserved.elim (fun hd => .inr hd.1) .inl)
  · rcases hserved with ⟨rfl, hi⟩ | hh
    · exact .inl (hi.popped (.inr rfl))
    · exact .inr (hsame.trans hh)
  · rintro (hp | hm | hm)
    · exact h.listed (.inl (pending_of_pops (c := { s.ctx with outbox := rest }) hp))
    · obtain rfl := hlisted hm
      exact h.listed (.inl hpend)
    · exact absurd hm hconnect
  · have hdone := h.ended (hhandles.trans (hsame.symm.trans hh)) hoff
    by_contra hp
    cases hdone.symm.trans (pending_of_pops (c := { s.ctx with outbox := rest }) (by simpa using hp))
  · refine .inr (hbusy.imp_right ?_)
    rintro ⟨rfl, hm⟩
    exact ⟨hm, h.reads hpend⟩
  · exact h.reads (pending_of_pops (c := { s.ctx with outbox := rest }) hp)

theorem Begun.takenUp (h : Begun s) (hl : Tally (seen s)) {sd : Bool} {e : RpcEvent}
    (hout : s.ctx.outbox = e :: rest) (htodo : s.todo = []) (hin : s.inside = none) :
    Begun ⟨(takeUp sd e { s.ctx with outbox := rest }).1,
      (takeUp sd e { s.ctx with outbox := rest }).2, none⟩ := by
  cases e with
  | completion t =>
    have hpend : (s.ctx.rpc.events t).pending = true := by
      refine (hl.of_mem ?_).1
      show _ ∈ s.ctx.outbox
      rw [hout]
      exact List.mem_cons_self
    rw [takeUp_completion]
    cases t with
    | newConnection => cases h.settled.symm.trans hpend
    | read =>
      have hno := pops_pending_self .read { s.ctx with outbox := rest }
      unfold completionTasks
      dsimp only
      split_ifs
      · exact h.popped hin hpend (fun hh => by simp_all [Tasks.ready]) (by simp) (by simp) (by simp)
      · exact h.popped hin hpend (fun hh => by simp_all [Tasks.ready]) (by simp) (by simp) (by simp)
    | write =>
      unfold completionTasks
      dsimp only
      exact h.popped hin hpend (fun _ => rfl) (by simp [writeTasks]) (by simp [writeTasks])
        (by simp [writeTasks])
    | finish =>
      unfold completionTasks
      dsimp only
      exact h.popped hin hpend (fun hh => by simp_all [Tasks.ready]) (by simp) (by simp) (by simp)
    | done =>
      unfold completionTasks
      dsimp only
      exact h.popped hin hpend (fun _ => rfl) (by simp) (by simp) (by simp)
  | writeNeeded =>
    have hhandles : handles s = s.ctx.rpc.handler := by simp [handles, hin]
    show Begun ⟨(if _ then _ else _ : Ctx μ × List Task).1,
      (if _ then _ else _ : Ctx μ × List Task).2, none⟩
    split_ifs with halive
    · refine h.go rfl rfl rfl rfl rfl rfl ?_ (fun hne => absurd rfl hne) ?_ (fun hh => .inl ?_)
        (fun _ => .inr (.inl (by simp [writeTasks]))) .inl
      · rcases h.served with hi | hh
        · exact .inl (hi.of_eq rfl rfl rfl rfl (fun _ _ _ => rfl))
        · exact .inr (by simpa [handles, hin, use, log] using hh)
      · simp only [writeTasks]
        rintro (hp | hm | hm)
        · exact .inl hp
        · simp at hm
        · simp at hm
      · rw [hhandles]
        simpa [handles, use, log] using hh
    · exact h.frame (fun _ => rfl) rfl rfl rfl rfl htodo.symm hin.symm
        (fun hi => .inl (hi.of_eq rfl rfl rfl rfl (fun _ _ _ => rfl)))

theorem ready_of_uses : ∀ {todo : List Task}, (∀ task ∈ todo, ∃ m, task = .use m) →
    ∀ handler reading, Tasks.ready todo handler reading = true
  | [], _, _, _ => rfl
  | task :: todo, h, handler, reading => by
    obtain ⟨m, rfl⟩ := h task List.mem_cons_self
    exact ready_of_uses (fun task hm => h task (List.mem_cons_of_mem _ hm)) handler reading

/-- `NEW_CONNECTION` is taken up. -/
theorem begun_of_waiting (hi : Invariant (seen s)) {sd : Bool}
    (hout : s.ctx.outbox = .completion .newConnection :: rest) :
    Begun ⟨(takeUp sd (.completion .newConnection) { s.ctx with outbox := rest }).1,
      (takeUp sd (.completion .newConnection) { s.ctx with outbox := rest }).2, none⟩ := by
  have hhead : (seen s).inbox = .completion .newConnection :: rest := hout
  obtain ⟨hidle, hon, hacc, hdone⟩ := hi.idle hhead
  let c : Ctx μ := pops .newConnection { s.ctx with outbox := rest }
  have hpopped : Idle c.toCell := hidle.popped (.inl rfl)
  have hread : (c.rpc.events .read).pending = false := hpopped.quiet _ (by decide) (by decide)
  have hsettled : (c.rpc.events .newConnection).pending = false := pops_pending_self _ _
  have hremoved (todo : List Task) (htodo : ∀ task ∈ todo, ∃ m, task = .use m) :
      Begun ⟨remove .handleNewConnection c, todo, none⟩ := by
    refine ⟨?_, ready_of_uses htodo _ _, .inl ?_, fun hne => absurd rfl hne, ?_, fun hh => ?_,
      fun hon => ?_, fun hp => ?_, fun hon => ?_⟩
    · rw [remove_rpc]; exact hsettled
    · refine hpopped.of_eq ?_ ?_ ?_ ?_ (fun t _ _ => ?_)
      all_goals simp
    · rintro (hp | hm | hm)
      · rw [remove_rpc] at hp
        cases hread.symm.trans hp
      · obtain ⟨m, hm⟩ := htodo _ hm
        cases hm
      · obtain ⟨m, hm⟩ := htodo _ hm
        cases hm
    · simp [handles, hpopped.handler] at hh
    · rw [remove_active] at hon
      cases hon
    · rw [remove_rpc] at hp
      cases hread.symm.trans hp
    · rw [remove_active] at hon
      cases hon
  rw [takeUp_completion]
  unfold completionTasks
  dsimp only
  split_ifs with _ hok
  · exact hremoved [] (by simp)
  · refine ⟨hsettled, ?_, .inl hpopped, fun hne => absurd rfl hne, fun _ => hon, fun hh => ?_,
      fun _ => .inl ?_, fun hp => ?_, fun _ => hacc.trans (congrArg some hok)⟩
    · simp [Tasks.ready, show ((pops .newConnection { s.ctx with outbox := rest }).rpc.events
        .read).pending = false from hread]
    · have hno : c.rpc.handler = false := hpopped.handler
      simp only [handles, Bool.or_eq_true] at hh
      rcases hh with hh | hh
      · cases hno.symm.trans hh
      · cases hh
    · refine anyPending_of _ .done (by decide) ?_
      rw [pops_events_of_ne (by decide)]
      exact hdone
    · cases hread.symm.trans hp
  · exact hremoved [.use .clone] (by simp)

theorem Stage.stepped (h : Stage s) (hl : Tally (seen s)) (hs : Stepped s a s') : Stage s' := by
  cases h with
  | waiting hi hn htodo hin =>
    cases hs with
    | @takenUp sd e rest hout _ _ =>
      obtain rfl : e = .completion .newConnection := by
        cases hi.phase with
        | listening _ _ _ _ _ hin => cases hin.symm.trans hout
        | delivered _ _ _ _ _ hin => exact (List.cons.inj (hout.symm.trans hin)).1
        | connected hc => cases hc.settled.symm.trans hn
        | refused _ _ _ hn' => cases hn'.symm.trans hn
      exact .begun (begun_of_waiting hi hout)
    | performed htodo' => cases htodo.symm.trans htodo'
    | left hin' => cases hin.symm.trans hin'
    | called hin' => cases hin.symm.trans hin'
    | other hb hm =>
      exact .waiting (hi.moved hm) (((Moved.other (otherStep_ne_handle hb) hm).2.2.2 _).trans hn) htodo hin
  | begun h =>
    refine .begun ?_
    cases hs with
    | takenUp hout htodo hin => exact h.takenUp hl hout htodo hin
    | performed htodo hin hp => exact h.performed htodo hin hp
    | left hin => exact h.left hin
    | called hin => exact h.called hin _ _
    | other hb hm => exact h.other hl (otherStep_ne_handle hb) hm

/-- Before its `NEW_CONNECTION` is taken up, nobody talks to a handler. -/
theorem idle_of_waiting (hi : Invariant (seen s)) (hn : (s.ctx.rpc.events .newConnection).pending = true) :
    Idle s.ctx.toCell := by
  cases hi.phase with
  | listening hi => exact hi
  | delivered hi => exact hi
  | connected hc => cases hc.settled.symm.trans hn
  | refused hi => exact hi

theorem Stage.served (h : Stage s) : Idle s.ctx.toCell ∨ handles s = true := by
  cases h with
  | waiting hi hn => exact .inl (idle_of_waiting hi hn)
  | begun h => exact h.served

/-- gRPC works on a request or a response only for a handler. -/
theorem Stage.handles_of_pending (h : Stage s) {t : Tag} (hn : t ≠ .newConnection) (hd : t ≠ .done)
    (hp : (s.ctx.rpc.events t).pending = true) : handles s = true := by
  refine h.served.resolve_left fun hi => ?_
  cases (hi.quiet t hn hd).symm.trans hp

/-- No read is pending when the next one is to be started. -/
theorem Stage.no_read (h : Stage s) (hhead : s.todo.head? = some .requestStreamingReadIfNeeded) :
    (s.ctx.rpc.events .read).pending = false := by
  cases h with
  | waiting _ _ htodo => simp [htodo] at hhead
  | begun h =>
    obtain ⟨todo, htodo⟩ := List.head?_eq_some_iff.mp hhead
    have hready := h.ready
    rw [htodo] at hready
    simp only [Tasks.ready, Bool.and_eq_true, Bool.not_eq_true'] at hready
    exact hready.1.1.2

end Stages

/-! ### The invariant -/

/-- What holds in every state: the flags tell which tags are outstanding and which operations have not
been handled, the items go out in order, at most one of `WRITE` and `FINISH` is pending, the readers and
writers are there, and the `Rpc` is in one of its stages. -/
structure Sound (s : Busy μ) : Prop where
  tally : Tally (seen s)
  accounted : Accounted s.ctx.toCell
  inOrder : InOrder s.ctx.toCell
  exclusive : (s.ctx.rpc.events .write).pending = false ∨ (s.ctx.rpc.events .finish).pending = false
  equipped : Equipped s.ctx.rpc
  stage : Stage s

theorem sound_of_fresh (hf : Fresh l0) : Sound (idle l0) := by
  have hinv := invariant_of_fresh hf
  have hacc := accounted_of_fresh hf
  have hord := inOrder_of_fresh hf
  obtain ⟨_, _, _, _, _, rfl⟩ := fresh_eq hf
  exact ⟨hinv.tally, hacc, hord, .inl rfl, rfl, .waiting hinv rfl rfl rfl⟩

theorem exclusive_stepped (hs : Stepped s a s')
    (hr : s.todo.head? = some .requestStreamingReadIfNeeded → (s.ctx.rpc.events .read).pending = false)
    (h : (s.ctx.rpc.events .write).pending = false ∨ (s.ctx.rpc.events .finish).pending = false) :
    (s'.ctx.rpc.events .write).pending = false ∨ (s'.ctx.rpc.events .finish).pending = false := by
  refine hs.rule (J := fun c => (c.rpc.events .write).pending = false ∨
    (c.rpc.events .finish).pending = false) (fun _ _ hq hj => by rw [hq.rpc]; exact hj)
    (fun _ _ hj => hj) (fun _ hj => hj) (fun _ _ _ hj => hj) (fun c _ hj => ?_)
    (fun c item rest _ hw hf _ => ?_) (fun t rest _ hj => ?_) (fun _ _ hj => hj)
    (fun b l hb hm hj => ?_) hr h
  · rw [begins_events_of_ne (by simp [Op.tag]), begins_events_of_ne (by simp [Op.tag])]
    exact hj
  · -- One operation is started while neither is pending.
    have hother (t : Tag) (ht : t ≠ (opOf c.rpc.rpcHandlerInfo.rpcType item).tag) :
        (issues item rest c).rpc.events t = c.rpc.events t := by
      unfold issues
      dsimp only
      rw [begins_events_of_ne ht]
      split_ifs <;> rfl
    rcases opOf_tag c.rpc.rpcHandlerInfo.rpcType item with ht | ht
    · exact .inr (by rw [hother _ (by rw [ht]; decide)]; exact hf)
    · exact .inl (by rw [hother _ (by rw [ht]; decide)]; exact hw)
  · refine hj.imp (fun hp => ?_) (fun hp => ?_)
    · exact Bool.eq_false_iff.mpr fun h => Bool.eq_false_iff.mp hp (pending_of_pops h)
    · exact Bool.eq_false_iff.mpr fun h => Bool.eq_false_iff.mp hp (pending_of_pops h)
  · have hp := (Moved.other hb hm).2.2.2
    rw [hp, hp]
    exact hj

/-- A step leaves the fixed fields of the `Rpc` alone. -/
theorem Stepped.fixed (hs : Stepped s a s') : fixedPart s'.ctx.rpc = fixedPart s.ctx.rpc := by
  cases hs with
  | takenUp => exact (kept_takeUp _ _ _).fixed
  | performed _ _ hp =>
    cases hp with
    | sent hq => exact hq.fixed
    | tidied => exact congrArg fixedPart (tidies_rpc _)
    | _ => rfl
  | @left p => cases p <;> rfl
  | called => rfl
  | other _ hm => exact hm.fixed

theorem Sound.stepped (h : Sound s) (hs : Stepped s a s') : Sound s' where
  tally := Tally.stepped h.tally hs h.stage.no_read
  accounted := Accounted.stepped h.accounted h.tally hs h.stage.no_read
  inOrder := InOrder.stepped h.inOrder hs h.stage.no_read
  exclusive := exclusive_stepped hs h.stage.no_read h.exclusive
  equipped := equipped_of_fixed hs.fixed h.equipped
  stage := h.stage.stepped h.tally hs

/-- **The invariant holds whatever runs between two steps of the event thread.** -/
theorem sound_of_reachable (hf : Fresh l0) (hs : Reachable (interleaved l0) s) : Sound s :=
  inv_of_reachable (sound_of_fresh hf) (fun _ _ _ hi hs => hi.stepped (stepped_of_step hs)) hs

end AsyncGrpc.Single.Tasks
