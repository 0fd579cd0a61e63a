import Mathlib.Data.List.Induction
import AsyncGrpc.Single.Order

/-! # Sending

What becomes of the items that handlers and `Writer`s enqueue. -/

namespace AsyncGrpc.Service.Sending

open AsyncGrpc.Lib.Runs AsyncGrpc.Lib.Histories
open AsyncGrpc.Model.Types AsyncGrpc.Model.Rpc AsyncGrpc.Model.Service AsyncGrpc.Model.Server
open AsyncGrpc.Single.Machine AsyncGrpc.Single.Moves AsyncGrpc.Single.Project
open AsyncGrpc.Single.Lifecycle AsyncGrpc.Single.Ledger AsyncGrpc.Single.Order

variable {μ : Type} {cfg : Config}

/-! ### Order -/

/-- **Nothing is reordered, lost, repeated or altered.** In every run the items of an `Rpc`, in the
order of their `EnqueueMessage` calls, are those handed to gRPC, each by the operation for it,
followed by those in `send_queue_`. -/
theorem sent_then_queued {s : State μ} {r : ℕ} {c : Cell μ} (hs : Reachable (server μ cfg) s)
    (hc : s.cells[r]? = some c) :
    ∃ sent, enqueued c.history = sent ++ c.rpc.sendQueue ∧
      sentOps c.history = sent.map (opOf c.rpc.rpcHandlerInfo.rpcType) :=
  inOrder_of_walk (walks_of_reachable hs (conn_of_cell hc))

/-- Two threads write at once: the first item is being sent when the second is enqueued. -/
theorem sent_then_queued_two_writers : ∃ (s : State ℕ) (c : Cell ℕ),
    Reachable (server ℕ (.single .serverStreaming)) s ∧ s.cells[0]? = some c ∧
      enqueued c.history = [⟨some 1, .OK⟩, ⟨some 2, .OK⟩] ∧ c.rpc.sendQueue = [⟨some 2, .OK⟩] ∧
      sentOps c.history = [.write 1] := by
  obtain ⟨s, hr, hp⟩ := exists_run (server ℕ (.single .serverStreaming))
    [.deliver 0 .newConnection true 7, .handle 0 { onRequest := [.getWriter] },
      .lockWriter 0 (.write (some 1)), .lockWriter 0 (.write (some 2)), .stepWriter 0 0,
      .stepWriter 0 0, .stepWriter 0 1, .stepWriter 0 0, .stepWriter 0 1, .handle 0 {},
      .stepWriter 0 1, .handle 0 {}]
    (fun s => s.cells[0]?.any (fun c : Cell ℕ => decide (
      enqueued c.history = [⟨some 1, .OK⟩, ⟨some 2, .OK⟩] ∧ c.rpc.sendQueue = [⟨some 2, .OK⟩] ∧
        c.rpc.rpcHandlerInfo.rpcType = .serverStreaming))) (by decide)
  simp only [Option.any_eq_true, decide_eq_true_eq] at hp
  obtain ⟨c, hc, henq, hq, ht⟩ := hp
  obtain ⟨sent, h1, h2⟩ := sent_then_queued hr.reachable hc
  refine ⟨s, c, hr.reachable, hc, henq, hq, ?_⟩
  have hsent : sent = [⟨some 1, .OK⟩] := by
    rw [henq, hq] at h1
    have h3 : [⟨some 1, .OK⟩] ++ [⟨some 2, .OK⟩] = sent ++ [⟨some 2, .OK⟩] := h1
    exact (List.append_cancel_right h3).symm
  rw [h2, hsent, ht]
  rfl

/-! ### Finishing -/

/-- No `Write`, `Finish` or `FinishWithError` is issued once a `Finish` or `FinishWithError` was. -/
def FinishIsLast (pre : List (Act μ)) (a : Act μ) : Prop :=
  ∀ op, a = .start op → op.tag = .write ∨ op.tag = .finish → started .finish pre = []

instance instDecidableFinishIsLast [DecidableEq μ] (pre : List (Act μ)) (a : Act μ) :
    Decidable (FinishIsLast pre a) :=
  decidableOfReads operation operation_eq_some
    (fun op => op.tag = .write ∨ op.tag = .finish → started .finish pre = []) a

section Finish
variable {l l' : Conn μ} {b : Step μ} {c c' : Ctx μ} {sd : Bool} {e : RpcEvent}
  {rest : List RpcEvent}

theorem finishIsLast_of_startless {a : Act μ} (h : startless a = true) (pre : List (Act μ)) :
    FinishIsLast pre a := by
  rintro op rfl
  cases h

theorem finishIsLast_read (pre : List (Act μ)) : FinishIsLast pre (.start .read) := by
  intro op h ht
  cases h
  rcases ht with ht | ht <;> cases ht

theorem started_of_startless {t : Tag} {acts : List (Act μ)}
    (h : ∀ a ∈ acts, startless a = true) : started t acts = [] := by
  refine List.filterMap_eq_nil_iff.mpr (fun a ha => ?_)
  have := h a ha
  cases a <;> simp_all [startless, startedAct]

/-- A `Finish` that is the last operation is the only one. -/
theorem started_finish_le_one {h : List (Act μ)} :
    Orderly FinishIsLast h → (started .finish h).length ≤ 1 := by
  induction h using List.reverseRecOn with
  | nil => intro _; simp [started]
  | append_singleton h a ih =>
    intro ho
    obtain ⟨h1, h2⟩ := orderly_snoc.mp ho
    rw [started_append, List.length_append]
    have hle := ih h1
    rcases ha : startedAct .finish a with _ | op
    · simpa [started, ha] using hle
    · have hnil : started .finish h = [] := by
        cases a with
        | start op' =>
          simp only [startedAct] at ha
          split_ifs at ha with ht
          exact h2 op' rfl (Or.inr ht)
        | _ => cases ha
      rw [hnil]
      simp [started, ha]

/-- While `FINISH` is the last operation, no `WRITE` is pending beside or after it. -/
def WriteOver (c : Cell μ) : Prop :=
  Orderly FinishIsLast c.history → started .finish c.history ≠ [] →
    (c.rpc.events .write).pending = false

theorem WriteOver.of_startless {a b : Cell μ} (h : WriteOver a) (acts : List (Act μ))
    (hh : b.history = a.history ++ acts) (hacts : ∀ x ∈ acts, startless x = true)
    (hw : (a.rpc.events .write).pending = false → (b.rpc.events .write).pending = false) :
    WriteOver b := by
  intro ho hs
  rw [hh] at ho hs
  rw [orderly_append_of_forall (fun x hx => finishIsLast_of_startless (hacts x hx))] at ho
  rw [started_append, started_of_startless hacts, List.append_nil] at hs
  exact hw (h ho hs)

theorem writeOver_issues {item : SendItem μ} {rest : List (SendItem μ)}
    (hw : (c.rpc.events .write).pending = false) : WriteOver (issues item rest c).toCell := by
  intro ho hs
  rw [issues_history, issueActs, ← List.append_assoc] at ho hs
  obtain ⟨h1, h2⟩ := orderly_snoc.mp ho
  have hop := opOf_tag c.rpc.rpcHandlerInfo.rpcType item
  -- the operation is allowed, so it is the first `Finish` if it is one
  have hnil := h2 _ rfl hop
  rcases hop with hop | hop
  · rw [started_append, hnil] at hs
    exact absurd (by simp [started, startedAct, hop]) hs
  · unfold issues
    dsimp only
    rw [begins_events_of_ne (by rw [hop]; decide)]
    split_ifs <;> exact hw

theorem writeOver_handled (h : WriteOver l.cell) (hl : Invariant l) (hi : l.inbox = e :: rest)
    (hh : Handled sd e ⟨l.cell, []⟩ c') : WriteOver c'.toCell := by
  refine Handled.rule (J := fun c => WriteOver c.toCell) (fun c c1 hq hj => ?_)
    (fun cb items w c _ hj => ?_) (fun items w c hj => ?_) (fun c _ _ hj => ?_)
    (fun c item rest' _ hw _ _ => writeOver_issues hw) hh (fun t _ => ?_) (fun _ => h) (hl.no_read hi)
  · obtain ⟨acts, h1, h2, -⟩ := hq.history
    refine hj.of_startless acts h1 (fun a ha => ?_) (by rw [hq.rpc]; exact id)
    have := h2 a ha
    cases a <;> simp_all [silent, startless]
  · obtain ⟨acts, h1, h2⟩ := plainly_calledBack cb items w c
    exact hj.of_startless acts h1 (fun a ha => startless_of_plain (h2 a ha)) id
  · obtain ⟨acts, h1, h2⟩ := plainly_initialized items w c
    exact hj.of_startless acts h1 (fun a ha => startless_of_plain (h2 a ha)) id
  · intro ho hs
    rw [begins_history] at ho hs
    rw [started_append] at hs
    have h1 : started .finish [Act.start (Op.read : Op μ)] = [] := by
      simp [started, startedAct, Op.tag]
    rw [h1, List.append_nil] at hs
    rw [begins_events_of_ne (by simp [Op.tag])]
    exact hj (orderly_snoc.mp ho).1 hs
  · obtain ⟨acts, h1, h2⟩ := plainly_pops t (⟨l.cell, []⟩ : Ctx μ)
    refine h.of_startless acts h1 (fun a ha => startless_of_plain (h2 a ha)) (fun hw => ?_)
    by_cases ht : Tag.write = t
    · subst ht; exact pops_pending_self _ _
    · rw [pops_events_of_ne ht]; exact hw

theorem WriteOver.writerMoved (h : WriteOver l.cell) (hw : WriterMoved l l') :
    WriteOver l'.cell := by
  obtain ⟨acts, h1, h2⟩ := hw.history
  refine h.of_startless acts h1 (fun a ha => startless_of_byWriter (h2 a ha)) (fun hp => ?_)
  rw [hw.events]
  exact hp

theorem WriteOver.moved (h : WriteOver l.cell) (hl : Invariant l) (hm : Moved l b l') :
    WriteOver l'.cell := by
  cases hm.kind with
  | @delivered t ok m hd =>
    exact h.of_startless [.deliver t ok m] rfl (by simp [startless])
      (fun hw => (pending_deliver _ _ _ _ _).trans hw)
  | handled hi hh => exact writeOver_handled h hl hi hh
  | locked hw => exact h.writerMoved hw
  | stepped hw => exact h.writerMoved hw

theorem finishIsLast_of_fresh (h : Fresh l) : Orderly FinishIsLast l.cell.history := by
  obtain ⟨ty, hh⟩ := fresh_history h
  rw [hh]
  refine (orderly_nil _).append_of_forall (fun a hm pre op hop ht => ?_)
  subst hop
  simp only [List.mem_cons, Act.start.injEq, List.not_mem_nil, or_false] at hm
  rcases hm with rfl | rfl <;> rcases ht with ht | ht <;> cases ht

theorem writeOver_of_fresh (h : Fresh l) : WriteOver l.cell := by
  obtain ⟨ty, hh⟩ := fresh_history h
  intro _ hne
  rw [hh] at hne
  simp [started, startedAct, Op.tag] at hne

theorem writeOver_of_walk {Q : Conn μ → Step μ → Prop} (h : Walks Q l) : WriteOver l.cell :=
  of_walk (I := fun l => WriteOver l.cell) (fun _ => writeOver_of_fresh)
    (fun _ _ _ ho hi hm => ho.moved hi hm) h

/-! When a `WRITE_NEEDED` event is handled for an `Rpc` whose `FINISH` event has been handled, there is
nothing left to send. -/

/-- The condition under which a `Finish` stays the last operation. -/
def DrainedAfterFinish (l : Conn μ) : Step μ → Prop
  | .handle _ _ => l.inbox.head? = some .writeNeeded → l.cell.alive = true →
      handledOks .finish l.cell.history ≠ [] → l.cell.rpc.sendQueue = []
  | _ => True

theorem finishIsLast_start {h pre : List (Act μ)} {op : Op μ} (hpre : ∀ a ∈ pre, plain a = true)
    (hop : op.tag = .write ∨ op.tag = .finish) :
    FinishIsLast (h ++ pre) (.start op) ↔ started .finish h = [] := by
  have hsame : started .finish (h ++ pre) = started .finish h := by
    rw [started_append, started_of_startless (fun a ha => startless_of_plain (hpre a ha)),
      List.append_nil]
  constructor
  · intro hlast
    rw [← hsame]
    exact hlast op rfl hop
  · intro hnil op' _ _
    exact hsame.trans hnil

/-- The operation an event starts is allowed exactly under the condition. -/
theorem finishIsLast_handled (hl : Invariant l) (ha : Accounted l.cell) (hw : WriteOver l.cell)
    (ho : Orderly FinishIsLast l.cell.history) (hi : l.inbox = e :: rest)
    (hh : Handled sd e ⟨l.cell, []⟩ c') :
    Orderly FinishIsLast c'.history ↔ (e = .writeNeeded → l.cell.alive = true →
      handledOks .finish l.cell.history ≠ [] → l.cell.rpc.sendQueue = []) := by
  have hfin := ha .finish
  have hone := started_finish_le_one ho
  cases began_of_handled hh with
  | nothing acts h1 h2 hidle =>
    have hord : Orderly FinishIsLast c'.history := by
      rw [h1]
      exact ho.append_of_forall (fun a ha => finishIsLast_of_startless (h2 a ha))
    refine iff_of_true hord (fun he halive hdone => ?_)
    have hpos : 0 < (handledOks .finish l.cell.history).length := List.length_pos_iff.mpr hdone
    rcases hidle he halive with hq | hp | hp
    · exact hq
    · have hne : started .finish l.cell.history ≠ [] := List.length_pos_iff.mp (by omega)
      have hno : (l.cell.rpc.events .write).pending = false := hw ho hne
      simp [hno] at hp
    · rw [flag_eq_one.mpr hp] at hfin
      omega
  | reads pre post h1 h2 h3 he =>
    have hord : Orderly FinishIsLast c'.history := by
      rw [orderly_start (fun _ => finishIsLast_of_startless) h1 h2 h3]
      exact ⟨ho, finishIsLast_read _⟩
    refine iff_of_true hord (fun h => ?_)
    rcases he with rfl | rfl <;> cases h
  | @sends pre post item rest' h1 h2 h3 hq he hf =>
    have hord : Orderly FinishIsLast c'.history ↔ started .finish l.cell.history = [] := by
      rw [orderly_start (fun _ => finishIsLast_of_startless) h1 h2 h3]
      exact (and_iff_right ho).trans (finishIsLast_start h2 (opOf_tag _ _))
    rw [hord]
    have hflag : flag l.cell.rpc .finish = 0 := flag_eq_zero.mpr hf
    rw [hflag, Nat.add_zero] at hfin
    replace hq : l.cell.rpc.sendQueue = item :: rest' := hq
    rcases he with rfl | ⟨rfl, halive, -⟩
    · -- a pending `WRITE` excludes an earlier `Finish`
      have hpend := (hl.tally.of_mem (t := .write) (by rw [hi]; simp)).1
      refine iff_of_true ?_ (fun h => nomatch h)
      by_contra hne
      have hno : (l.cell.rpc.events .write).pending = false := hw ho hne
      simp [hno] at hpend
    · constructor
      · intro hnil _ _ hdone
        rw [hnil] at hfin
        exact absurd (List.length_eq_zero_iff.mp hfin.symm) hdone
      · intro hcond
        by_contra hne
        have hdone : handledOks .finish l.cell.history ≠ [] := by
          intro h0
          rw [h0] at hfin
          exact hne (List.length_eq_zero_iff.mp hfin)
        have hempty : l.cell.rpc.sendQueue = [] := hcond rfl halive hdone
        simp [hempty] at hq

theorem finishIsLast_moved (hl : Invariant l) (ha : Accounted l.cell) (hw : WriteOver l.cell)
    (ho : Orderly FinishIsLast l.cell.history) (hm : Moved l b l') :
    Orderly FinishIsLast l'.cell.history ↔ DrainedAfterFinish l b := by
  have hwriter : ∀ a : Act μ, byWriter a = true → ∀ pre, FinishIsLast pre a := fun a ha =>
    finishIsLast_of_startless (startless_of_byWriter ha)
  cases hm.kind with
  | delivered =>
    exact iff_of_true (orderly_snoc.mpr ⟨ho, finishIsLast_of_startless rfl _⟩) trivial
  | @handled sd script e rest c' hi hh =>
    have hhead : l.inbox.head? = some .writeNeeded ↔ e = .writeNeeded := by simp [hi]
    unfold DrainedAfterFinish
    rw [hhead]
    exact finishIsLast_handled hl ha hw ho hi hh
  | locked hwm => exact iff_of_true (orderly_writerMoved hwriter ho hwm) trivial
  | stepped hwm => exact iff_of_true (orderly_writerMoved hwriter ho hwm) trivial

/-! #### `OnFinish` -/

/-- The entry is a call of `OnFinish`. -/
def onFinishAct : Act μ → Option Unit
  | .callback .onFinish => some ()
  | _ => none

/-- How often `OnFinish` was called. -/
def onFinishCalls (h : List (Act μ)) : ℕ := (h.filterMap onFinishAct).length

/-- `OnFinish` is called once for each `FINISH` handled. -/
def FinishReported (c : Cell μ) : Prop :=
  onFinishCalls c.history = (handledOks .finish c.history).length

theorem FinishReported.of_eq {a b : Cell μ} (h : FinishReported a)
    (hc : b.history.filterMap onFinishAct = a.history.filterMap onFinishAct)
    (hh : handledOks .finish b.history = handledOks .finish a.history) : FinishReported b := by
  unfold FinishReported onFinishCalls at h ⊢
  rw [hc, hh]
  exact h

theorem onFinish_sendActs (items : List (SendItem μ)) :
    (sendActs items).filterMap onFinishAct = [] :=
  observe_sendActs (fun _ => rfl) rfl items

theorem finishReported_handled (h : FinishReported l.cell) (hl : Invariant l)
    (hi : l.inbox = e :: rest) (hh : Handled sd e ⟨l.cell, []⟩ c') : FinishReported c'.toCell := by
  have hsil : ∀ a : Act μ, silent a = true → onFinishAct a = none := by
    intro a ha
    cases a <;> simp_all [silent, onFinishAct]
  have hobs : handledOks .finish c'.history =
      handledOks .finish l.cell.history ++ handledOks .finish (eventActs l.cell e) :=
    observe_handled (fun a ha => by cases a <;> simp_all [inHandler, handledAct]) hl hi hh
  by_cases he : e = .completion .finish
  · subst he
    cases hh with
    | @finish _ _ items w hhan hs =>
      have hcall : (tidies (calledBack .onFinish items w
          (use .onFinish (pops .finish ⟨l.cell, []⟩)))).history.filterMap onFinishAct =
          l.cell.history.filterMap onFinishAct ++ [()] := by
        rw [observe_quiet hsil (quiet_tidies _), calledBack_history, List.filterMap_append,
          observe_quiet hsil (quiet_use _ _), pops_history, List.filterMap_cons]
        simp [onFinishAct, onFinish_sendActs, List.filterMap_cons]
      unfold FinishReported onFinishCalls at h ⊢
      rw [hcall, hobs, List.length_append, List.length_append, h]
      simp [handledOks, eventActs, handledAct]
  · have hnone : handledOks .finish (eventActs l.cell e) = [] := by
      cases e with
      | completion t =>
        have : t ≠ .finish := fun h0 => he (by rw [h0])
        simp [handledOks, eventActs, handledAct, this]
      | writeNeeded => rfl
    rw [hnone, List.append_nil] at hobs
    refine h.of_eq ?_ hobs
    refine Handled.rule (J := fun c => c.history.filterMap onFinishAct =
        l.cell.history.filterMap onFinishAct) (fun c c1 hq hj => ?_) (fun cb items w c hcb hj => ?_)
      (fun items w c hj => ?_) (fun c _ _ hj => ?_) (fun c item rest' _ _ _ hj => ?_) hh
      (fun t _ => ?_) (fun _ => rfl) (hl.no_read hi)
    · rw [observe_quiet hsil hq, hj]
    · have hcb' : onFinishAct (Act.callback cb) = none := by
        cases cb with
        | onFinish => exact absurd hcb he
        | _ => rfl
      rw [calledBack_history, List.filterMap_append, List.filterMap_cons, hcb', onFinish_sendActs, hj]
      simp
    · rw [initialized_history, List.filterMap_append, List.filterMap_cons, onFinish_sendActs, hj]
      simp [onFinishAct]
    · rw [begins_history, List.filterMap_append, hj]
      simp [onFinishAct]
    · rw [issues_history, List.filterMap_append, observe_issueActs (fun _ => rfl), hj]
      simp [onFinishAct]
    · rw [pops_history, List.filterMap_append]
      simp [onFinishAct, List.filterMap_cons]

theorem FinishReported.writerMoved (h : FinishReported l.cell) (hw : WriterMoved l l') :
    FinishReported l'.cell :=
  h.of_eq (hw.observe (fun a ha => by cases a <;> simp_all [byWriter, onFinishAct]))
    (handledOks_writerMoved hw .finish)

theorem FinishReported.moved (h : FinishReported l.cell) (hl : Invariant l) (hm : Moved l b l') :
    FinishReported l'.cell := by
  cases hm.kind with
  | delivered =>
    refine h.of_eq ?_ ?_
    · simp [deliver, onFinishAct]
    · simp [deliver, handledOks, handledAct]
  | handled hi hh => exact finishReported_handled h hl hi hh
  | locked hw => exact h.writerMoved hw
  | stepped hw => exact h.writerMoved hw

theorem finishReported_of_fresh (h : Fresh l) : FinishReported l.cell := by
  obtain ⟨ty, hh⟩ := fresh_history h
  unfold FinishReported onFinishCalls
  rw [hh]
  rfl

theorem finishReported_of_walk {Q : Conn μ → Step μ → Prop} (h : Walks Q l) :
    FinishReported l.cell :=
  of_walk (I := fun l => FinishReported l.cell) (fun _ => finishReported_of_fresh)
    (fun _ _ _ hf hi hm => hf.moved hi hm) h

end Finish

/-- **When a `Finish` is the last operation.** A run issues at most one `Finish` or
`FinishWithError` for every `Rpc`, and no `Write` after it, exactly if no `WRITE_NEEDED` event is
handled with something to send for a live `Rpc` whose `FINISH` event was handled. In such a run
`OnFinish` is called at most once. -/
theorem finish_is_last_iff {as : List (Action μ)} {s : State μ} (hr : Run (server μ cfg) as s) :
    (Along (server μ cfg) ((components μ cfg).Each DrainedAfterFinish) as ↔
        ∀ (r : ℕ) (c : Cell μ), s.cells[r]? = some c → Orderly FinishIsLast c.history) ∧
      (Along (server μ cfg) ((components μ cfg).Each DrainedAfterFinish) as →
        ∀ (r : ℕ) (c : Cell μ), s.cells[r]? = some c → onFinishCalls c.history ≤ 1) := by
  have key := along_orderly (fun _ hf => finishIsLast_of_fresh hf) (fun _ _ _ hw ho hm =>
    finishIsLast_moved (invariant_of_walk hw) (accounted_of_walk hw) (writeOver_of_walk hw) ho hm) hr
  refine ⟨key, fun ha r c hc => ?_⟩
  have hwalk := walks_of_reachable hr.reachable (conn_of_cell hc)
  have h1 := started_finish_le_one (key.mp ha r c hc)
  have h2 : Accounted c := accounted_of_walk hwalk
  have h3 : FinishReported c := finishReported_of_walk hwalk
  have h4 := h2 .finish
  rw [FinishReported] at h3
  omega

/-- A unary call that is answered and closed. -/
theorem finish_is_last_iff_unary : ∃ (as : List (Action ℕ)) (s : State ℕ) (c : Cell ℕ),
    Run (server ℕ (.single .normalRpc)) as s ∧ s.cells[0]? = some c ∧
      sentOps c.history = [.finish (some 8) .OK] ∧ onFinishCalls c.history ≤ 1 ∧
      Along (server ℕ (.single .normalRpc))
        ((components ℕ (.single .normalRpc)).Each DrainedAfterFinish) as := by
  obtain ⟨s, hr, hp⟩ := exists_run (server ℕ (.single .normalRpc))
    [.deliver 0 .newConnection true 7, .handle 0 { onRequest := [.send (some 8)] }, .handle 0 {},
      .deliver 0 .finish true 0, .handle 0 {}, .deliver 0 .done true 0, .handle 0 {}]
    (fun s => s.cells[0]?.any (fun c : Cell ℕ =>
        decide (sentOps c.history = [.finish (some 8) .OK])) &&
      s.cells.all (fun c : Cell ℕ => decide (Orderly FinishIsLast c.history))) (by decide)
  simp only [Bool.and_eq_true, Option.any_eq_true, List.all_eq_true, decide_eq_true_eq] at hp
  obtain ⟨⟨c, hc, hsent⟩, hall⟩ := hp
  obtain ⟨hiff, hcalls⟩ := finish_is_last_iff hr
  have halong := hiff.mpr (fun r c hc => hall c (List.mem_of_getElem? hc))
  exact ⟨_, s, c, hr, hc, hsent, hcalls halong 0 c hc, halong⟩

/-- A `Writer` finishes a unary call that was answered but is not `DONE`: gRPC is asked to finish it
again, and `OnFinish` is called twice. -/
theorem finish_issued_twice : ∃ (as : List (Action ℕ)) (s : State ℕ) (c : Cell ℕ),
    Run (server ℕ (.single .normalRpc)) as s ∧ s.cells[0]? = some c ∧
      sentOps c.history = [.finish (some 8) .OK, .finishWithError ⟨.aborted, "late"⟩] ∧
      onFinishCalls c.history = 2 ∧ ¬ Orderly FinishIsLast c.history := by
  obtain ⟨s, hr, hp⟩ := exists_run (server ℕ (.single .normalRpc))
    [.deliver 0 .newConnection true 7, .handle 0 { onRequest := [.getWriter, .send (some 8)] },
      .handle 0 {}, .deliver 0 .finish true 0, .handle 0 {},
      .lockWriter 0 (.finish ⟨.aborted, "late"⟩), .stepWriter 0 0, .stepWriter 0 0, .stepWriter 0 0,
      .stepWriter 0 0, .handle 0 {}, .deliver 0 .finish true 0, .handle 0 {}]
    (fun s => s.cells[0]?.any (fun c : Cell ℕ => decide (
      sentOps c.history = [.finish (some 8) .OK, .finishWithError ⟨.aborted, "late"⟩] ∧
        onFinishCalls c.history = 2 ∧ ¬ Orderly FinishIsLast c.history))) (by decide)
  simp only [Option.any_eq_true, decide_eq_true_eq] at hp
  obtain ⟨c, hc, h⟩ := hp
  exact ⟨_, s, c, hr, hc, h⟩

/-! ### Finishing without a response

Where the response is one message, an item without a message is sent by `FinishWithError`, with the
status that the item happens to carry. -/

/-- Only response streams are written to. -/
def WritesStreamed (rpc : Rpc μ) : Prop :=
  (rpc.events .write).pending = true → responseStreaming rpc.rpcHandlerInfo.rpcType = true

/-- Every `FinishWithError` carries an error. -/
def CarriesError (_pre : List (Act μ)) (a : Act μ) : Prop :=
  ∀ st, a = .start (.finishWithError st) → st.errorCode ≠ .ok

/-- When a `WRITE_NEEDED` event of a live `Rpc` with one response is handled, and no `FINISH` is
pending, the next item has a message or an error. -/
def NextHasError (l : Conn μ) : Step μ → Prop
  | .handle _ _ => l.inbox.head? = some .writeNeeded → l.cell.alive = true →
      responseStreaming l.cell.rpc.rpcHandlerInfo.rpcType = false →
      (l.cell.rpc.events .finish).pending = false →
      ∀ item rest, l.cell.rpc.sendQueue = item :: rest → item.msg = none →
        item.status.errorCode ≠ .ok
  | _ => True

section Errors
variable {l l' : Conn μ} {b : Step μ} {c c' : Ctx μ} {sd : Bool} {e : RpcEvent}
  {rest : List RpcEvent}

theorem opOf_write {rpcType : RpcType} {item : SendItem μ} (h : (opOf rpcType item).tag = .write) :
    responseStreaming rpcType = true := by
  unfold opOf at h
  split at h <;> first | assumption | cases h

theorem opOf_finishWithError {rpcType : RpcType} {item : SendItem μ} {st : Status} :
    opOf rpcType item = .finishWithError st ↔
      responseStreaming rpcType = false ∧ item.msg = none ∧ item.status = st := by
  unfold opOf
  split <;> simp_all

theorem writesStreamed_handled (h : WritesStreamed l.cell.rpc) (hl : Invariant l)
    (hi : l.inbox = e :: rest) (hh : Handled sd e ⟨l.cell, []⟩ c') : WritesStreamed c'.rpc := by
  refine Handled.rule (J := fun c => WritesStreamed c.rpc) (fun c c1 hq hj => ?_)
    (fun _ _ _ _ _ hj => hj) (fun _ _ _ hj => hj) (fun c _ _ hj => ?_)
    (fun c item rest' _ hw _ hj => ?_) hh (fun t _ => ?_) (fun _ => h) (hl.no_read hi)
  · rw [hq.rpc]
    exact hj
  · intro hp
    rw [begins_events_of_ne (by simp [Op.tag])] at hp
    exact hj hp
  · intro hp
    have hinfo : (issues item rest' c).rpc.rpcHandlerInfo = c.rpc.rpcHandlerInfo :=
      rpcType_of_fixed (SentQueue.fixed (.issued ‹_› hw ‹_›))
    rw [hinfo]
    rcases opOf_tag c.rpc.rpcHandlerInfo.rpcType item with ht | ht
    · exact opOf_write ht
    · -- a `Finish` leaves the flag of `WRITE` alone
      have hsame : ((issues item rest' c).rpc.events .write).pending = false := by
        unfold issues
        dsimp only
        rw [begins_events_of_ne (by rw [ht]; decide)]
        split_ifs <;> exact hw
      cases hsame.symm.trans hp
  · intro hp
    exact h (pending_of_pops (c := ⟨l.cell, []⟩) hp)

theorem writesStreamed_of_walk {Q : Conn μ → Step μ → Prop} (h : Walks Q l) :
    WritesStreamed l.cell.rpc := by
  refine of_walk (I := fun l => WritesStreamed l.cell.rpc) (fun l hf => ?_)
    (fun l b l' hw hi hm => ?_) h
  · obtain ⟨_, _, _, _, _, rfl⟩ := fresh_eq hf
    exact fun hp => nomatch hp
  · have hwriter : WriterMoved l l' → WritesStreamed l'.cell.rpc := by
      intro hwm
      unfold WritesStreamed
      rw [hwm.events, hwm.info]
      exact hw
    cases hm.kind with
    | delivered => exact fun hp => hw ((pending_deliver _ _ _ _ _).symm.trans hp)
    | handled hin hh => exact writesStreamed_handled hw hi hin hh
    | locked hwm => exact hwriter hwm
    | stepped hwm => exact hwriter hwm

theorem carriesError_of_startless {a : Act μ} (h : startless a = true) (pre : List (Act μ)) :
    CarriesError pre a := by
  rintro st rfl
  cases h

/-- The operation an event starts carries an error, if it must, exactly under the condition. -/
theorem carriesError_handled (hl : Invariant l) (hw : WritesStreamed l.cell.rpc)
    (ho : Orderly CarriesError l.cell.history) (hi : l.inbox = e :: rest)
    (hh : Handled sd e ⟨l.cell, []⟩ c') :
    Orderly CarriesError c'.history ↔ (e = .writeNeeded → l.cell.alive = true →
      responseStreaming l.cell.rpc.rpcHandlerInfo.rpcType = false →
      (l.cell.rpc.events .finish).pending = false →
      ∀ item rest, l.cell.rpc.sendQueue = item :: rest → item.msg = none →
        item.status.errorCode ≠ .ok) := by
  cases began_of_handled hh with
  | nothing acts h1 h2 hidle =>
    have hord : Orderly CarriesError c'.history := by
      rw [h1]
      exact ho.append_of_forall (fun a ha => carriesError_of_startless (h2 a ha))
    refine iff_of_true hord (fun he halive hs hf item rest' hq => ?_)
    rcases hidle he halive with h | h | h
    · cases h.symm.trans hq
    · cases hs.symm.trans (hw h)
    · cases hf.symm.trans h
  | reads pre post h1 h2 h3 he =>
    have hord : Orderly CarriesError c'.history := by
      rw [orderly_start (fun _ => carriesError_of_startless) h1 h2 h3]
      exact ⟨ho, fun st h => nomatch h⟩
    refine iff_of_true hord (fun h => ?_)
    rcases he with rfl | rfl <;> cases h
  | @sends pre post item rest' h1 h2 h3 hq he hf =>
    rw [orderly_start (fun _ => carriesError_of_startless) h1 h2 h3, and_iff_right ho]
    replace hq : l.cell.rpc.sendQueue = item :: rest' := hq
    constructor
    · intro hc _ _ hs _ item' rest'' hq' hm
      rw [hq] at hq'
      obtain ⟨rfl, -⟩ := List.cons.inj hq'
      exact hc item.status (congrArg Act.start (opOf_finishWithError.mpr ⟨hs, hm, rfl⟩))
    · intro hcond st hst
      obtain ⟨hs, hm, rfl⟩ := opOf_finishWithError.mp (Act.start.inj hst)
      rcases he with rfl | ⟨rfl, halive, -⟩
      · -- no `WRITE` completes where the response is one message
        have hpend := (hl.tally.of_mem (t := .write) (by rw [hi]; simp)).1
        cases hs.symm.trans (hw hpend)
      · exact hcond rfl halive hs hf item rest' hq hm

theorem carriesError_moved (hl : Invariant l) (hw : WritesStreamed l.cell.rpc)
    (ho : Orderly CarriesError l.cell.history) (hm : Moved l b l') :
    Orderly CarriesError l'.cell.history ↔ NextHasError l b := by
  have hwriter : ∀ a : Act μ, byWriter a = true → ∀ pre, CarriesError pre a := fun a ha =>
    carriesError_of_startless (startless_of_byWriter ha)
  cases hm.kind with
  | delivered =>
    exact iff_of_true (orderly_snoc.mpr ⟨ho, carriesError_of_startless rfl _⟩) trivial
  | @handled sd script e rest c' hi hh =>
    have hhead : l.inbox.head? = some .writeNeeded ↔ e = .writeNeeded := by simp [hi]
    unfold NextHasError
    rw [hhead]
    exact carriesError_handled hl hw ho hi hh
  | locked hwm => exact iff_of_true (orderly_writerMoved hwriter ho hwm) trivial
  | stepped hwm => exact iff_of_true (orderly_writerMoved hwriter ho hwm) trivial

theorem carriesError_of_fresh (h : Fresh l) : Orderly CarriesError l.cell.history := by
  obtain ⟨ty, hh⟩ := fresh_history h
  rw [hh]
  refine (orderly_nil _).append_of_forall (fun a hm pre st hst => ?_)
  subst hst
  simp at hm

end Errors

/-- **When an RPC that is finished without a response is finished with an error.** In a run every
`FinishWithError` carries a status other than OK exactly if no `WRITE_NEEDED` event is handled, for a
live `Rpc` with one response and no `FINISH` pending, while the next item has neither a message nor an
error. -/
theorem finishWithError_carries_error_iff {as : List (Action μ)} {s : State μ}
    (hr : Run (server μ cfg) as s) :
    Along (server μ cfg) ((components μ cfg).Each NextHasError) as ↔
      ∀ (r : ℕ) (c : Cell μ), s.cells[r]? = some c →
        ∀ st, .start (.finishWithError st) ∈ c.history → st.errorCode ≠ .ok := by
  have key := along_orderly (fun _ hf => carriesError_of_fresh hf) (fun _ _ _ hw ho hm =>
    carriesError_moved (invariant_of_walk hw) (writesStreamed_of_walk hw) ho hm) hr
  refine key.trans (forall_congr' fun r => forall_congr' fun c => imp_congr_right fun _ => ?_)
  constructor
  · intro ho st hm
    obtain ⟨pre, post, hsplit⟩ := List.append_of_mem hm
    exact ho pre _ post hsplit st rfl
  · intro hall pre a post hsplit st hst
    refine hall st ?_
    rw [hsplit, hst]
    simp

/-- A unary call that is finished with an error. -/
theorem finishWithError_carries_error_iff_aborted : ∃ (as : List (Action ℕ)) (s : State ℕ)
    (c : Cell ℕ), Run (server ℕ (.single .normalRpc)) as s ∧ s.cells[0]? = some c ∧
      sentOps c.history = [.finishWithError ⟨.aborted, "no"⟩] ∧
      Along (server ℕ (.single .normalRpc))
        ((components ℕ (.single .normalRpc)).Each NextHasError) as := by
  obtain ⟨s, hr, hp⟩ := exists_run (server ℕ (.single .normalRpc))
    [.deliver 0 .newConnection true 7,
      .handle 0 { onRequest := [.finish ⟨.aborted, "no"⟩] }, .handle 0 {}]
    (fun s => s.cells[0]?.any (fun c : Cell ℕ =>
        decide (sentOps c.history = [.finishWithError ⟨.aborted, "no"⟩])) &&
      s.cells.all (fun c : Cell ℕ => c.history.all (fun a =>
        decide (∀ op ∈ operation a, op ≠ .finishWithError .OK ∧
          (op.tag = .finish → op = .finishWithError ⟨.aborted, "no"⟩))))) (by decide)
  simp only [Bool.and_eq_true, Option.any_eq_true, List.all_eq_true, decide_eq_true_eq] at hp
  obtain ⟨⟨c, hc, hsent⟩, hall⟩ := hp
  refine ⟨_, s, c, hr, hc, hsent, (finishWithError_carries_error_iff hr).mpr (fun r c' hc' st hm => ?_)⟩
  obtain ⟨-, hop⟩ := hall c' (List.mem_of_getElem? hc') _ hm _ rfl
  cases hop rfl
  simp

/-- `WritesDone` on a unary call: `FinishWithError` is called with the status OK. -/
theorem finished_with_ok_and_no_response : ∃ (as : List (Action ℕ)) (s : State ℕ) (c : Cell ℕ),
    Run (server ℕ (.single .normalRpc)) as s ∧ s.cells[0]? = some c ∧
      c.rpc.rpcHandlerInfo.rpcType = .normalRpc ∧ .start (.finishWithError .OK) ∈ c.history ∧
      Status.OK.errorCode = .ok := by
  obtain ⟨s, hr, hp⟩ := exists_run (server ℕ (.single .normalRpc))
    [.deliver 0 .newConnection true 7,
      .handle 0 { onRequest := [.getWriter, .writer .writesDone] }, .handle 0 {}]
    (fun s => s.cells[0]?.any (fun c : Cell ℕ => decide (
      c.rpc.rpcHandlerInfo.rpcType = .normalRpc ∧ Act.start (.finishWithError .OK) ∈ c.history)))
    (by decide)
  simp only [Option.any_eq_true, decide_eq_true_eq] at hp
  obtain ⟨c, hc, ht, hm⟩ := hp
  exact ⟨_, s, c, hr, hc, ht, hm, rfl⟩

end AsyncGrpc.Service.Sending
