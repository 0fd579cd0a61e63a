import AsyncGrpc.Single.Order

/-! # Operations and the removal from `ActiveRpcs`

`Recorded`: the history tells whether the entry has been removed. `NotAfterRemoval`: no operation of
the connection is started after that. Whether the latter holds depends on what is left to send when a
`WRITE_NEEDED` event locks an `Rpc` that is removed and kept alive by a `Writer` call only;
`notAfterRemoval_moved` gives the exact condition for one step, `along_notAfterRemoval` for a run. -/

namespace AsyncGrpc.Single.Removal

open AsyncGrpc.Lib.Runs AsyncGrpc.Lib.Histories
open AsyncGrpc.Model.Types AsyncGrpc.Model.Rpc AsyncGrpc.Model.Service AsyncGrpc.Model.Server
open AsyncGrpc.Single.Machine AsyncGrpc.Single.Moves AsyncGrpc.Single.Project
open AsyncGrpc.Single.Lifecycle AsyncGrpc.Single.Ledger AsyncGrpc.Single.Order

variable {μ : Type} {cfg : Config} {l l' : Conn μ} {b : Step μ} {c c' : Ctx μ} {sd : Bool}
  {e : RpcEvent} {rest : List RpcEvent}

/-! ### Removal and history -/

/-- The entry is in `ActiveRpcs` as long as the history has no removal. -/
def Recorded (c : Cell μ) : Prop := c.active = true ↔ ∀ site, .remove site ∉ c.history

theorem Recorded.of_plain {a b : Cell μ} (h : Recorded a) (acts : List (Act μ))
    (hh : b.history = a.history ++ acts) (hacts : ∀ x ∈ acts, plain x = true ∨ startless x = false)
    (ha : b.active = a.active) : Recorded b := by
  unfold Recorded at h ⊢
  rw [ha, h, hh]
  refine forall_congr' (fun site => not_congr ?_)
  rw [List.mem_append]
  refine (or_iff_left (fun hm => ?_)).symm
  rcases hacts _ hm with h1 | h1 <;> cases h1

theorem Recorded.quiet (h : Recorded c.toCell) (hq : Quiet c c') : Recorded c'.toCell := by
  obtain ⟨acts, h1, -, h3⟩ := hq.history
  unfold Recorded at h ⊢
  rw [h3, h, h1]
  simp only [List.mem_append, not_or, forall_and]

theorem recorded_handled (h : Recorded l.cell) (hl : Invariant l) (hi : l.inbox = e :: rest)
    (hh : Handled sd e ⟨l.cell, []⟩ c') : Recorded c'.toCell := by
  refine Handled.rule (J := fun c => Recorded c.toCell) (fun _ _ hq hj => hj.quiet hq)
    (fun cb items w c _ hj => ?_) (fun items w c hj => ?_) (fun c _ _ hj => ?_)
    (fun c item rest' _ _ _ hj => ?_) hh (fun t _ => ?_) (fun _ => h) (hl.no_read hi)
  · obtain ⟨acts, h1, h2⟩ := plainly_calledBack cb items w c
    exact hj.of_plain acts h1 (fun a ha => Or.inl (h2 a ha)) rfl
  · obtain ⟨acts, h1, h2⟩ := plainly_initialized items w c
    exact hj.of_plain acts h1 (fun a ha => Or.inl (h2 a ha)) rfl
  · exact hj.of_plain _ (begins_history c _) (by simp [startless]) rfl
  · refine hj.of_plain _ (issues_history c item rest') (fun a ha => ?_) ?_
    · unfold issueActs responseActs at ha
      split_ifs at ha <;> simp only [List.cons_append, List.nil_append, List.mem_cons,
        List.not_mem_nil, or_false] at ha
      · rcases ha with rfl | rfl
        · exact Or.inl rfl
        · exact Or.inr rfl
      · exact Or.inr (by rw [ha]; rfl)
    · unfold issues
      dsimp only
      split_ifs <;> rfl
  · obtain ⟨acts, h1, h2⟩ := plainly_pops t (⟨l.cell, []⟩ : Ctx μ)
    exact h.of_plain acts h1 (fun a ha => Or.inl (h2 a ha)) rfl

theorem Recorded.writerMoved (h : Recorded l.cell) (hw : WriterMoved l l') : Recorded l'.cell := by
  obtain ⟨acts, h1, h2⟩ := hw.history
  refine h.of_plain acts h1 (fun a ha => Or.inl ?_) hw.active
  have := h2 a ha
  cases a <;> simp_all [byWriter, plain]

theorem Recorded.moved (h : Recorded l.cell) (hl : Invariant l) (hm : Moved l b l') :
    Recorded l'.cell := by
  cases hm.kind with
  | @delivered t ok m hd => exact h.of_plain [.deliver t ok m] rfl (by simp [plain]) rfl
  | handled hi hh => exact recorded_handled h hl hi hh
  | locked hw => exact h.writerMoved hw
  | stepped hw => exact h.writerMoved hw

theorem recorded_of_fresh (h : Fresh l) : Recorded l.cell := by
  obtain ⟨_, _, _, _, _, rfl⟩ := fresh_eq h
  simp [Recorded, ofCtx, listening, startOp, log, newCell]

/-- **The history tells whether the entry is in `ActiveRpcs`.** -/
theorem recorded_of_walk {Q : Conn μ → Step μ → Prop} (h : Walks Q l) : Recorded l.cell :=
  of_walk (I := fun l => Recorded l.cell) (fun _ => recorded_of_fresh)
    (fun _ _ _ hr hi hm => hr.moved hi hm) h

/-! ### No operation after the removal -/

/-- No `Read`, `Write`, `Finish` or `FinishWithError` is started after the removal. -/
def NotAfterRemoval (pre : List (Act μ)) (a : Act μ) : Prop :=
  ∀ op, a = .start op → op.tag = .read ∨ op.tag = .write ∨ op.tag = .finish →
    ∀ site, .remove site ∉ pre

instance instDecidableUnremoved [DecidableEq μ] (pre : List (Act μ)) :
    Decidable (∀ site, .remove site ∉ pre) :=
  decidable_of_iff (.remove .handleNewConnection ∉ pre ∧ .remove .removeIfNotPending ∉ pre)
    ⟨fun h site => by cases site; exacts [h.1, h.2], fun h => ⟨h _, h _⟩⟩

instance instDecidableNotAfterRemoval [DecidableEq μ] (pre : List (Act μ)) (a : Act μ) :
    Decidable (NotAfterRemoval pre a) :=
  decidableOfReads operation operation_eq_some
    (fun op => op.tag = .read ∨ op.tag = .write ∨ op.tag = .finish →
      ∀ site, Act.remove site ∉ pre) a

theorem notAfterRemoval_of_startless {a : Act μ} (h : startless a = true) (pre : List (Act μ)) :
    NotAfterRemoval pre a := by
  rintro op rfl
  cases h

/-- An operation started after plain entries is allowed exactly while the entry is in
`ActiveRpcs`. -/
theorem notAfterRemoval_start {a : Cell μ} (h : Recorded a) {pre : List (Act μ)} {op : Op μ}
    (hpre : ∀ x ∈ pre, plain x = true)
    (hop : op.tag = .read ∨ op.tag = .write ∨ op.tag = .finish) :
    NotAfterRemoval (a.history ++ pre) (.start op) ↔ a.active = true := by
  have hsame : (∀ site, Act.remove site ∉ a.history ++ pre) ↔ a.active = true := by
    refine Iff.trans (forall_congr' (fun site => not_congr ?_)) (Iff.symm h)
    rw [List.mem_append]
    exact or_iff_left (fun hm => by cases hpre _ hm)
  constructor
  · exact fun hn => hsame.mp (hn op rfl hop)
  · exact fun ha op' _ _ => hsame.mpr ha

/-- While no operation was started after the removal, neither `WRITE` nor `FINISH` is pending after
it. -/
def SendsOver (c : Cell μ) : Prop :=
  Orderly NotAfterRemoval c.history → c.active = false →
    (c.rpc.events .write).pending = false ∧ (c.rpc.events .finish).pending = false

theorem sendsOver_handled (h : SendsOver l.cell) (hrec : Recorded l.cell) (hl : Invariant l)
    (hi : l.inbox = e :: rest) (hh : Handled sd e ⟨l.cell, []⟩ c') : SendsOver c'.toCell := by
  intro ho ha'
  have hkeeps : KeepsFlags ⟨l.cell, []⟩ c' → Orderly NotAfterRemoval l.cell.history →
      (c'.rpc.events .write).pending = false ∧ (c'.rpc.events .finish).pending = false := by
    intro hk ho'
    have hback : ∀ t, t ≠ .read → (l.cell.rpc.events t).pending = false →
        (c'.rpc.events t).pending = false := by
      intro t ht hp
      by_contra hne
      have hset := hk t ht (by simpa using hne)
      cases hp.symm.trans hset
    rcases ha : l.cell.active with _ | _
    · obtain ⟨h1, h2⟩ := h ho' ha
      exact ⟨hback _ (by decide) h1, hback _ (by decide) h2⟩
    · rcases hh.removed ha ha' with rfl | hp
      · have hidle := (hl.idle hi).1
        exact ⟨hback _ (by decide) (hidle.quiet _ (by decide) (by decide)),
          hback _ (by decide) (hidle.quiet _ (by decide) (by decide))⟩
      · exact ⟨anyPending_eq_false.mp hp _ (by decide), anyPending_eq_false.mp hp _ (by decide)⟩
  cases began_of_handled hh with
  | nothing acts h1 h2 _ hk =>
    rw [h1] at ho
    exact hkeeps hk (orderly_append.mp ho).1
  | reads pre post h1 _ _ _ hk =>
    rw [h1] at ho
    exact hkeeps hk (orderly_append.mp ho).1
  | @sends pre post item rest' h1 h2 h3 hq he hf hset =>
    -- the operation is pending, so the entry is not removed with this event
    have hop := opOf_tag l.cell.rpc.rpcHandlerInfo.rpcType item
    have hact : l.cell.active = true := by
      rw [orderly_start (fun _ => notAfterRemoval_of_startless) h1 h2 h3] at ho
      exact (notAfterRemoval_start hrec h2 (Or.inr hop)).mp ho.2
    have hany : anyPending c'.rpc = true := by
      refine anyPending_of _ _ ?_ hset
      rcases hop with hop | hop
      · exact fun h0 => by cases hop.symm.trans h0
      · exact fun h0 => by cases hop.symm.trans h0
    rcases hh.removed hact ha' with rfl | hp
    · rcases he with he | ⟨he, -⟩ <;> cases he
    · cases hp.symm.trans hany

theorem SendsOver.of_startless {a b : Cell μ} (h : SendsOver a) (acts : List (Act μ))
    (hh : b.history = a.history ++ acts) (hacts : ∀ x ∈ acts, startless x = true)
    (ha : b.active = a.active)
    (he : ∀ t, (b.rpc.events t).pending = (a.rpc.events t).pending) : SendsOver b := by
  intro ho hb
  rw [hh, orderly_append_of_forall (fun x hx => notAfterRemoval_of_startless (hacts x hx))] at ho
  rw [he, he]
  exact h ho (ha.symm.trans hb)

theorem SendsOver.writerMoved (h : SendsOver l.cell) (hw : WriterMoved l l') :
    SendsOver l'.cell := by
  obtain ⟨acts, h1, h2⟩ := hw.history
  exact h.of_startless acts h1 (fun a ha => startless_of_byWriter (h2 a ha)) hw.active
    (fun t => by rw [hw.events])

theorem SendsOver.moved (h : SendsOver l.cell) (hrec : Recorded l.cell) (hl : Invariant l)
    (hm : Moved l b l') : SendsOver l'.cell := by
  cases hm.kind with
  | @delivered t ok m hd =>
    exact h.of_startless [.deliver t ok m] rfl (by simp [startless]) rfl
      (fun _ => pending_deliver _ _ _ _ _)
  | handled hi hh => exact sendsOver_handled h hrec hl hi hh
  | locked hw => exact h.writerMoved hw
  | stepped hw => exact h.writerMoved hw

theorem sendsOver_of_walk {Q : Conn μ → Step μ → Prop} (h : Walks Q l) : SendsOver l.cell := by
  refine (of_walk (I := fun l => Recorded l.cell ∧ SendsOver l.cell) (fun l hf => ?_)
    (fun _ _ _ hr hi hm => ⟨hr.1.moved hi hm, hr.2.moved hr.1 hi hm⟩) h).2
  refine ⟨recorded_of_fresh hf, fun _ ha => ?_⟩
  obtain ⟨_, _, _, _, _, rfl⟩ := fresh_eq hf
  cases ha

theorem notAfterRemoval_of_fresh (h : Fresh l) : Orderly NotAfterRemoval l.cell.history := by
  obtain ⟨ty, hh⟩ := fresh_history h
  rw [hh]
  refine (orderly_nil _).append_of_forall (fun a hm pre op hop ht => ?_)
  subst hop
  simp only [List.mem_cons, Act.start.injEq, List.not_mem_nil, or_false] at hm
  rcases hm with rfl | rfl <;> rcases ht with ht | ht | ht <;> cases ht

/-- When a `WRITE_NEEDED` event locks an `Rpc` that was removed, there is nothing to send. -/
def DrainedWhenRemoved (l : Conn μ) : Step μ → Prop
  | .handle _ _ => l.inbox.head? = some .writeNeeded → l.cell.active = false →
      l.cell.alive = true → l.cell.rpc.sendQueue = []
  | _ => True

/-- A `READ` is outstanding only while the entry is in `ActiveRpcs`. -/
theorem active_of_read (hl : Invariant l) (hp : (l.cell.rpc.events .read).pending = true) :
    l.cell.active = true := by
  cases hl.phase with
  | listening _ ha => exact ha
  | delivered _ ha => exact ha
  | connected hc =>
    by_contra ha
    have hno := (hc.ended (by simpa using ha)).1
    cases hno.symm.trans hp
  | refused hi => cases (hi.quiet .read (by decide) (by decide)).symm.trans hp

theorem notAfterRemoval_handled (hl : Invariant l) (hrec : Recorded l.cell)
    (hover : SendsOver l.cell) (ho : Orderly NotAfterRemoval l.cell.history)
    (hi : l.inbox = e :: rest) (hh : Handled sd e ⟨l.cell, []⟩ c') :
    Orderly NotAfterRemoval c'.history ↔ (e = .writeNeeded → l.cell.active = false →
      l.cell.alive = true → l.cell.rpc.sendQueue = []) := by
  cases began_of_handled hh with
  | nothing acts h1 h2 hidle _ =>
    have hord : Orderly NotAfterRemoval c'.history := by
      rw [h1]
      exact ho.append_of_forall (fun a ha => notAfterRemoval_of_startless (h2 a ha))
    refine iff_of_true hord (fun he ha halive => ?_)
    obtain ⟨hw, hf⟩ := hover ho ha
    rcases hidle he halive with hq | hp | hp
    · exact hq
    · cases hw.symm.trans hp
    · cases hf.symm.trans hp
  | reads pre post h1 h2 h3 he _ =>
    have hact : l.cell.active = true := by
      rcases he with rfl | rfl
      · exact (hl.idle hi).2.1
      · exact active_of_read hl (hl.tally.of_mem (by rw [hi]; simp)).1
    have hord : Orderly NotAfterRemoval c'.history := by
      rw [orderly_start (fun _ => notAfterRemoval_of_startless) h1 h2 h3]
      exact ⟨ho, (notAfterRemoval_start hrec h2 (Or.inl rfl)).mpr hact⟩
    exact iff_of_true hord (fun _ ha => by cases ha.symm.trans hact)
  | @sends pre post item rest' h1 h2 h3 hq he hf _ =>
    have hop := opOf_tag l.cell.rpc.rpcHandlerInfo.rpcType item
    have hord : Orderly NotAfterRemoval c'.history ↔ l.cell.active = true := by
      rw [orderly_start (fun _ => notAfterRemoval_of_startless) h1 h2 h3]
      exact (and_iff_right ho).trans (notAfterRemoval_start hrec h2 (Or.inr hop))
    rw [hord]
    replace hq : l.cell.rpc.sendQueue = item :: rest' := hq
    rcases he with rfl | ⟨rfl, halive, -⟩
    · -- a pending `WRITE` means that the entry is there
      have hpend := (hl.tally.of_mem (t := .write) (by rw [hi]; simp)).1
      refine iff_of_true ?_ (fun h => nomatch h)
      by_contra ha
      have hno := (hover ho (by simpa using ha)).1
      cases hno.symm.trans hpend
    · constructor
      · exact fun ha _ ha' => by cases ha.symm.trans ha'
      · intro hcond
        by_contra ha
        have hempty := hcond rfl (by simpa using ha) halive
        cases hq.symm.trans hempty

/-- **The exact condition for one step**: no operation is started after the removal. -/
theorem notAfterRemoval_moved (hl : Invariant l) (hrec : Recorded l.cell)
    (hover : SendsOver l.cell) (ho : Orderly NotAfterRemoval l.cell.history) (hm : Moved l b l') :
    Orderly NotAfterRemoval l'.cell.history ↔ DrainedWhenRemoved l b := by
  have hwriter : ∀ a : Act μ, byWriter a = true → ∀ pre, NotAfterRemoval pre a := fun a ha =>
    notAfterRemoval_of_startless (startless_of_byWriter ha)
  cases hm.kind with
  | delivered =>
    exact iff_of_true (orderly_snoc.mpr ⟨ho, notAfterRemoval_of_startless rfl _⟩) trivial
  | @handled sd script e rest c' hi hh =>
    have hhead : l.inbox.head? = some .writeNeeded ↔ e = .writeNeeded := by simp [hi]
    unfold DrainedWhenRemoved
    rw [hhead]
    exact notAfterRemoval_handled hl hrec hover ho hi hh
  | locked hw => exact iff_of_true (orderly_writerMoved hwriter ho hw) trivial
  | stepped hw => exact iff_of_true (orderly_writerMoved hwriter ho hw) trivial

/-- The runs in which no operation is started after a removal. -/
theorem along_notAfterRemoval {as : List (Action μ)} {s : State μ} (hr : Run (server μ cfg) as s) :
    Along (server μ cfg) ((components μ cfg).Each DrainedWhenRemoved) as ↔
      ∀ (r : ℕ) (c : Cell μ), s.cells[r]? = some c → Orderly NotAfterRemoval c.history :=
  along_orderly (fun _ hf => notAfterRemoval_of_fresh hf) (fun _ _ _ hw ho hm =>
    notAfterRemoval_moved (invariant_of_walk hw) (recorded_of_walk hw) (sendsOver_of_walk hw) ho hm) hr

end AsyncGrpc.Single.Removal
