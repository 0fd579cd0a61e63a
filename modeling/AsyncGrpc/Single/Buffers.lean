import AsyncGrpc.Single.Ledger

/-! # The message buffers `response_` and `request_`

gRPC reads `response_` until a `WRITE` or `FINISH` completes and writes to `request_` until a `READ`
completes. `ResponseFree` and `RequestPassed` say when the two may be reused; both hold of every
entry in the history of every `Rpc`. -/

namespace AsyncGrpc.Single.Buffers

open AsyncGrpc.Lib.Runs AsyncGrpc.Lib.Histories
open AsyncGrpc.Model.Types AsyncGrpc.Model.Rpc AsyncGrpc.Model.Service AsyncGrpc.Model.Server
open AsyncGrpc.Single.Machine AsyncGrpc.Single.Moves AsyncGrpc.Single.Project
open AsyncGrpc.Single.Lifecycle AsyncGrpc.Single.Ledger

variable {μ : Type} {cfg : Config}

/-- Under the tag `t` every operation started has been handled. -/
def Settled (t : Tag) (h : List (Act μ)) : Prop :=
  (started t h).length = (handledOks t h).length

/-- `response_` is replaced only when no `WRITE` and no `FINISH` is outstanding. -/
def ResponseFree (pre : List (Act μ)) (a : Act μ) : Prop :=
  ∀ m, a = .setResponse m → Settled .write pre ∧ Settled .finish pre

/-- `request_` is handed to a `Read` only when no other is outstanding and every message received
has been passed to the handler. -/
def RequestPassed (pre : List (Act μ)) (a : Act μ) : Prop :=
  a = .start .read → Settled .read pre ∧ (received pre).map some = passed pre

section Buffers
variable {l l' : Conn μ} {b : Step μ} {c c' : Ctx μ} {sd : Bool} {e : RpcEvent}
  {rest : List RpcEvent}

theorem settled_of_accounted {a : Cell μ} (h : Accounted a) {t : Tag}
    (hp : (a.rpc.events t).pending = false) : Settled t a.history := by
  have := h t
  rw [flag_eq_zero.mpr hp] at this
  exact this

/-! ### Responses -/

theorem responseFree_of_ne {pre : List (Act μ)} {a : Act μ} (h : ∀ m, a ≠ .setResponse m) :
    ResponseFree pre a := fun m ha => absurd ha (h m)

theorem mem_sendActs {items : List (SendItem μ)} {a : Act μ} (h : a ∈ sendActs items) :
    (∃ item, a = .enqueue item none) ∨ a = .push none := by
  unfold sendActs at h
  rw [List.mem_flatMap] at h
  obtain ⟨item, -, h⟩ := h
  rcases List.mem_cons.mp h with rfl | h
  · exact Or.inl ⟨item, rfl⟩
  · exact Or.inr (List.mem_singleton.mp h)

theorem responses_handled (ho : Orderly ResponseFree l.cell.history) (ha : Accounted l.cell)
    (hl : Invariant l) (hi : l.inbox = e :: rest) (hh : Handled sd e ⟨l.cell, []⟩ c') :
    Orderly ResponseFree c'.history := by
  have hcall : ∀ (cb : Callback μ) (items : List (SendItem μ)) (h : List (Act μ)),
      Orderly ResponseFree h → Orderly ResponseFree (h ++ .callback cb :: sendActs items) := by
    intro cb items h hj
    refine hj.append_of_forall (fun a hm _ => responseFree_of_ne (fun m => ?_))
    rcases List.mem_cons.mp hm with rfl | hm
    · simp
    · rcases mem_sendActs hm with ⟨item, rfl⟩ | rfl <;> simp
  refine (Handled.rule (J := fun c => Accounted c.toCell ∧ Orderly ResponseFree c.history)
    (fun c c1 hq hj => ?_) (fun cb items w c _ hj => ?_) (fun items w c hj => ?_)
    (fun c _ hp hj => ?_) (fun c item rest' _ hw hf hj => ?_) hh (fun t he => ?_) (fun _ => ⟨ha, ho⟩)
    (hl.no_read hi)).2
  · obtain ⟨acts, h1, h2, -⟩ := hq.history
    refine ⟨hj.1.quiet hq, ?_⟩
    rw [h1]
    exact hj.2.append_of_forall (fun a hm _ => responseFree_of_ne (by rintro m rfl; cases h2 _ hm))
  · refine ⟨hj.1.calledBack cb items w, ?_⟩
    rw [calledBack_history]
    exact hcall cb items _ hj.2
  · refine ⟨hj.1.calledBack .initializeHandler items w, ?_⟩
    rw [initialized_history]
    exact hcall .initializeHandler items _ hj.2
  · refine ⟨hj.1.begins _ hp, ?_⟩
    rw [begins_history, orderly_snoc]
    exact ⟨hj.2, responseFree_of_ne (by simp)⟩
  · refine ⟨hj.1.issues hw hf, ?_⟩
    rw [issues_history, issueActs, responseActs]
    -- neither operation is pending here, so `response_` may be replaced
    have hfree : ∀ m, ResponseFree c.history (.setResponse m) := fun m _ _ =>
      ⟨settled_of_accounted hj.1 hw, settled_of_accounted hj.1 hf⟩
    split_ifs
    · rw [← List.append_assoc, orderly_snoc, orderly_snoc]
      exact ⟨⟨hj.2, hfree _⟩, responseFree_of_ne (by simp)⟩
    · rw [List.nil_append, orderly_snoc]
      exact ⟨hj.2, responseFree_of_ne (by simp)⟩
  · refine ⟨Accounted.pops (c := ⟨l.cell, []⟩) ha (hl.tally.of_mem (by rw [hi, he]; simp)).1, ?_⟩
    rw [pops_history]
    exact ho.append_of_forall (fun a hm _ => responseFree_of_ne (by rintro m rfl; simp at hm))

/-! ### Requests -/

/-- The message in `request_` that waits to be passed to the handler. -/
def waitingRequest (l : Conn μ) : List (Option μ) :=
  if .completion .read ∈ l.inbox ∧ (l.cell.rpc.events .read).ok = true then [l.cell.rpc.request]
  else []

/-- Where requests are streamed, the handler got the messages received, all but those in `w`. -/
def Fed (w : List (Option μ)) (c : Cell μ) : Prop :=
  requestStreaming c.rpc.rpcHandlerInfo.rpcType = true →
    (received c.history).map some = passed c.history ++ w

theorem requestPassed_of_ne {pre : List (Act μ)} {a : Act μ} (h : a ≠ .start .read) :
    RequestPassed pre a := fun ha => absurd ha h

theorem Fed.of_eq {w : List (Option μ)} {a b : Cell μ} (h : Fed w a)
    (hr : received b.history = received a.history) (hp : passed b.history = passed a.history)
    (ht : b.rpc.rpcHandlerInfo = a.rpc.rpcHandlerInfo) : Fed w b := by
  unfold Fed
  rw [hr, hp, ht]
  exact h

theorem Fed.quiet {w : List (Option μ)} (h : Fed w c.toCell) (hq : Quiet c c') : Fed w c'.toCell := by
  refine h.of_eq (observe_quiet (fun a ha => ?_) hq) (observe_quiet (fun a ha => ?_) hq)
    (by rw [hq.rpc])
  · cases a <;> simp_all [silent, receivedAct]
  · cases a <;> simp_all [silent, passedAct]

theorem received_calledBack (cb : Callback μ) (items : List (SendItem μ)) (w : Bool) (c : Ctx μ) :
    received (calledBack cb items w c).history = received c.history := by
  have : received (sendActs items) = [] := observe_sendActs (fun _ => rfl) rfl items
  rw [calledBack_history]
  simpa [received, receivedAct, List.filterMap_cons] using this

theorem passed_calledBack (cb : Callback μ) (items : List (SendItem μ)) (w : Bool) (c : Ctx μ) :
    passed (calledBack cb items w c).history =
      passed c.history ++ [Act.callback cb].filterMap passedAct := by
  have : passed (sendActs items) = [] := observe_sendActs (fun _ => rfl) rfl items
  rw [calledBack_history]
  unfold passed at this ⊢
  rw [List.filterMap_append, List.filterMap_cons]
  cases hf : passedAct (Act.callback cb) <;> simp [hf, this]

/-- A callback other than `OnRequest` passes nothing. -/
theorem Fed.calledBack {w : List (Option μ)} (h : Fed w c.toCell) {cb : Callback μ}
    {items : List (SendItem μ)} {w' : Bool}
    (hcb : ∀ m, cb = .onRequest m → requestStreaming c.rpc.rpcHandlerInfo.rpcType = false) :
    Fed w (calledBack cb items w' c).toCell := by
  intro ht
  rw [received_calledBack, passed_calledBack]
  have hnil : [Act.callback cb].filterMap passedAct = [] := by
    cases cb with
    | onRequest m => cases (hcb m rfl).symm.trans ht
    | _ => rfl
  rw [hnil, List.append_nil]
  exact h ht

theorem Fed.initialized {w : List (Option μ)} (h : Fed w c.toCell) {items : List (SendItem μ)}
    {w' : Bool} : Fed w (initialized items w' c).toCell := by
  have : Fed w (Moves.calledBack .initializeHandler items w' c).toCell :=
    h.calledBack (fun _ h => nomatch h)
  exact this.of_eq rfl rfl rfl

/-- `OnRequest` passes the message that waits. -/
theorem fed_onRequest {m : Option μ} (h : Fed [m] c.toCell) (items : List (SendItem μ)) (w : Bool) :
    Fed [] (calledBack (.onRequest m) items w c).toCell := by
  intro ht
  rw [received_calledBack, passed_calledBack, List.append_nil]
  exact h ht

theorem Fed.pops {w : List (Option μ)} (h : Fed w c.toCell) (t : Tag) : Fed w (pops t c).toCell := by
  refine h.of_eq ?_ ?_ rfl
  · simp [pops_history, received, receivedAct, List.filterMap_cons]
  · simp [pops_history, passed, passedAct, List.filterMap_cons]

theorem Fed.begins {w : List (Option μ)} (h : Fed w c.toCell) (op : Op μ) :
    Fed w (begins op c).toCell := by
  refine h.of_eq ?_ ?_ rfl
  · simp [begins_history, received, receivedAct]
  · simp [begins_history, passed, passedAct]

theorem Fed.issues {w : List (Option μ)} (h : Fed w c.toCell) (item : SendItem μ)
    (rest : List (SendItem μ)) : Fed w (issues item rest c).toCell := by
  refine h.of_eq ?_ ?_ ?_
  · unfold received
    rw [issues_history, List.filterMap_append, observe_issueActs (fun _ => rfl)]
    simp [receivedAct]
  · unfold passed
    rw [issues_history, List.filterMap_append, observe_issueActs (fun _ => rfl)]
    simp [passedAct]
  · unfold Moves.issues
    dsimp only
    split_ifs <;> rfl

/-- A `Read` is started with nothing outstanding and nothing waiting. -/
theorem requestPassed_begins (ha : Accounted c.toCell)
    (hp : (c.rpc.events .read).pending = false) (hf : Fed [] c.toCell)
    (ht : requestStreaming c.rpc.rpcHandlerInfo.rpcType = true)
    (ho : Orderly RequestPassed c.history) : Orderly RequestPassed (begins .read c).history := by
  rw [begins_history, orderly_snoc]
  refine ⟨ho, fun _ => ⟨settled_of_accounted ha hp, ?_⟩⟩
  have := hf ht
  rwa [List.append_nil] at this

theorem requests_calledBack (ho : Orderly RequestPassed c.history) (cb : Callback μ)
    (items : List (SendItem μ)) (w : Bool) :
    Orderly RequestPassed (calledBack cb items w c).history := by
  rw [calledBack_history]
  refine ho.append_of_forall (fun a hm _ => requestPassed_of_ne ?_)
  rcases List.mem_cons.mp hm with rfl | hm
  · simp
  · rcases mem_sendActs hm with ⟨item, rfl⟩ | rfl <;> simp

theorem requests_quiet (ho : Orderly RequestPassed c.history) (hq : Quiet c c') :
    Orderly RequestPassed c'.history := by
  obtain ⟨acts, h1, h2, -⟩ := hq.history
  rw [h1]
  exact ho.append_of_forall (fun a hm _ => requestPassed_of_ne (by rintro rfl; cases h2 _ hm))

theorem requests_pops (ho : Orderly RequestPassed c.history) (t : Tag) :
    Orderly RequestPassed (pops t c).history := by
  rw [pops_history]
  exact ho.append_of_forall (fun a hm _ => requestPassed_of_ne (by rintro rfl; simp at hm))

theorem requests_issues (ho : Orderly RequestPassed c.history) (item : SendItem μ)
    (rest : List (SendItem μ)) : Orderly RequestPassed (issues item rest c).history := by
  rw [issues_history]
  refine ho.append_of_forall (fun a hm _ => requestPassed_of_ne ?_)
  have hop : opOf c.rpc.rpcHandlerInfo.rpcType item ≠ .read := by
    intro h
    rcases opOf_tag c.rpc.rpcHandlerInfo.rpcType item with h1 | h1 <;> rw [h] at h1 <;> cases h1
  unfold issueActs responseActs at hm
  split_ifs at hm <;> simp only [List.cons_append, List.nil_append, List.mem_cons,
    List.not_mem_nil, or_false] at hm
  · rcases hm with rfl | rfl
    · simp
    · simpa using hop
  · rw [hm]
    simpa using hop

/-- A handled `READ`: the message is passed, or the reads are done. -/
theorem requests_read (ho : Orderly RequestPassed l.cell.history) (ha : Accounted l.cell)
    (hf : Fed (waitingRequest l) l.cell) (hl : Invariant l)
    (hi : l.inbox = .completion .read :: rest)
    (hh : Handled sd (.completion .read) ⟨l.cell, []⟩ c') :
    Orderly RequestPassed c'.history ∧ Fed [] c'.toCell := by
  have hpend := (hl.tally.of_mem (t := .read) (by rw [hi]; simp)).1
  have hacc : Accounted (pops .read ⟨l.cell, []⟩).toCell := Accounted.pops (c := ⟨l.cell, []⟩) ha hpend
  have hord : Orderly RequestPassed (pops .read ⟨l.cell, []⟩).history :=
    requests_pops (c := ⟨l.cell, []⟩) ho .read
  cases hh with
  | @read _ _ _ items w hok _ _ hv =>
    have hw : waitingRequest l = [l.cell.rpc.request] := if_pos ⟨by rw [hi]; simp, hok⟩
    rw [hw] at hf
    have h1 := requests_calledBack (requests_quiet hord (quiet_use .onRequest _))
      (.onRequest l.cell.rpc.request) items w
    have h2 := fed_onRequest ((Fed.pops (c := ⟨l.cell, []⟩) hf .read).quiet (quiet_use .onRequest _))
      items w
    have h3 := (hacc.quiet (quiet_use .onRequest _)).calledBack (.onRequest l.cell.rpc.request) items w
    cases hv with
    | streaming ht =>
      exact ⟨requestPassed_begins (h3.quiet (quiet_use _ _)) (pops_pending_self _ _)
        (h2.quiet (quiet_use _ _)) ht (requests_quiet h1 (quiet_use _ _)),
        (h2.quiet (quiet_use _ _)).begins _⟩
    | unary ht =>
      exact ⟨requests_calledBack (requests_calledBack (requests_quiet h1 (quiet_use _ _)) _ _ _) _ _ _,
        fun hs => by cases ht.symm.trans hs⟩
  | @readsDone _ _ items w hok =>
    have hw : waitingRequest l = [] := if_neg (fun h => by cases hok.symm.trans h.2)
    rw [hw] at hf
    refine ⟨requests_quiet (requests_calledBack (requests_quiet hord (quiet_use _ _)) _ _ _)
      (quiet_tidies _), ?_⟩
    have hfed := (Fed.pops (c := ⟨l.cell, []⟩) hf .read).quiet (quiet_use .onReadsDone _)
    refine Fed.quiet (hfed.calledBack (fun m h => ?_)) (quiet_tidies _)
    cases h

/-- The other events leave a message that waits alone. -/
theorem requests_other (ho : Orderly RequestPassed l.cell.history) (ha : Accounted l.cell)
    (hf : Fed (waitingRequest l) l.cell) (hl : Invariant l) (hi : l.inbox = e :: rest)
    (he : e ≠ .completion .read) (hh : Handled sd e ⟨l.cell, []⟩ c') :
    Orderly RequestPassed c'.history ∧ Fed (waitingRequest l) c'.toCell := by
  -- `READ` not pending means that no message waits
  have hnone : ∀ c : Ctx μ, Tally (ofCtx rest c) → (c.rpc.events .read).pending = false →
      waitingRequest l = [] := by
    intro c ht hp
    refine if_neg (fun h => ?_)
    have hm : .completion .read ∈ rest := by
      have := h.1
      rw [hi, List.mem_cons] at this
      exact this.resolve_left (Ne.symm he)
    exact (ht.of_not_pending hp).2 (List.mem_append_left _ hm)
  have key := Handled.rule (J := fun c => Tally (ofCtx rest c) ∧ Accounted c.toCell ∧
      Orderly RequestPassed c.history ∧ Fed (waitingRequest l) c.toCell)
    (fun c c1 hq hj => ?_) (fun cb items w c hcb hj => ?_) (fun items w c hj => ?_)
    (fun c ht hp hj => ?_) (fun c item rest' _ hw hf hj => ?_) hh (fun t h => ?_) (fun h => ?_)
    (hl.no_read hi)
  · exact key.2.2
  · exact ⟨hj.1.quiet hq, hj.2.1.quiet hq, requests_quiet hj.2.2.1 hq, hj.2.2.2.quiet hq⟩
  · exact ⟨hj.1.calledBack, hj.2.1.calledBack _ _ _, requests_calledBack hj.2.2.1 _ _ _,
      hj.2.2.2.calledBack (by rintro m rfl; exact hcb.resolve_right he)⟩
  · exact ⟨hj.1.initialized, hj.2.1.calledBack .initializeHandler items w,
      requests_calledBack hj.2.2.1 .initializeHandler items w,
      hj.2.2.2.initialized⟩
  · rw [hnone c hj.1 hp] at hj ⊢
    exact ⟨hj.1.begins hp, hj.2.1.begins _ hp,
      requestPassed_begins hj.2.1 hp hj.2.2.2 ht hj.2.2.1, hj.2.2.2.begins _⟩
  · exact ⟨hj.1.issues hw hf, hj.2.1.issues hw hf, requests_issues hj.2.2.1 _ _,
      hj.2.2.2.issues _ _⟩
  · subst h
    have hpend := (hl.tally.of_mem (t := t) (by rw [hi]; simp)).1
    exact ⟨hl.tally.pops hi, Accounted.pops (c := ⟨l.cell, []⟩) ha hpend,
      requests_pops (c := ⟨l.cell, []⟩) ho t, Fed.pops (c := ⟨l.cell, []⟩) hf t⟩
  · subst h
    exact ⟨hl.tally.ofCtx_needed hi, ha, ho, hf⟩

/-! ### One operation at a time -/

/-- `WRITE` and `FINISH` are not pending together. -/
def Exclusive (rpc : Rpc μ) : Prop :=
  (rpc.events .write).pending = false ∨ (rpc.events .finish).pending = false

theorem exclusive_handled (h : Exclusive l.cell.rpc) (hl : Invariant l) (hi : l.inbox = e :: rest)
    (hh : Handled sd e ⟨l.cell, []⟩ c') : Exclusive c'.rpc := by
  have hpops : ∀ (t t' : Tag) (c : Ctx μ), (c.rpc.events t').pending = false →
      ((pops t c).rpc.events t').pending = false := by
    intro t t' c hp
    by_cases ht : t' = t
    · subst ht; exact pops_pending_self _ _
    · rw [pops_events_of_ne ht]; exact hp
  refine Handled.rule (J := fun c => Exclusive c.rpc) (fun c c1 hq hj => ?_)
    (fun cb items w c _ hj => hj) (fun items w c hj => hj) (fun c _ _ hj => ?_)
    (fun c item rest' _ hw hf hj => ?_) hh (fun t _ => ?_) (fun _ => h) (hl.no_read hi)
  · rw [hq.rpc]; exact hj
  · unfold Exclusive
    rw [begins_events_of_ne (by simp [Op.tag]), begins_events_of_ne (by simp [Op.tag])]
    exact hj
  · unfold issues Exclusive
    dsimp only
    rcases opOf_tag c.rpc.rpcHandlerInfo.rpcType item with ht | ht
    · right
      rw [begins_events_of_ne (by rw [ht]; decide)]
      split_ifs <;> exact hf
    · left
      rw [begins_events_of_ne (by rw [ht]; decide)]
      split_ifs <;> exact hw
  · exact h.imp (hpops _ _ _) (hpops _ _ _)

/-! ### Along a run -/

/-- The buffers of one `Rpc` are used as gRPC demands. -/
structure Buffered (l : Conn μ) : Prop where
  accounted : Accounted l.cell
  exclusive : Exclusive l.cell.rpc
  responses : Orderly ResponseFree l.cell.history
  requests : Orderly RequestPassed l.cell.history
  fed : Fed (waitingRequest l) l.cell

theorem Buffered.of_append (h : Buffered l) (acts : List (Act μ)) (ha : Accounted l'.cell)
    (hx : Exclusive l'.cell.rpc)
    (hh : l'.cell.history = l.cell.history ++ acts)
    (hacts : ∀ a ∈ acts, a ≠ .start .read ∧ (∀ m, a ≠ .setResponse m))
    (hf : Fed (waitingRequest l') l'.cell) : Buffered l' := by
  refine ⟨ha, hx, ?_, ?_, hf⟩
  · rw [hh]
    exact h.responses.append_of_forall (fun a hm _ => responseFree_of_ne (hacts a hm).2)
  · rw [hh]
    exact h.requests.append_of_forall (fun a hm _ => requestPassed_of_ne (hacts a hm).1)

theorem fed_delivered {t : Tag} {ok : Bool} {m : μ} (h : Fed (waitingRequest l) l.cell)
    (hl : Invariant l) (hd : deliverable t l.cell = true) :
    Fed (waitingRequest ⟨deliver t ok m l.cell, l.inbox ++ [.completion t]⟩)
      (deliver t ok m l.cell) := by
  intro ht
  have hfed := h ht
  have hno : .completion t ∉ l.inbox := by
    intro hin
    have := (hl.tally.of_mem hin).2.1
    unfold deliverable at hd
    simp [this] at hd
  have hpass : passed (deliver t ok m l.cell).history = passed l.cell.history := by
    simp [deliver, passed, passedAct]
  rw [hpass]
  unfold waitingRequest at hfed ⊢
  by_cases hr : t = .read
  · subst hr
    rw [if_neg (fun h => hno h.1), List.append_nil] at hfed
    cases ok with
    | true =>
      simp only [List.mem_append, List.mem_singleton, or_true, true_and]
      simpa [deliver, received, receivedAct, storesRequest] using hfed
    | false => simpa [deliver, received, receivedAct, List.filterMap_cons] using hfed
  · -- where requests are streamed, `NEW_CONNECTION` brings no message
    have hreq : (deliver t ok m l.cell).rpc.request = l.cell.rpc.request := by
      have hst : storesRequest t ok l.cell.rpc.rpcHandlerInfo.rpcType = false := by
        replace ht : requestStreaming l.cell.rpc.rpcHandlerInfo.rpcType = true := ht
        generalize l.cell.rpc.rpcHandlerInfo.rpcType = ty at ht
        cases t <;> cases ty <;> simp_all [storesRequest, requestStreaming]
      simp [deliver, hst]
    have hrec : received (deliver t ok m l.cell).history = received l.cell.history := by
      have : receivedAct (.deliver t ok m) = none := by cases t <;> simp_all [receivedAct]
      simp [deliver, received, this]
    have hev : (deliver t ok m l.cell).rpc.events .read = l.cell.rpc.events .read := by
      simp [deliver, Function.update_of_ne (Ne.symm hr)]
    rw [hrec]
    simp only [hreq, hev, List.mem_append, List.mem_singleton, RpcEvent.completion.injEq,
      Ne.symm hr, or_false]
    exact hfed

theorem Buffered.handled (h : Buffered l) (hl : Invariant l) (hi : l.inbox = e :: rest)
    (hh : Handled sd e ⟨l.cell, []⟩ c') : Buffered (ofCtx rest c') := by
  obtain ⟨hreq, hok, hout⟩ := handled_keeps hl hi hh
  have hmem : .completion .read ∈ (ofCtx rest c').inbox ↔ .completion .read ∈ rest := by
    simp only [ofCtx, List.mem_append]
    exact or_iff_left (hout .read)
  by_cases he : e = .completion .read
  · subst he
    obtain ⟨h1, h2⟩ := requests_read h.requests h.accounted h.fed hl hi hh
    refine ⟨h.accounted.handled hl hi hh, exclusive_handled h.exclusive hl hi hh,
      responses_handled h.responses h.accounted hl hi hh, h1, ?_⟩
    have hno : .completion .read ∉ rest := by
      have := (hl.tally.of_mem (t := .read) (by rw [hi]; simp)).2.2
      rw [hi, List.count_cons_self] at this
      exact List.count_eq_zero.mp (by omega)
    have hw : waitingRequest (ofCtx rest c') = [] := if_neg (fun h0 => hno (hmem.mp h0.1))
    rw [hw]
    exact h2
  · obtain ⟨h1, h2⟩ := requests_other h.requests h.accounted h.fed hl hi he hh
    refine ⟨h.accounted.handled hl hi hh, exclusive_handled h.exclusive hl hi hh,
      responses_handled h.responses h.accounted hl hi hh, h1, ?_⟩
    have hw : waitingRequest (ofCtx rest c') = waitingRequest l := by
      have hok' : ((ofCtx rest c').cell.rpc.events .read).ok = (l.cell.rpc.events .read).ok :=
        hok .read
      have hreq' : (ofCtx rest c').cell.rpc.request = l.cell.rpc.request := hreq
      unfold waitingRequest
      simp only [hmem, hok', hreq', hi, List.mem_cons, Ne.symm he, false_or]
    rw [hw]
    exact h2

theorem Buffered.writerMoved (h : Buffered l) (hw : WriterMoved l l') : Buffered l' := by
  obtain ⟨acts, h1, h2⟩ := hw.history
  have hwait : waitingRequest l' = waitingRequest l := by
    simp only [waitingRequest, hw.inbox, hw.events, hw.request]
  refine h.of_append acts (h.accounted.writerMoved hw) ?_ h1 (fun a ha => ?_) ?_
  · unfold Exclusive
    rw [hw.events]
    exact h.exclusive
  · have := h2 a ha
    cases a <;> simp_all [byWriter]
  · rw [hwait]
    refine h.fed.of_eq (hw.observe (fun a ha => ?_)) (hw.observe (fun a ha => ?_)) hw.info
    · cases a <;> simp_all [byWriter, receivedAct]
    · cases a <;> simp_all [byWriter, passedAct]

theorem Buffered.moved (h : Buffered l) (hl : Invariant l) (hm : Moved l b l') : Buffered l' := by
  cases hm.kind with
  | @delivered t ok m hd =>
    refine h.of_append [.deliver t ok m] (h.accounted.moved hl hm) ?_ rfl (by simp)
      (fed_delivered h.fed hl hd)
    unfold Exclusive
    rw [pending_deliver, pending_deliver]
    exact h.exclusive
  | handled hi hh => exact h.handled hl hi hh
  | locked hw => exact h.writerMoved hw
  | stepped hw => exact h.writerMoved hw

theorem buffered_of_fresh (h : Fresh l) : Buffered l := by
  obtain ⟨ty, hh⟩ := fresh_history h
  refine ⟨accounted_of_fresh h, ?_, ?_, ?_, ?_⟩
  · obtain ⟨_, _, _, _, _, rfl⟩ := fresh_eq h
    exact Or.inl rfl
  · rw [hh]
    exact (orderly_nil _).append_of_forall (fun a hm _ => responseFree_of_ne (by
      rintro m rfl; simp at hm))
  · rw [hh]
    exact (orderly_nil _).append_of_forall (fun a hm _ => requestPassed_of_ne (by
      rintro rfl; simp at hm))
  · intro _
    have hin : l.inbox = [] := by
      obtain ⟨_, _, _, _, _, rfl⟩ := fresh_eq h
      rfl
    rw [hh]
    simp [waitingRequest, hin, received, receivedAct, passed, passedAct, List.filterMap_cons]

end Buffers

/-- **An `Rpc` uses its buffers as gRPC demands.** -/
theorem buffered_of_walk {Q : Conn μ → Step μ → Prop} {l : Conn μ} (h : Walks Q l) : Buffered l :=
  of_walk (fun _ => buffered_of_fresh) (fun _ _ _ hb hi hm => hb.moved hi hm) h

end AsyncGrpc.Single.Buffers
