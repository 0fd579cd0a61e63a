import AsyncGrpc.Single.Buffers
import AsyncGrpc.Single.Order

/-! # The callbacks made on a handler

`conversation` is the part of a history that a handler takes part in: the `READ` events handled and
the calls of `Initialize`, `OnRequest` and `OnReadsDone`. `answers` is what one handled event adds to
it; from that follows, step by step, what the conversation of every `Rpc` looks like in every run:
`Initialize` first, then the one request or the streamed ones, each right after the `READ` that
brought it, then `OnReadsDone`. -/

namespace AsyncGrpc.Service.Callbacks

open AsyncGrpc.Lib.Runs AsyncGrpc.Lib.Histories
open AsyncGrpc.Model.Types AsyncGrpc.Model.Rpc AsyncGrpc.Model.Service AsyncGrpc.Model.Server
open AsyncGrpc.Single.Machine AsyncGrpc.Single.Moves AsyncGrpc.Single.Project
open AsyncGrpc.Single.Lifecycle AsyncGrpc.Single.Ledger AsyncGrpc.Single.Buffers
open AsyncGrpc.Single.Order

variable {μ : Type} {cfg : Config}

/-! ### Conversations -/

/-- The entries of the conversation with the handler. -/
def conversationAct : Act μ → Option (Act μ)
  | .handle .read ok => some (.handle .read ok)
  | .callback .initializeHandler => some (.callback .initializeHandler)
  | .callback (.onRequest m) => some (.callback (.onRequest m))
  | .callback .onReadsDone => some (.callback .onReadsDone)
  | _ => none

/-- The conversation with the handler. -/
def conversation (h : List (Act μ)) : List (Act μ) := h.filterMap conversationAct

/-- The message that came with the connection. -/
def requestedAct : Act μ → Option μ
  | .deliver .newConnection true m => some m
  | _ => none

/-- The messages that came with connections. -/
def requested (h : List (Act μ)) : List μ := h.filterMap requestedAct

/-- Messages that are passed on one after the other, each when its `READ` is handled. -/
def streamed (ms : List (Option μ)) : List (Act μ) :=
  ms.flatMap fun m => [.handle .read true, .callback (.onRequest m)]

/-- The first `READ` that fails ends the requests. -/
def ended (done : Bool) : List (Act μ) :=
  if done then [.handle .read false, .callback .onReadsDone] else []

/-- What the event adds to the conversation of the `Rpc`. -/
def answers (sd : Bool) (c : Cell μ) : RpcEvent → List (Act μ)
  | .completion .newConnection =>
    if !sd && (c.rpc.events .newConnection).ok then
      .callback .initializeHandler ::
        if requestStreaming c.rpc.rpcHandlerInfo.rpcType then []
        else [.callback (.onRequest c.rpc.request), .callback .onReadsDone]
    else []
  | .completion .read =>
    if (c.rpc.events .read).ok then streamed [c.rpc.request] else ended true
  | _ => []

section Answers
variable {l l' : Conn μ} {b : Step μ} {c c' : Ctx μ} {sd : Bool} {e : RpcEvent}
  {rest : List RpcEvent}

theorem conversation_append (h k : List (Act μ)) :
    conversation (h ++ k) = conversation h ++ conversation k := List.filterMap_append

theorem conversation_quiet (hq : Quiet c c') : conversation c'.history = conversation c.history :=
  observe_quiet (fun a ha => by cases a <;> simp_all [silent, conversationAct]) hq

theorem conversation_pops (t : Tag) (c : Ctx μ) : conversation (pops t c).history =
    conversation c.history ++ conversation [.handle t (c.rpc.events t).ok] := by
  rw [pops_history, conversation_append]
  rfl

theorem conversation_calledBack (cb : Callback μ) (items : List (SendItem μ)) (w : Bool)
    (c : Ctx μ) : conversation (calledBack cb items w c).history =
      conversation c.history ++ conversation [.callback cb] := by
  have hsend : (sendActs items).filterMap conversationAct = [] :=
    observe_sendActs (fun _ => rfl) rfl items
  rw [calledBack_history, conversation_append]
  unfold conversation
  rw [List.filterMap_cons, hsend]
  rfl

theorem conversation_sentQueue (hq : SentQueue c c') :
    conversation c'.history = conversation c.history := by
  cases hq with
  | idle => rfl
  | issued =>
    rw [issues_history, conversation_append]
    unfold conversation
    rw [observe_issueActs (fun _ => rfl)]
    exact List.append_nil _

theorem conversation_tidies (c : Ctx μ) : conversation (tidies c).history = conversation c.history :=
  conversation_quiet (quiet_tidies c)

theorem conversation_use (m : Member) (c : Ctx μ) :
    conversation (use m c).history = conversation c.history :=
  conversation_quiet (quiet_use m c)

/-- **What a handled event adds to the conversation.** -/
theorem conversation_handled (hl : Invariant l) (hi : l.inbox = e :: rest)
    (hh : Handled sd e ⟨l.cell, []⟩ c') :
    conversation c'.history = conversation l.cell.history ++ answers sd l.cell e := by
  cases hh with
  | refused =>
    rw [conversation_quiet (quiet_remove _ _), conversation_pops]
    rfl
  | failed hok =>
    replace hok : (l.cell.rpc.events .newConnection).ok = false := hok
    rw [conversation_use, conversation_quiet (quiet_remove _ _), conversation_pops]
    simp [answers, hok, conversation, conversationAct]
  | @accepted _ c2 items w hok _ _ hv =>
    replace hok : (l.cell.rpc.events .newConnection).ok = true := hok
    have hinit : conversation (initialized items w (use .onConnection
        (pops .newConnection ⟨l.cell, []⟩))).history =
        conversation l.cell.history ++ [.callback .initializeHandler] := by
      refine (conversation_calledBack .initializeHandler items w _).trans ?_
      rw [conversation_use, conversation_pops]
      simp [conversation, conversationAct, List.filterMap_cons]
    rw [conversation_use]
    cases hv with
    | streaming ht =>
      replace ht : requestStreaming l.cell.rpc.rpcHandlerInfo.rpcType = true := ht
      rw [begins_history, conversation_append, hinit]
      simp [answers, hok, ht, conversation, conversationAct]
    | unary ht =>
      replace ht : requestStreaming l.cell.rpc.rpcHandlerInfo.rpcType = false := ht
      rw [conversation_calledBack, conversation_calledBack, hinit]
      simp only [answers, hok, ht, Bool.not_false, Bool.and_self, if_true, Bool.false_eq_true, if_false]
      simp [conversation, conversationAct]
      rfl
  | reaccepted _ hhan =>
    replace hhan : l.cell.rpc.handler = true := hhan
    cases (hl.idle hi).1.handler.symm.trans hhan
  | @read _ _ _ items w hok _ _ hv =>
    replace hok : (l.cell.rpc.events .read).ok = true := hok
    have hcall : conversation (use .requestStreamingReadIfNeeded (calledBack
        (.onRequest l.cell.rpc.request) items w (use .onRequest (pops .read ⟨l.cell, []⟩)))).history =
        conversation l.cell.history ++ streamed [l.cell.rpc.request] := by
      rw [conversation_use, conversation_calledBack, conversation_use, conversation_pops]
      simp [conversation, conversationAct, streamed, hok]
    cases hv with
    | streaming ht =>
      rw [begins_history, conversation_append]
      simp only [answers, hok, if_true]
      rw [← hcall]
      exact List.append_nil _
    | unary ht =>
      have hpend := (hl.tally.of_mem (t := .read) (by rw [hi]; simp)).1
      cases ht.symm.trans (hl.reads hpend)
  | readsDone hok =>
    replace hok : (l.cell.rpc.events .read).ok = false := hok
    rw [conversation_tidies, conversation_calledBack, conversation_use, conversation_pops]
    simp [conversation, conversationAct, answers, ended, hok]
  | write hq =>
    rw [conversation_tidies, conversation_sentQueue hq, conversation_use, conversation_pops]
    rfl
  | finish =>
    rw [conversation_tidies, conversation_calledBack, conversation_use, conversation_pops]
    simp [conversation, conversationAct, List.filterMap_cons, answers]
  | done =>
    rw [conversation_tidies, conversation_pops]
    rfl
  | writeNeeded _ hq =>
    rw [conversation_tidies, conversation_sentQueue hq, conversation_use,
      conversation_quiet (quiet_wakes _)]
    exact (List.append_nil _).symm
  | stale => exact (List.append_nil _).symm

/-- The handler is set when a connection is accepted, and stays. -/
theorem handler_handled (hh : Handled sd e c c') : c'.rpc.handler = true ↔
    c.rpc.handler = true ∨ e = .completion .newConnection ∧ sd = false ∧
      (c.rpc.events .newConnection).ok = true := by
  cases hh with
  | refused => simp [pops, use, log, setPending]
  | failed hok => simp [pops, use, log, setPending, hok]
  | accepted hok _ _ hv => exact iff_of_true hv.frame.2.1 (Or.inr ⟨rfl, rfl, hok⟩)
  | reaccepted hok hh hv => exact iff_of_true (hv.frame.2.1.trans hh) (Or.inl hh)
  | read _ hh _ hv => exact iff_of_true (hv.frame.2.1.trans hh) (Or.inl hh)
  | readsDone _ hh => exact iff_of_true (by rw [tidies_rpc]; exact hh) (Or.inl hh)
  | write hq =>
    rw [tidies_rpc, hq.frame.2.1]
    simp [pops, use, log, setPending]
  | finish hh => exact iff_of_true (by rw [tidies_rpc]; exact hh) (Or.inl hh)
  | done =>
    rw [tidies_rpc]
    simp [pops, use, log, setPending]
  | writeNeeded _ hq =>
    rw [tidies_rpc, hq.frame.2.1]
    simp [wakes, use, log]
  | stale => simp

/-- Only a connection and a `READ` start a `Read`. -/
theorem read_pending_handled (hh : Handled sd e c c') (hn : e ≠ .completion .newConnection)
    (hr : e ≠ .completion .read) : c'.rpc.events .read = c.rpc.events .read := by
  have hpops : ∀ t, Tag.read ≠ t → (pops t c).rpc.events .read = c.rpc.events .read :=
    fun t ht => pops_events_of_ne ht c
  cases hh with
  | refused => exact absurd rfl hn
  | failed => exact absurd rfl hn
  | accepted => exact absurd rfl hn
  | reaccepted => exact absurd rfl hn
  | read => exact absurd rfl hr
  | readsDone => exact absurd rfl hr
  | write hq =>
    rw [tidies_rpc, hq.events_of_ne (by decide) (by decide)]
    exact hpops .write (by decide)
  | finish =>
    rw [tidies_rpc]
    exact hpops .finish (by decide)
  | done =>
    rw [tidies_rpc]
    exact hpops .done (by decide)
  | writeNeeded _ hq =>
    rw [tidies_rpc, hq.events_of_ne (by decide) (by decide)]
    rfl
  | stale => rfl

end Answers

/-! ### What every conversation looks like -/

/-- The one message that came with an accepted connection, which waits in `request_` where requests
are not streamed. -/
structure Asked (c : Cell μ) : Prop where
  before : c.accepted = none → requested c.history = []
  after : c.accepted = some true → ∃ m, requested c.history = [m] ∧
    (c.rpc.handler = false → requestStreaming c.rpc.rpcHandlerInfo.rpcType = false →
      c.rpc.request = some m)

/-- The conversation so far. Once the reads have failed, no other `READ` comes. -/
structure Conversed (c : Cell μ) : Prop where
  silent : c.rpc.handler = false → conversation c.history = []
  unary : c.rpc.handler = true → requestStreaming c.rpc.rpcHandlerInfo.rpcType = false →
    ∃ m, requested c.history = [m] ∧ conversation c.history =
      [.callback .initializeHandler, .callback (.onRequest (some m)), .callback .onReadsDone]
  streaming : c.rpc.handler = true → requestStreaming c.rpc.rpcHandlerInfo.rpcType = true →
    ∃ ms done, conversation c.history =
        .callback .initializeHandler :: (streamed ms ++ ended done) ∧
      (done = true → (c.rpc.events .read).pending = false)

section Conversed
variable {l l' : Conn μ} {b : Step μ} {c c' : Ctx μ} {sd : Bool} {e : RpcEvent}
  {rest : List RpcEvent}

theorem Asked.of_eq {a b : Cell μ} (h : Asked a) (hacc : b.accepted = a.accepted)
    (hreq : requested b.history = requested a.history)
    (hinfo : b.rpc.rpcHandlerInfo = a.rpc.rpcHandlerInfo)
    (hh : b.rpc.handler = false → a.rpc.handler = false ∧ b.rpc.request = a.rpc.request) :
    Asked b := by
  refine ⟨fun h1 => hreq.trans (h.before (hacc.symm.trans h1)), fun h1 => ?_⟩
  obtain ⟨m, h2, h3⟩ := h.after (hacc.symm.trans h1)
  refine ⟨m, hreq.trans h2, fun h4 h5 => ?_⟩
  obtain ⟨h6, h7⟩ := hh h4
  rw [hinfo] at h5
  exact h7.trans (h3 h6 h5)

theorem requested_handled (hl : Invariant l) (hi : l.inbox = e :: rest)
    (hh : Handled sd e ⟨l.cell, []⟩ c') : requested c'.history = requested l.cell.history := by
  refine (observe_handled (f := requestedAct)
    (fun a ha => by cases a <;> simp_all [inHandler, requestedAct]) hl hi hh).trans ?_
  cases e <;> exact List.append_nil _

theorem requested_writerMoved (hw : WriterMoved l l') :
    requested l'.cell.history = requested l.cell.history :=
  hw.observe (fun a ha => by cases a <;> simp_all [byWriter, requestedAct])

theorem Asked.writerMoved (h : Asked l.cell) (hw : WriterMoved l l') : Asked l'.cell :=
  h.of_eq hw.accepted (requested_writerMoved hw) hw.info
    (fun hf => ⟨hw.handler.symm.trans hf, hw.request⟩)

theorem asked_delivered {t : Tag} {ok : Bool} {m : μ} (h : Asked l.cell) (hl : Invariant l)
    (hd : deliverable t l.cell = true) : Asked (deliver t ok m l.cell) := by
  obtain ⟨hpend, hno⟩ := hl.tally.of_deliverable hd
  by_cases ht : t = .newConnection
  · subst ht
    have hacc : l.cell.accepted = none := by
      cases hl.phase with
      | listening _ _ hacc => exact hacc
      | delivered _ _ _ _ _ hin =>
        rw [hin] at hno
        simp at hno
      | connected hc => cases hc.settled.symm.trans hpend
      | refused _ _ _ hn => cases hn.symm.trans hpend
    refine ⟨fun h1 => by simp [deliver] at h1, fun h1 => ⟨m, ?_, fun _ hs => ?_⟩⟩
    · have hok : ok = true := by simpa [deliver] using h1
      subst hok
      have hgrow : requested (deliver .newConnection true m l.cell).history =
          requested l.cell.history ++ [m] := List.filterMap_append
      rw [hgrow, h.before hacc]
      rfl
    · have hok : ok = true := by simpa [deliver] using h1
      have hst : storesRequest .newConnection ok l.cell.rpc.rpcHandlerInfo.rpcType = true := by
        replace hs : requestStreaming l.cell.rpc.rpcHandlerInfo.rpcType = false := hs
        generalize l.cell.rpc.rpcHandlerInfo.rpcType = ty at hs
        cases ty <;> simp_all [storesRequest, requestStreaming]
      simp [deliver, hst]
  · refine h.of_eq (by simp [deliver, ht]) ?_ rfl (fun hf => ⟨hf, ?_⟩)
    · have hnone : requestedAct (.deliver t ok m) = none := by cases t <;> simp_all [requestedAct]
      simp [deliver, requested, hnone]
    · -- without a handler only `DONE` can come, which brings no message
      have hst : storesRequest t ok l.cell.rpc.rpcHandlerInfo.rpcType = false := by
        have hr : t ≠ .read := by
          rintro rfl
          cases hl.phase with
          | listening hi => cases (hi.quiet .read (by decide) (by decide)).symm.trans hpend
          | delivered hi => cases (hi.quiet .read (by decide) (by decide)).symm.trans hpend
          | connected hc => cases hc.handler.symm.trans hf
          | refused hi => cases (hi.quiet .read (by decide) (by decide)).symm.trans hpend
        cases t <;> simp_all [storesRequest]
      simp [deliver, hst]

theorem Asked.moved (h : Asked l.cell) (hl : Invariant l) (hm : Moved l b l') : Asked l'.cell := by
  cases hm.kind with
  | delivered hd => exact asked_delivered h hl hd
  | handled hi hh =>
    refine h.of_eq hh.grpc.1 (requested_handled hl hi hh) (rpcType_of_fixed hh.fixed)
      (fun hf => ⟨?_, (handled_keeps hl hi hh).1⟩)
    by_contra hne
    have hset := (handler_handled hh).mpr (Or.inl (by simpa using hne))
    cases hf.symm.trans hset
  | locked hw => exact h.writerMoved hw
  | stepped hw => exact h.writerMoved hw

theorem asked_of_fresh (h : Fresh l) : Asked l.cell := by
  obtain ⟨_, _, _, _, _, rfl⟩ := fresh_eq h
  exact ⟨fun _ => rfl, fun h => nomatch h⟩

theorem Conversed.of_eq {a b : Cell μ} (h : Conversed a)
    (hc : conversation b.history = conversation a.history)
    (hreq : requested b.history = requested a.history) (hh : b.rpc.handler = a.rpc.handler)
    (hinfo : b.rpc.rpcHandlerInfo = a.rpc.rpcHandlerInfo)
    (hr : (a.rpc.events .read).pending = false → (b.rpc.events .read).pending = false) :
    Conversed b := by
  refine ⟨fun h1 => ?_, fun h1 h2 => ?_, fun h1 h2 => ?_⟩
  · exact hc.trans (h.silent (hh.symm.trans h1))
  · rw [hinfo] at h2
    obtain ⟨m, h3, h4⟩ := h.unary (hh.symm.trans h1) h2
    exact ⟨m, hreq.trans h3, hc.trans h4⟩
  · rw [hinfo] at h2
    obtain ⟨ms, done, h3, h4⟩ := h.streaming (hh.symm.trans h1) h2
    exact ⟨ms, done, hc.trans h3, fun hd => hr (h4 hd)⟩

/-- A connection is accepted, or not. -/
theorem conversed_newConnection (h : Conversed l.cell) (ha : Asked l.cell) (hl : Invariant l)
    (hi : l.inbox = .completion .newConnection :: rest)
    (hh : Handled sd (.completion .newConnection) ⟨l.cell, []⟩ c') : Conversed c'.toCell := by
  obtain ⟨hidle, -, hacc, -⟩ := hl.idle hi
  have hconv := conversation_handled hl hi hh
  rw [h.silent hidle.handler, List.nil_append] at hconv
  have hinfo : c'.rpc.rpcHandlerInfo = l.cell.rpc.rpcHandlerInfo := rpcType_of_fixed hh.fixed
  have hset := handler_handled hh
  replace hset : c'.rpc.handler = true ↔ sd = false ∧ (l.cell.rpc.events .newConnection).ok = true :=
    hset.trans ⟨fun h0 => h0.elim (fun h1 => (nomatch hidle.handler.symm.trans h1)) (·.2),
      fun h0 => Or.inr ⟨rfl, h0⟩⟩
  refine ⟨fun h1 => ?_, fun h1 h2 => ?_, fun h1 h2 => ?_⟩
  · rw [hconv]
    refine if_neg (fun h2 => ?_)
    simp only [Bool.and_eq_true, Bool.not_eq_true'] at h2
    cases h1.symm.trans (hset.mpr h2)
  · obtain ⟨hsd, hok⟩ := hset.mp h1
    rw [hinfo] at h2
    rw [hok] at hacc
    obtain ⟨m, h3, h4⟩ := ha.after hacc
    refine ⟨m, (requested_handled hl hi hh).trans h3, ?_⟩
    rw [hconv]
    simp [answers, hsd, hok, h2, h4 hidle.handler h2]
  · obtain ⟨hsd, hok⟩ := hset.mp h1
    rw [hinfo] at h2
    refine ⟨[], false, ?_, fun h3 => nomatch h3⟩
    rw [hconv]
    simp [answers, hsd, hok, h2, streamed, ended]

/-- A `READ` is handled: its message is passed on, or the reads are done. -/
theorem conversed_read (h : Conversed l.cell) (hl : Invariant l)
    (hi : l.inbox = .completion .read :: rest)
    (hh : Handled sd (.completion .read) ⟨l.cell, []⟩ c') : Conversed c'.toCell := by
  have hpend := (hl.tally.of_mem (t := .read) (by rw [hi]; simp)).1
  have hstream := hl.reads hpend
  have hhan := (hl.connected hi (by simp) (by simp)).handler
  have hconv := conversation_handled hl hi hh
  have hinfo : c'.rpc.rpcHandlerInfo = l.cell.rpc.rpcHandlerInfo := rpcType_of_fixed hh.fixed
  have hset : c'.rpc.handler = true := (handler_handled hh).mpr (Or.inl hhan)
  obtain ⟨ms, done, h1, h2⟩ := h.streaming hhan hstream
  have hdone : done = false := by
    by_contra hne
    cases (h2 (by simpa using hne)).symm.trans hpend
  subst hdone
  rw [h1] at hconv
  refine ⟨fun h3 => (nomatch h3.symm.trans hset), fun _ h3 => ?_, fun _ _ => ?_⟩
  · rw [hinfo] at h3
    cases h3.symm.trans hstream
  · rcases hok : (l.cell.rpc.events .read).ok with _ | _
    · refine ⟨ms, true, ?_, fun _ => ?_⟩
      · rw [hconv]
        simp [answers, hok, ended]
      · cases hh with
        | read hok' => cases hok.symm.trans hok'
        | readsDone =>
          rw [tidies_rpc]
          exact pops_pending_self .read ⟨l.cell, []⟩
    · refine ⟨ms ++ [l.cell.rpc.request], false, ?_, fun h3 => nomatch h3⟩
      rw [hconv]
      simp [answers, hok, ended, streamed]

theorem conversed_handled (h : Conversed l.cell) (ha : Asked l.cell) (hl : Invariant l)
    (hi : l.inbox = e :: rest) (hh : Handled sd e ⟨l.cell, []⟩ c') : Conversed c'.toCell := by
  by_cases hn : e = .completion .newConnection
  · subst hn
    exact conversed_newConnection h ha hl hi hh
  by_cases hr : e = .completion .read
  · subst hr
    exact conversed_read h hl hi hh
  refine h.of_eq ?_ (requested_handled hl hi hh) ?_ (rpcType_of_fixed hh.fixed) (fun hp => ?_)
  · rw [conversation_handled hl hi hh]
    have hnil : answers sd l.cell e = [] := by
      cases e with
      | completion t => cases t <;> first | rfl | contradiction
      | writeNeeded => rfl
    rw [hnil, List.append_nil]
  · have := handler_handled hh
    rw [Bool.eq_iff_iff]
    exact this.trans (or_iff_left (fun h0 => hn h0.1))
  · rw [read_pending_handled hh hn hr]
    exact hp

theorem Conversed.writerMoved (h : Conversed l.cell) (hw : WriterMoved l l') : Conversed l'.cell :=
  h.of_eq (hw.observe (fun a ha => by cases a <;> simp_all [byWriter, conversationAct]))
    (requested_writerMoved hw) hw.handler hw.info (by rw [hw.events]; exact id)

theorem conversed_delivered {t : Tag} {ok : Bool} {m : μ} (h : Conversed l.cell) (hl : Invariant l)
    (hd : deliverable t l.cell = true) : Conversed (deliver t ok m l.cell) := by
  have hconv : conversation (deliver t ok m l.cell).history = conversation l.cell.history := by
    simp [deliver, conversation, conversationAct]
  have hreq : l.cell.rpc.handler = true →
      requested (deliver t ok m l.cell).history = requested l.cell.history := by
    intro hhan
    have hne : t ≠ .newConnection := by
      rintro rfl
      have hpend := (hl.tally.of_deliverable hd).1
      have hc : Connected l.cell :=
        hl.phase.connected_of_not_idle (fun h0 => by cases h0.handler.symm.trans hhan)
      cases hc.settled.symm.trans hpend
    have hnone : requestedAct (.deliver t ok m) = none := by cases t <;> simp_all [requestedAct]
    simp [deliver, requested, hnone]
  refine ⟨fun h1 => hconv.trans (h.silent h1), fun h1 h2 => ?_, fun h1 h2 => ?_⟩
  · obtain ⟨m', h3, h4⟩ := h.unary h1 h2
    exact ⟨m', (hreq h1).trans h3, hconv.trans h4⟩
  · obtain ⟨ms, done, h3, h4⟩ := h.streaming h1 h2
    exact ⟨ms, done, hconv.trans h3, fun hd => (pending_deliver _ _ _ _ _).trans (h4 hd)⟩

theorem Conversed.moved (h : Conversed l.cell) (ha : Asked l.cell) (hl : Invariant l)
    (hm : Moved l b l') : Conversed l'.cell := by
  cases hm.kind with
  | delivered hd => exact conversed_delivered h hl hd
  | handled hi hh => exact conversed_handled h ha hl hi hh
  | locked hw => exact h.writerMoved hw
  | stepped hw => exact h.writerMoved hw

theorem conversed_of_fresh (h : Fresh l) : Conversed l.cell := by
  obtain ⟨_, _, _, _, _, rfl⟩ := fresh_eq h
  exact ⟨fun _ => rfl, fun h => (nomatch h), fun h => nomatch h⟩

theorem conversed_of_walk {Q : Conn μ → Step μ → Prop} (h : Walks Q l) : Conversed l.cell :=
  (of_walk (I := fun l => Asked l.cell ∧ Conversed l.cell)
    (fun _ hf => ⟨asked_of_fresh hf, conversed_of_fresh hf⟩)
    (fun _ _ _ hc hi hm => ⟨hc.1.moved hi hm, hc.2.moved hc.1 hi hm⟩) h).2

theorem mem_initializeHandler {c : Cell μ} (h : Conversed c) (hh : c.rpc.handler = true) :
    .callback .initializeHandler ∈ c.history := by
  have hmem : .callback .initializeHandler ∈ conversation c.history := by
    rcases hs : requestStreaming c.rpc.rpcHandlerInfo.rpcType with _ | _
    · obtain ⟨m, -, h1⟩ := h.unary hh hs
      simp [h1]
    · obtain ⟨ms, done, h1, -⟩ := h.streaming hh hs
      simp [h1]
  obtain ⟨a, h1, h2⟩ := List.mem_filterMap.mp hmem
  have ha : a = .callback .initializeHandler := by
    unfold conversationAct at h2
    split at h2 <;> simp_all
  rwa [ha] at h1

/-! ### `OnFinish` -/

/-- `OnFinish` is called only after a `Finish` was issued, on a handler that was initialised. -/
def FinishIssued (pre : List (Act μ)) (a : Act μ) : Prop :=
  a = .callback .onFinish → started .finish pre ≠ [] ∧ .callback .initializeHandler ∈ pre

theorem finishIssued_of_ne {pre : List (Act μ)} {a : Act μ} (h : a ≠ .callback .onFinish) :
    FinishIssued pre a := fun ha => absurd ha h

/-- The history is in order, and `OnFinish` may be called if the event is `FINISH`. -/
def Finishable (e : RpcEvent) (h : List (Act μ)) : Prop :=
  Orderly FinishIssued h ∧ (e = .completion .finish →
    started .finish h ≠ [] ∧ .callback .initializeHandler ∈ h)

theorem Finishable.append {h acts : List (Act μ)} (hf : Finishable e h)
    (ha : ∀ a ∈ acts, a = .callback .onFinish → e = .completion .finish) :
    Finishable e (h ++ acts) := by
  have hmore : ∀ pre : List (Act μ), e = .completion .finish →
      started .finish (h ++ pre) ≠ [] ∧ .callback .initializeHandler ∈ h ++ pre := by
    intro pre he
    obtain ⟨h1, h2⟩ := hf.2 he
    rw [started_append]
    exact ⟨fun h0 => h1 (List.append_eq_nil_iff.mp h0).1, List.mem_append_left _ h2⟩
  refine ⟨orderly_append.mpr ⟨hf.1, fun pre a post hk hcb => ?_⟩, hmore acts⟩
  exact hmore pre (ha a (by rw [hk]; simp) hcb)

theorem finishIssued_handled (ho : Orderly FinishIssued l.cell.history) (ha : Accounted l.cell)
    (hcv : Conversed l.cell) (hl : Invariant l) (hi : l.inbox = e :: rest)
    (hh : Handled sd e ⟨l.cell, []⟩ c') : Orderly FinishIssued c'.history := by
  have hstart : Finishable e l.cell.history := by
    refine ⟨ho, fun he => ?_⟩
    have hpend := (hl.tally.of_mem (t := .finish) (by rw [hi, he]; simp)).1
    have hhan := (hl.connected hi (by simp [he]) (by simp [he])).handler
    refine ⟨fun hnil => ?_, mem_initializeHandler hcv hhan⟩
    have h1 := ha .finish
    rw [hnil, flag_eq_one.mpr hpend, List.length_nil] at h1
    omega
  have hsend : ∀ (cb : Callback μ) (items : List (SendItem μ)),
      (cb = .onFinish → e = .completion .finish) →
        ∀ a ∈ Act.callback cb :: sendActs items, a = .callback .onFinish → e = .completion .finish := by
    rintro cb items hcb a hm rfl
    rcases List.mem_cons.mp hm with h1 | h1
    · exact hcb (Act.callback.inj h1).symm
    · rcases mem_sendActs h1 with ⟨_, h1⟩ | h1 <;> cases h1
  refine (Handled.rule (J := fun c => Finishable e c.history) (fun c c1 hq hj => ?_)
    (fun cb items w c hcb hj => ?_) (fun items w c hj => ?_) (fun c _ _ hj => ?_)
    (fun c item rest' _ _ _ hj => ?_) hh (fun t _ => ?_) (fun _ => hstart) (hl.no_read hi)).1
  · obtain ⟨acts, h1, h2, -⟩ := hq.history
    rw [h1]
    exact hj.append (by rintro a hm rfl; cases h2 _ hm)
  · rw [calledBack_history]
    exact hj.append (hsend cb items (by rintro rfl; exact hcb))
  · rw [initialized_history]
    exact hj.append (hsend _ items (fun h => nomatch h))
  · rw [begins_history]
    exact hj.append (by simp)
  · rw [issues_history]
    refine hj.append (fun a hm => ?_)
    unfold issueActs responseActs at hm
    split_ifs at hm <;> rintro rfl <;> simp at hm
  · rw [pops_history]
    exact hstart.append (by simp)

theorem finishIssued_moved (ho : Orderly FinishIssued l.cell.history) (ha : Accounted l.cell)
    (hcv : Conversed l.cell) (hl : Invariant l) (hm : Moved l b l') :
    Orderly FinishIssued l'.cell.history := by
  have hwriter : ∀ a : Act μ, byWriter a = true → ∀ pre, FinishIssued pre a := by
    intro a ha pre
    refine finishIssued_of_ne ?_
    rintro rfl
    cases ha
  cases hm.kind with
  | delivered => exact orderly_snoc.mpr ⟨ho, finishIssued_of_ne (by simp)⟩
  | handled hi hh => exact finishIssued_handled ho ha hcv hl hi hh
  | locked hw => exact orderly_writerMoved hwriter ho hw
  | stepped hw => exact orderly_writerMoved hwriter ho hw

theorem finishIssued_of_walk {Q : Conn μ → Step μ → Prop} (h : Walks Q l) :
    Orderly FinishIssued l.cell.history := by
  refine (of_walk (I := fun l => Accounted l.cell ∧ (Asked l.cell ∧ Conversed l.cell) ∧
    Orderly FinishIssued l.cell.history) (fun l hf => ?_) (fun l b l' hj hi hm => ?_) h).2.2
  · refine ⟨accounted_of_fresh hf, ⟨asked_of_fresh hf, conversed_of_fresh hf⟩, ?_⟩
    obtain ⟨ty, hh⟩ := fresh_history hf
    rw [hh]
    exact (orderly_nil _).append_of_forall (fun a hm _ => finishIssued_of_ne (by
      rintro rfl; simp at hm))
  · exact ⟨hj.1.moved hi hm, ⟨hj.2.1.1.moved hi hm, hj.2.1.2.moved hj.2.1.1 hi hm⟩,
      finishIssued_moved hj.2.2 hj.1 hj.2.1.2 hi hm⟩

/-! ### The messages passed on -/

/-- The messages of the reads that succeeded and have been handled. -/
def handledMessages (h : List (Act μ)) : List μ :=
  (received h).take ((handledOks .read h).count true)

/-- A read that failed has been handled. -/
def readsFailed (h : List (Act μ)) : Bool := decide (false ∈ handledOks .read h)

theorem observe_conversation {β : Type} {f : Act μ → Option β}
    (hf : ∀ a, conversationAct a = none → f a = none) (h : List (Act μ)) :
    (conversation h).filterMap f = h.filterMap f := by
  unfold conversation
  rw [List.filterMap_filterMap]
  refine List.filterMap_congr (fun a _ => ?_)
  rcases ha : conversationAct a with _ | a'
  · exact (hf a ha).symm
  · have : a' = a := by
      unfold conversationAct at ha
      split at ha <;> simp_all
    rw [this]
    rfl

theorem handledOks_streamed (ms : List (Option μ)) :
    handledOks .read (streamed ms) = List.replicate ms.length true := by
  induction ms with
  | nil => rfl
  | cons m ms ih => exact congrArg (true :: ·) ih

theorem passed_streamed (ms : List (Option μ)) : passed (streamed ms) = ms := by
  induction ms with
  | nil => rfl
  | cons m ms ih => exact congrArg (m :: ·) ih

/-- The arguments of `OnRequest` are the messages of the reads handled. -/
theorem conversation_streaming (h : Conversed l.cell) (hf : Fed (waitingRequest l) l.cell)
    (hh : l.cell.rpc.handler = true)
    (hs : requestStreaming l.cell.rpc.rpcHandlerInfo.rpcType = true) :
    conversation l.cell.history = .callback .initializeHandler ::
      (streamed ((handledMessages l.cell.history).map some) ++
        ended (readsFailed l.cell.history)) := by
  obtain ⟨ms, done, h1, -⟩ := h.streaming hh hs
  have hoks : handledOks .read l.cell.history =
      List.replicate ms.length true ++ if done then [false] else [] := by
    have hread : ∀ a : Act μ, conversationAct a = none → handledAct .read a = none := by
      intro a ha
      cases a with
      | handle t ok => cases t <;> first | rfl | cases ha
      | _ => rfl
    have := observe_conversation hread l.cell.history
    unfold handledOks
    rw [← this, h1, List.filterMap_cons, List.filterMap_append]
    show handledOks .read (streamed ms) ++ _ = _
    rw [handledOks_streamed]
    cases done <;> rfl
  have hpass : passed l.cell.history = ms := by
    have := observe_conversation (f := passedAct)
      (fun a ha => by unfold conversationAct at ha; split at ha <;> simp_all [passedAct])
      l.cell.history
    unfold passed
    rw [← this, h1, List.filterMap_cons, List.filterMap_append]
    show passed (streamed ms) ++ _ = _
    rw [passed_streamed]
    cases done <;> exact List.append_nil _
  have hdone : readsFailed l.cell.history = done := by
    unfold readsFailed
    rw [hoks]
    cases done <;> simp
  have hms : (handledMessages l.cell.history).map some = ms := by
    have hfed := hf hs
    rw [hpass] at hfed
    have hcount : (handledOks .read l.cell.history).count true = ms.length := by
      rw [hoks]
      cases done <;> simp
    unfold handledMessages
    rw [hcount, List.map_take, hfed, List.take_left]
  rw [h1, hms, hdone]

end Conversed

/-- A step of the server sets the handler of an `Rpc` exactly when it handles its `NEW_CONNECTION`
with `ok` while the service is not shutting down. -/
theorem handler_step {s s' : State μ} {a : Action μ} {r : ℕ} {c c' : Cell μ}
    (hs : Reachable (server μ cfg) s) (hstep : (server μ cfg).Step s a s')
    (hc : s.cells[r]? = some c) (hc' : s'.cells[r]? = some c') :
    c'.rpc.handler = true ↔ c.rpc.handler = true ∨
      ∃ q script rest, a = .handle q script ∧
        s.eventQueues q = (r, .completion .newConnection) :: rest ∧
        s.shuttingDown c.rpc.service = false ∧ (c.rpc.events .newConnection).ok = true := by
  have hl := conn_of_cell hc
  obtain ⟨l', hl', hm⟩ := moved_or_eq hs hstep hl
  obtain rfl := cell_of_conn hl' hc'
  -- whoever does not handle an event of this `Rpc` leaves its handler alone
  have hother : (∀ script, actOf s a r ≠ some (.handle (s.shuttingDown c.rpc.service) script)) →
      l'.cell.rpc.handler = c.rpc.handler → (l'.cell.rpc.handler = true ↔ c.rpc.handler = true ∨
        ∃ q script rest, a = .handle q script ∧
          s.eventQueues q = (r, .completion .newConnection) :: rest ∧
          s.shuttingDown c.rpc.service = false ∧ (c.rpc.events .newConnection).ok = true) := by
    intro hne heq
    rw [heq]
    refine (or_iff_left ?_).symm
    rintro ⟨q, script, rest, rfl, hq, -⟩
    exact hne script (actOf_handle hq hc)
  rcases hm with ⟨hnone, rfl⟩ | ⟨b, hb, hm⟩
  · exact hother (by simp [hnone]) rfl
  cases hm.kind with
  | delivered => exact hother (by simp [hb]) rfl
  | locked hw => exact hother (by simp [hb]) hw.handler
  | stepped hw => exact hother (by simp [hb]) hw.handler
  | @handled sd script e rest c' hi hh =>
    obtain ⟨q, e', rest', rfl, hq, rfl⟩ := exists_of_actOf hb hc
    obtain ⟨c0, -, hl0⟩ := conn_head hs hq
    obtain rfl := cell_of_conn hl0 hc
    have hin : e' :: pick r rest' = e :: rest :=
      (congrArg Conn.inbox (Option.some.inj (hl0.symm.trans hl))).trans hi
    obtain ⟨rfl, -⟩ := List.cons.inj hin
    refine (handler_handled hh).trans (or_congr_right ⟨?_, ?_⟩)
    · rintro ⟨rfl, hsd, hok⟩
      exact ⟨q, script, rest', rfl, hq, hsd, hok⟩
    · rintro ⟨q', script', rest'', ha, hq', hsd, hok⟩
      cases ha
      rw [hq] at hq'
      obtain ⟨hhead, -⟩ := List.cons.inj hq'
      exact ⟨(Prod.mk.inj hhead).2, hsd, hok⟩

/-- **The callbacks on a handler follow the protocol.** In every run and for every `Rpc`: without a
handler there was no callback; with one there was exactly one `Initialize`, first, and then, where
requests are not streamed, `OnRequest` with the request that gRPC stored and `OnReadsDone`, and where
they are, `OnRequest` with the messages of the successful reads handled so far, in order and each
when its `READ` was handled, and `OnReadsDone` when the first `READ` was handled that failed. `OnFinish`
is called only after a `Finish` was issued. The handler is created when `NEW_CONNECTION` is handled
with `ok` outside shutdown, and at no other step. -/
theorem callbacks_follow_protocol {s : State μ} {r : ℕ} {c : Cell μ}
    (hs : Reachable (server μ cfg) s) (hc : s.cells[r]? = some c) :
    (c.rpc.handler = false → ∀ cb, .callback cb ∉ c.history) ∧
      (c.rpc.handler = true → requestStreaming c.rpc.rpcHandlerInfo.rpcType = false →
        ∃ m, requested c.history = [m] ∧ conversation c.history =
          [.callback .initializeHandler, .callback (.onRequest (some m)), .callback .onReadsDone]) ∧
      (c.rpc.handler = true → requestStreaming c.rpc.rpcHandlerInfo.rpcType = true →
        conversation c.history = .callback .initializeHandler ::
          (streamed ((handledMessages c.history).map some) ++ ended (readsFailed c.history))) ∧
      Orderly FinishIssued c.history ∧
      ∀ (a : Action μ) (s' : State μ) (c' : Cell μ), (server μ cfg).Step s a s' →
        s'.cells[r]? = some c' →
        (c'.rpc.handler = true ↔ c.rpc.handler = true ∨
          ∃ q script rest, a = .handle q script ∧
            s.eventQueues q = (r, .completion .newConnection) :: rest ∧
            s.shuttingDown c.rpc.service = false ∧ (c.rpc.events .newConnection).ok = true) := by
  have hwalk := walks_of_reachable hs (conn_of_cell hc)
  have hconv : Conversed c := conversed_of_walk hwalk
  have hfin : Orderly FinishIssued c.history := finishIssued_of_walk hwalk
  refine ⟨fun hh cb hm => ?_, hconv.unary, ?_, hfin, fun a s' c' hstep hc' =>
    handler_step hs hstep hc hc'⟩
  · have hnone : ∀ cb', cb' ≠ .onFinish → .callback cb' ∉ c.history := by
      intro cb' hne hm
      have hmem : .callback cb' ∈ conversation c.history :=
        List.mem_filterMap.mpr ⟨_, hm, by cases cb' <;> first | rfl | contradiction⟩
      rw [hconv.silent hh] at hmem
      cases hmem
    by_cases hcb : cb = .onFinish
    · subst hcb
      obtain ⟨pre, post, hsplit⟩ := List.append_of_mem hm
      refine hnone .initializeHandler (by simp) ?_
      rw [hsplit]
      exact List.mem_append_left _ (hfin pre _ post hsplit rfl).2
    · exact hnone cb hcb hm
  · exact conversation_streaming hconv (buffered_of_walk hwalk).fed

/-- A conversation of two requests that is finished and has one more answer to its last. -/
theorem callbacks_follow_protocol_bidi : ∃ (s : State ℕ) (c : Cell ℕ),
    Reachable (server ℕ (.single .bidiStreaming)) s ∧ s.cells[0]? = some c ∧
      conversation c.history = [.callback .initializeHandler,
        .handle .read true, .callback (.onRequest (some 5)),
        .handle .read true, .callback (.onRequest (some 6)),
        .handle .read false, .callback .onReadsDone] ∧
      .callback .onFinish ∈ c.history ∧ Orderly FinishIssued c.history := by
  obtain ⟨s, hr, hp⟩ := exists_run (server ℕ (.single .bidiStreaming))
    [.deliver 0 .newConnection true 0, .handle 0 {}, .deliver 0 .read true 5, .handle 0 {},
      .deliver 0 .read true 6, .handle 0 {}, .deliver 0 .read false 0,
      .handle 0 { onReadsDone := [.finish .OK] }, .handle 0 {}, .deliver 0 .finish true 0,
      .handle 0 {}]
    (fun s => s.cells[0]?.any (fun c : Cell ℕ => decide (c.rpc.handler = true ∧
      requestStreaming c.rpc.rpcHandlerInfo.rpcType = true ∧ handledMessages c.history = [5, 6] ∧
        readsFailed c.history = true ∧ Act.callback .onFinish ∈ c.history))) (by decide)
  simp only [Option.any_eq_true, decide_eq_true_eq] at hp
  obtain ⟨c, hc, hh, ht, hms, hdone, hfin⟩ := hp
  obtain ⟨-, -, h1, h2, -⟩ := callbacks_follow_protocol hr.reachable hc
  refine ⟨s, c, hr.reachable, hc, ?_, hfin, h2⟩
  rw [h1 hh ht, hms, hdone]
  rfl

end AsyncGrpc.Service.Callbacks
