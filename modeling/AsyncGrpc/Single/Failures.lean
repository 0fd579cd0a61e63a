import AsyncGrpc.Single.Lifecycle

/-! # Where a step of one `Rpc` can fail

The switches over the RPC type agree with each other (`Equipped`: the reader or writer that an
operation goes through is the one that was created for the type), so `HandleSendQueue` never fails,
and a callback is made through `handler_` only when it is set. What remains is in `step_fails`: the
`CHECK` of `GetWeakPtr`, when the entry was removed before, and the span that `Writer::Finish` asks
the handler for, when `Initialize` calls it. -/

namespace AsyncGrpc.Single.Failures

open AsyncGrpc.Lib.Runs AsyncGrpc.Model.Types AsyncGrpc.Model.Rpc AsyncGrpc.Model.Service
open AsyncGrpc.Model.Server AsyncGrpc.Single.Machine AsyncGrpc.Single.Moves AsyncGrpc.Single.Project
open AsyncGrpc.Single.Lifecycle

variable {μ : Type} {cfg : Config} {l l' : Conn μ} {b : Step μ} {c c' : Ctx μ} {sd : Bool}
  {e : RpcEvent} {rest : List RpcEvent} {f : Fatal}

/-! ### Readers and writers -/

/-- The readers and writers are those that were created for the type. -/
def Equipped (rpc : Rpc μ) : Prop :=
  rpc.readersAndWriters = initializeReadersAndWriters rpc.rpcHandlerInfo.rpcType

theorem equipped_of_fixed {a b : Rpc μ} (h : fixedPart b = fixedPart a) (ha : Equipped a) :
    Equipped b := by
  have hinfo : b.rpcHandlerInfo = a.rpcHandlerInfo := rpcType_of_fixed h
  have hrw : b.readersAndWriters = a.readersAndWriters := congrArg (·.2.2.2.2.2) h
  unfold Equipped
  rw [hinfo, hrw]
  exact ha

theorem equipped_of_walk {Q : Conn μ → Step μ → Prop} (h : Walks Q l) : Equipped l.cell.rpc := by
  refine Walks.inv (I := fun l => Equipped l.cell.rpc) (fun l hf => ?_)
    (fun _ _ _ hi _ hm => equipped_of_fixed hm.fixed hi) h
  obtain ⟨_, _, _, _, _, rfl⟩ := fresh_eq hf
  rfl

/-- An operation can be started through the object that was created for the type. -/
theorem startVia_ok (h : Equipped c.rpc) {rw : ReaderWriter}
    (hrw : initializeReadersAndWriters c.rpc.rpcHandlerInfo.rpcType rw = true) (op : Op μ) :
    startVia rw op c = .ok (startOp op c) := by
  unfold startVia
  rw [h]
  exact if_pos hrw

theorem asyncReaderInterface_ok (ht : requestStreaming c.rpc.rpcHandlerInfo.rpcType = true) :
    ∃ rw, asyncReaderInterface c = .ok rw ∧
      initializeReadersAndWriters c.rpc.rpcHandlerInfo.rpcType rw = true := by
  unfold asyncReaderInterface
  rcases h : c.rpc.rpcHandlerInfo.rpcType with _ | _ | _ | _ <;> rw [h] at ht <;>
    first | exact ⟨_, rfl, rfl⟩ | cases ht

theorem asyncWriterInterface_ok (ht : responseStreaming c.rpc.rpcHandlerInfo.rpcType = true) :
    ∃ rw, asyncWriterInterface c = .ok rw ∧
      initializeReadersAndWriters c.rpc.rpcHandlerInfo.rpcType rw = true := by
  unfold asyncWriterInterface
  rcases h : c.rpc.rpcHandlerInfo.rpcType with _ | _ | _ | _ <;> rw [h] at ht <;>
    first | exact ⟨_, rfl, rfl⟩ | cases ht

/-! ### Sending -/

theorem exists_ok_bind {α β : Type} {x : Except Fatal α} {g : α → Except Fatal β} {a : α}
    (hx : x = .ok a) (hg : ∃ y, g a = .ok y) : ∃ y, (x >>= g) = .ok y := by
  rw [hx]
  exact hg

theorem sendUnaryFinish_ok (h : Equipped c.rpc) {rw : ReaderWriter}
    (hrw : initializeReadersAndWriters c.rpc.rpcHandlerInfo.rpcType rw = true) (st : Status)
    (m : Option μ) : ∃ c', sendUnaryFinish rw st m c = .ok c' := by
  cases m with
  | none => exact ⟨_, startVia_ok h hrw _⟩
  | some m => exact ⟨_, startVia_ok h hrw _⟩

/-- `PerformFinish` does not fail with a message that may go with the `Finish` of the type. -/
theorem performFinish_ok (h : Equipped c.rpc) {m : Option μ} (st : Status)
    (hm : m.isSome = true → responseStreaming c.rpc.rpcHandlerInfo.rpcType = false) :
    ∃ c', performFinish m st c = .ok c' := by
  unfold performFinish
  refine exists_ok_bind rfl ?_
  dsimp only
  split <;> next ht =>
    replace ht : c.rpc.rpcHandlerInfo.rpcType = _ := ht
    have hrw := congrArg initializeReadersAndWriters ht
    rw [ht] at hm
    first
    | exact sendUnaryFinish_ok (by exact h) (by exact congrFun hrw _) st _
    | rw [if_neg (fun h0 => by cases hm h0)]
      exact ⟨_, startVia_ok (by exact h) (by exact congrFun hrw _) _⟩

/-- `PerformWrite` does not fail with a message of a response stream. -/
theorem performWrite_ok (h : Equipped c.rpc) (m : μ) (st : Status)
    (ht : responseStreaming c.rpc.rpcHandlerInfo.rpcType = true) :
    ∃ c', performWrite (some m) st c = .ok c' := by
  have hne : c.rpc.rpcHandlerInfo.rpcType ≠ .normalRpc ∧
      c.rpc.rpcHandlerInfo.rpcType ≠ .clientStreaming := by
    constructor <;> intro h0 <;> rw [h0] at ht <;> cases ht
  unfold performWrite
  simp only [hne.1, hne.2, if_false]
  refine exists_ok_bind rfl ?_
  obtain ⟨rw, hrw, hcreated⟩ := asyncWriterInterface_ok (c := setResponse (some m)
    { c with rpc := setPending .write true c.rpc }) ht
  exact exists_ok_bind hrw ⟨_, startVia_ok (by exact h) hcreated _⟩

/-- **`HandleSendQueue` does not fail.** -/
theorem handleSendQueue_ok (h : Equipped c.rpc) : ∃ c', handleSendQueue c = .ok c' := by
  unfold handleSendQueue
  split
  · exact ⟨_, rfl⟩
  · next item rest hq =>
    refine exists_ok_bind rfl (exists_ok_bind rfl ?_)
    split
    · exact ⟨_, rfl⟩
    · dsimp only
      split
      · next hfin =>
        refine performFinish_ok (by exact h) _ (fun hm => ?_)
        simp only [Bool.or_eq_true, decide_eq_true_eq, Option.isNone_iff_eq_none] at hfin
        rcases hfin with (h0 | h0) | h0
        · simp [h0] at hm
        · exact (congrArg responseStreaming h0).trans rfl
        · exact (congrArg responseStreaming h0).trans rfl
      · next hfin =>
        simp only [Bool.or_eq_true, decide_eq_true_eq, Option.isNone_iff_eq_none, not_or] at hfin
        obtain ⟨⟨h1, h2⟩, h3⟩ := hfin
        obtain ⟨m, hm⟩ := Option.ne_none_iff_exists'.mp h1
        rw [hm]
        refine performWrite_ok (by exact h) m _ ?_
        show responseStreaming c.rpc.rpcHandlerInfo.rpcType = true
        rcases ht : c.rpc.rpcHandlerInfo.rpcType with _ | _ | _ | _
        · exact absurd ht h2
        · exact absurd ht h3
        · rfl
        · rfl

/-! ### Callbacks -/

/-- The `CHECK` of `GetWeakPtr` fails. -/
def Unlisted (c : Cell μ) (f : Fatal) : Prop := f = .getWeakPtr ∧ c.active = false

theorem getWeakPtr_fails (h : getWeakPtr c = .error f) : Unlisted c.toCell f := by
  unfold getWeakPtr at h
  split_ifs at h with ha
  cases h
  exact ⟨rfl, by simpa using ha⟩

theorem send_fails {item : SendItem μ} (h : send item c = .error f) : Unlisted c.toCell f := by
  rcases bind_eq_error.mp h with h1 | ⟨_, -, h2⟩
  · exact getWeakPtr_fails h1
  · cases h2

theorem callWriter_fails {w : WriterMethod μ} (h : callWriter w c = .error f) :
    Unlisted c.toCell f ∨ f = .traceSpan ∧ c.rpc.handler = false ∧ ∃ st, w = .finish st := by
  unfold callWriter at h
  split at h
  · cases w with
    | write m => exact Or.inl (send_fails h)
    | writesDone => exact Or.inl (send_fails h)
    | finish st =>
      rcases bind_eq_error.mp h with h1 | ⟨c1, h1, h2⟩
      · exact Or.inl (send_fails h1)
      · obtain ⟨rfl, -⟩ := send_eq_ok h1
        split at h2
        · cases h2
        · next hh =>
          cases h2
          exact Or.inr ⟨rfl, Bool.eq_false_iff.mpr hh, st, rfl⟩
  · cases h

theorem handlerCall_fails {k : HandlerCall μ} (h : handlerCall c k = .error f) :
    Unlisted c.toCell f ∨
      f = .traceSpan ∧ c.rpc.handler = false ∧ ∃ st, k = .writer (.finish st) := by
  cases k with
  | send m => exact Or.inl (send_fails h)
  | finish st => exact Or.inl (send_fails h)
  | getWriter =>
    rcases bind_eq_error.mp h with h1 | ⟨_, -, h2⟩
    · exact Or.inl (getWeakPtr_fails h1)
    · cases h2
  | writer w =>
    refine (callWriter_fails h).imp_right ?_
    rintro ⟨h1, h2, st, rfl⟩
    exact ⟨h1, h2, st, rfl⟩

theorem handlerCalls_fails : ∀ {ks : List (HandlerCall μ)} {c : Ctx μ},
    ks.foldlM handlerCall c = .error f → Unlisted c.toCell f ∨
      f = .traceSpan ∧ c.rpc.handler = false ∧ ∃ st, .writer (.finish st) ∈ ks
  | [], _, h => by cases h
  | k :: ks, c, h => by
    rw [List.foldlM_cons] at h
    rcases bind_eq_error.mp h with h1 | ⟨c1, h1, h2⟩
    · refine (handlerCall_fails h1).imp_right ?_
      rintro ⟨h3, h4, st, rfl⟩
      exact ⟨h3, h4, st, List.mem_cons_self⟩
    · obtain ⟨items, w, rfl, -⟩ := handlerCall_eq_ok h1
      refine (handlerCalls_fails h2).imp_right ?_
      rintro ⟨h3, h4, st, hm⟩
      exact ⟨h3, h4, st, List.mem_cons_of_mem _ hm⟩

/-- A callback through `handler_` fails only when the pointer is null or the `Rpc` not listed. -/
theorem callHandler_fails {cb : Callback μ} {ks : List (HandlerCall μ)}
    (h : callHandler cb ks c = .error f) (hh : c.rpc.handler = true) : Unlisted c.toCell f := by
  unfold callHandler at h
  rw [if_pos hh] at h
  refine (handlerCalls_fails h).resolve_right ?_
  rintro ⟨-, hno, -⟩
  cases hh.symm.trans hno

theorem requestStreamingReadIfNeeded_fails {script : Script μ}
    (h : requestStreamingReadIfNeeded script c = .error f) (heq : Equipped c.rpc)
    (hh : c.rpc.handler = true) : Unlisted c.toCell f := by
  have hstream : requestStreaming c.rpc.rpcHandlerInfo.rpcType = true →
      (setRpcEventState .read true c >>= fun c => asyncReaderInterface c >>= fun rw =>
        startVia rw .read c) ≠ .error f := by
    intro ht h
    obtain ⟨rw, hrw, hcreated⟩ :=
      asyncReaderInterface_ok (c := { c with rpc := setPending .read true c.rpc }) ht
    obtain ⟨c1, hc1⟩ : ∃ c1, (setRpcEventState .read true c >>= fun c => asyncReaderInterface c >>=
        fun rw => startVia rw .read c) = .ok c1 :=
      exists_ok_bind rfl (exists_ok_bind hrw ⟨_, startVia_ok (by exact heq) hcreated _⟩)
    cases hc1.symm.trans h
  have hunary : (onRequest script c >>= fun c => onReadsDone script c) = .error f →
      Unlisted c.toCell f := by
    intro h
    rcases bind_eq_error.mp h with h1 | ⟨c1, h1, h2⟩
    · exact callHandler_fails h1 hh
    · obtain ⟨-, items, w, rfl, -⟩ := callHandler_eq_ok h1
      have hlisted := callHandler_fails h2 hh
      exact hlisted
  unfold requestStreamingReadIfNeeded at h
  split at h
  · next ht => exact absurd h (hstream (by rw [ht]; rfl))
  · next ht => exact absurd h (hstream (by rw [ht]; rfl))
  · exact hunary h
  · exact hunary h

/-! ### Events -/

theorem handleNewConnection_fails {ok : Bool} {script : Script μ}
    (h : handleNewConnection sd ok script c = .error f) (heq : Equipped c.rpc) : Unlisted c.toCell f ∨
      f = .traceSpan ∧ ∃ st, .writer (.finish st) ∈ script.initializeHandler := by
  unfold handleNewConnection at h
  cases sd with
  | true => cases h
  | false =>
    cases ok with
    | false => cases h
    | true =>
      rcases bind_eq_error.mp h with h1 | ⟨c1, -, h2⟩
      · rw [if_pos rfl] at h1
        unfold onConnection at h1
        dsimp only at h1
        split at h1
        · next hh =>
          have hlisted := requestStreamingReadIfNeeded_fails h1 heq hh
          exact Or.inl hlisted
        · rcases bind_eq_error.mp h1 with h2 | ⟨c2, h2, h3⟩
          · refine (handlerCalls_fails h2).imp (fun h0 => h0) ?_
            rintro ⟨h3, -, h4⟩
            exact ⟨h3, h4⟩
          · obtain ⟨items, w, rfl, -⟩ := callback_eq_ok h2
            have hlisted := requestStreamingReadIfNeeded_fails h3 heq rfl
            exact Or.inl hlisted
      · cases h2

theorem handleRead_fails {ok : Bool} {script : Script μ} (h : handleRead ok script c = .error f)
    (heq : Equipped c.rpc) (hh : c.rpc.handler = true) : Unlisted c.toCell f := by
  unfold handleRead at h
  split at h
  · rcases bind_eq_error.mp h with h1 | ⟨c1, h1, h2⟩
    · have hlisted := callHandler_fails h1 hh
      exact hlisted
    · obtain ⟨-, items, w, rfl, -⟩ := callHandler_eq_ok h1
      have hlisted := requestStreamingReadIfNeeded_fails h2 heq hh
      exact hlisted
  · rcases bind_eq_error.mp h with h1 | ⟨c1, -, h2⟩
    · have hlisted := callHandler_fails h1 hh
      exact hlisted
    · rw [removeIfNotPending_eq] at h2
      cases h2

theorem handleWrite_ok (heq : Equipped c.rpc) (ok : Bool) : ∃ c', handleWrite ok c = .ok c' := by
  obtain ⟨c1, hc1⟩ := handleSendQueue_ok (c := use .handleSendQueue c) heq
  exact exists_ok_bind hc1 ⟨_, removeIfNotPending_eq c1⟩

/-- **Where the handling of an event can fail**: in a callback, when the entry was removed before, or
in `Initialize`, when it finishes the call through a `Writer`. -/
theorem handle_fails {script : Script μ} (h : handle sd e script c = .error f)
    (heq : Equipped c.rpc)
    (hh : e = .completion .read ∨ e = .completion .finish → c.rpc.handler = true) :
    Unlisted c.toCell f ∧ (∃ t, e = .completion t ∧ (t = .newConnection ∨ t = .read ∨ t = .finish)) ∨
      f = .traceSpan ∧ e = .completion .newConnection ∧
        ∃ st, .writer (.finish st) ∈ script.initializeHandler := by
  cases e with
  | completion t =>
    cases t with
    | newConnection =>
      refine (handleNewConnection_fails h heq).imp (fun h0 => ⟨h0, _, rfl, Or.inl rfl⟩) ?_
      rintro ⟨h1, h2⟩
      exact ⟨h1, rfl, h2⟩
    | read =>
      have hlisted := handleRead_fails (c := pops .read c) (map_eq_error.mp h) heq (hh (Or.inl rfl))
      exact Or.inl ⟨hlisted, _, rfl, Or.inr (Or.inl rfl)⟩
    | write =>
      obtain ⟨c1, hc1⟩ := handleWrite_ok (c := pops .write c) heq (c.rpc.events .write).ok
      cases hc1.symm.trans (map_eq_error.mp h)
    | finish =>
      rcases bind_eq_error.mp (map_eq_error.mp h) with h1 | ⟨c1, -, h2⟩
      · have hlisted := callHandler_fails h1 (hh (Or.inr rfl))
        exact Or.inl ⟨hlisted, _, rfl, Or.inr (Or.inr rfl)⟩
      · rw [removeIfNotPending_eq] at h2
        cases h2
    | done =>
      have h1 := map_eq_error.mp h
      rw [handleDone, removeIfNotPending_eq] at h1
      cases h1
  | writeNeeded =>
    replace h : handleInternal sd script c = .error f := h
    unfold handleInternal at h
    split at h
    · obtain ⟨c1, hc1⟩ := handleWrite_ok (c := wakes c) heq true
      cases hc1.symm.trans (map_eq_error.mp h)
    · cases h

/-- **Where a step can fail**: the `CHECK` of `GetWeakPtr` in a `Writer` call or in `OnFinish`, and the
span in `Initialize`. -/
theorem step_fails (hl : Invariant l) (heq : Equipped l.cell.rpc) (h : l.step b = some (.error f)) :
    (Unlisted l.cell f ∧
      ((∃ i k, b = .stepWriter i ∧ l.cell.calls[i]? = some k ∧ k.pc = .enqueued) ∨
        ∃ sd script, b = .handle sd script ∧ l.inbox.head? = some (.completion .finish))) ∨
    f = .traceSpan ∧ ∃ sd script st, b = .handle sd script ∧
      l.inbox.head? = some (.completion .newConnection) ∧
      .writer (.finish st) ∈ script.initializeHandler := by
  cases b with
  | deliver t ok m =>
    unfold Conn.step at h
    dsimp only at h
    split_ifs at h
    cases h
  | handle sd script =>
    unfold Conn.step at h
    dsimp only at h
    split at h
    · cases h
    · next e rest hi =>
      have hhan : e = .completion .read ∨ e = .completion .finish → l.cell.rpc.handler = true := by
        rintro (rfl | rfl) <;> exact (hl.connected hi (by simp) (by simp)).handler
      rcases handle_fails (map_eq_error.mp (Option.some.inj h)) heq hhan with
        ⟨hlisted, t, rfl, ht⟩ | ⟨hf, rfl, st, hst⟩
      · replace hlisted : Unlisted l.cell f := hlisted
        refine Or.inl ⟨hlisted, Or.inr ⟨sd, script, rfl, ?_⟩⟩
        rcases ht with rfl | rfl | rfl
        · cases hlisted.2.symm.trans (hl.idle hi).2.1
        · have hpend := (hl.tally.of_mem (t := .read) (by rw [hi]; simp)).1
          have hc := hl.connected hi (by simp) (by simp)
          cases (hc.ended hlisted.2).1.symm.trans hpend
        · rw [hi]
          rfl
      · exact Or.inr ⟨hf, sd, script, st, rfl, by rw [hi]; rfl, hst⟩
  | lockWriter w =>
    unfold Conn.step at h
    dsimp only at h
    split_ifs at h
    cases h
  | stepWriter i =>
    unfold Conn.step at h
    dsimp only at h
    split at h
    · next k hk =>
      have hhan := (hl.phase.connected_of_not_idle (not_idle_of_call hk)).handler
      split_ifs at h
      have h1 := map_eq_error.mp (Option.some.inj h)
      unfold stepWriter at h1
      split at h1
      · cases h1
      · next hp =>
        rcases bind_eq_error.mp h1 with h2 | ⟨_, -, h2⟩
        · exact Or.inl ⟨getWeakPtr_fails h2, Or.inl ⟨i, k, rfl, hk, hp⟩⟩
        · cases h2
      · cases h1
      · split at h1
        · rw [if_pos hhan] at h1
          cases h1
        · cases h1
      · cases h1
    · cases h

end AsyncGrpc.Single.Failures
