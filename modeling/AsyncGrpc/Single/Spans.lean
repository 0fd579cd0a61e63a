import AsyncGrpc.Single.EventThread
import AsyncGrpc.Single.Failures

/-! # The span that `Writer::Finish` asks the handler for

`Writer::Finish` goes back through `rpc->handler()`, unlike the other methods of `Writer`. The handler
is there from the moment on at which `Initialize` has returned, and a `Writer` can be had before.

* `initialize_finish_aborts`: a `Finish` inside `Initialize`, or on another thread during it, ends the
  process.
* `writer_finish_after_initialize`: it does not, in whatever order the threads run, when no `Finish` of
  a `Writer` is called while `Initialize` runs. -/

namespace AsyncGrpc.Single.Spans

open AsyncGrpc.Lib.Runs AsyncGrpc.Model.Types AsyncGrpc.Model.Rpc AsyncGrpc.Model.Service
open AsyncGrpc.Single.Machine AsyncGrpc.Single.Moves AsyncGrpc.Single.Failures
open AsyncGrpc.Single.EventThread AsyncGrpc.Single.Project

variable {μ : Type} {c c' : Ctx μ} {s s' : Busy μ} {a : BusyStep μ} {l0 : Conn μ}

/-! ### What a step does -/

/-- The result of a step, by the thread that makes it; `performed`, `called` and `stepped` can fail. -/
inductive Went (s : Busy μ) : BusyStep μ → Except Fatal (Busy μ) → Prop
  | takenUp {sd : Bool} {e : RpcEvent} {rest : List RpcEvent} (hin : s.inside = none) :
      Went s (.takeUp sd) (.ok ⟨(takeUp sd e { s.ctx with outbox := rest }).1,
        (takeUp sd e { s.ctx with outbox := rest }).2, none⟩)
  | left {p : Inside} (hp : s.inside = some p) : Went s .goOn (.ok (leave s.ctx s.todo p))
  | performed {task : Task} {todo : List Task} (hin : s.inside = none) :
      Went s .goOn (perform s.ctx todo task)
  | called {k : HandlerCall μ} {p : Inside} (hp : s.inside = some p) :
      Went s (.call k) ((fun c => { s with ctx := c }) <$> handlerCall s.ctx k)
  | delivered {t : Tag} {ok : Bool} {m : μ} : Went s (.deliver t ok m)
      (.ok { s with ctx := ⟨deliver t ok m s.ctx.toCell, s.ctx.outbox ++ [.completion t]⟩ })
  | locked {w : WriterMethod μ} (hw : s.ctx.writer = true) :
      Went s (.lockWriter w) (.ok { s with ctx := ⟨lockWriter w s.ctx.toCell, s.ctx.outbox⟩ })
  | stepped {i : ℕ} {k : WriterCall μ} (hk : s.ctx.calls[i]? = some k) (hholds : k.holds = true) :
      Went s (.stepWriter i) ((fun c => { s with ctx := c }) <$> stepWriter i k s.ctx)

theorem went_of_step {r : Except Fatal (Busy μ)} (h : s.step a = some r) : Went s a r := by
  cases a with
  | takeUp sd =>
    rw [Busy.step] at h
    split at h
    · next hin => cases h; exact .takenUp hin
    · cases h
  | goOn =>
    rw [Busy.step] at h
    split at h
    · next hp => cases h; exact .left hp
    · next hin _ => cases h; exact .performed hin
    · cases h
  | call k =>
    rw [Busy.step] at h
    split at h
    · next hp => cases h; exact .called hp
    · cases h
  | deliver t ok m =>
    rw [Busy.step] at h
    split at h <;> cases h
    exact .delivered
  | lockWriter w =>
    rw [Busy.step] at h
    split at h <;> cases h
    next hw => exact .locked hw
  | stepWriter i =>
    rw [Busy.step] at h
    split at h
    · next hk =>
      split at h <;> cases h
      next hholds => exact .stepped hk hholds
    · cases h

/-! ### What the event thread leaves alone -/

/-- `handler_`, the `Writer` and its calls are the same, and so is what the constructor set. -/
structure Kept (c c' : Ctx μ) : Prop where
  fixed : fixedPart c'.rpc = fixedPart c.rpc
  handler : c'.rpc.handler = c.rpc.handler
  writer : c'.writer = c.writer
  calls : c'.calls = c.calls

theorem kept_rfl (c : Ctx μ) : Kept c c := ⟨rfl, rfl, rfl, rfl⟩

theorem kept_remove (site : RemoveSite) (c : Ctx μ) : Kept c (remove site c) :=
  ⟨by rw [remove_rpc], by rw [remove_rpc], remove_writer _ _, remove_calls _ _⟩

theorem kept_completionTasks (shuttingDown : Bool) (t : Tag) (ok : Bool) (c : Ctx μ) :
    Kept c (completionTasks shuttingDown t ok c).1 := by
  cases t with
  | newConnection =>
    cases shuttingDown with
    | true => exact kept_remove _ c
    | false =>
      cases ok with
      | true => exact kept_rfl c
      | false => exact kept_remove _ c
  | read => cases ok <;> exact kept_rfl c
  | write => exact kept_rfl c
  | finish => exact kept_rfl c
  | done => exact kept_rfl c

theorem kept_takeUp (shuttingDown : Bool) (e : RpcEvent) (c : Ctx μ) :
    Kept c (takeUp shuttingDown e c).1 := by
  cases e with
  | completion t =>
    have h := kept_completionTasks shuttingDown t (c.rpc.events t).ok (pops t c)
    exact ⟨h.fixed, h.handler, h.writer, h.calls⟩
  | writeNeeded =>
    unfold takeUp
    dsimp only
    split <;> exact ⟨rfl, rfl, rfl, rfl⟩

/-- `StartRead` on the stream. -/
theorem kept_startRead {todo : List Task}
    (h : (setRpcEventState .read true c >>= fun c => asyncReaderInterface c >>= fun rw =>
      startVia rw .read c >>= fun c => pure (⟨c, todo, none⟩ : Busy μ)) = .ok s) :
    Kept c s.ctx ∧ s.inside = none := by
  obtain ⟨c1, h1, h⟩ := bind_eq_ok.mp h
  obtain ⟨rw, -, h⟩ := bind_eq_ok.mp h
  obtain ⟨c2, h2, h⟩ := bind_eq_ok.mp h
  cases h1
  cases startVia_eq_ok h2
  cases h
  exact ⟨⟨rfl, rfl, rfl, rfl⟩, rfl⟩

theorem kept_enter {cb : Callback μ} {todo : List Task} (h : enter cb todo c = .ok s) :
    Kept c s.ctx ∧ c.rpc.handler = true := by
  unfold enter at h
  split at h
  · next hh =>
    cases h
    exact ⟨⟨rfl, rfl, rfl, rfl⟩, hh⟩
  · cases h

/-- The next task keeps them, and enters a callback through `handler_` only when it is set. -/
theorem kept_perform {todo : List Task} {task : Task} (h : perform c todo task = .ok s) :
    Kept c s.ctx ∧ (s.inside = some .throughHandler → c.rpc.handler = true) := by
  cases task with
  | use m =>
    cases h
    exact ⟨⟨rfl, rfl, rfl, rfl⟩, by rintro ⟨⟩⟩
  | onConnection =>
    rw [perform] at h
    split at h <;> cases h <;> exact ⟨⟨rfl, rfl, rfl, rfl⟩, by rintro ⟨⟩⟩
  | requestStreamingReadIfNeeded =>
    rw [perform] at h
    split at h
    · exact (kept_startRead h).imp_right fun h0 h1 => by cases h0.symm.trans h1
    · exact (kept_startRead h).imp_right fun h0 h1 => by cases h0.symm.trans h1
    · cases h
      exact ⟨kept_rfl c, by rintro ⟨⟩⟩
    · cases h
      exact ⟨kept_rfl c, by rintro ⟨⟩⟩
  | onRequest => exact (kept_enter h).imp_right fun hh _ => hh
  | onReadsDone => exact (kept_enter h).imp_right fun hh _ => hh
  | onFinish => exact (kept_enter h).imp_right fun hh _ => hh
  | handleSendQueue =>
    obtain ⟨c1, h1, h⟩ := bind_eq_ok.mp h
    cases h
    have hq := sentQueue_of_ok h1
    obtain ⟨-, hh, -, hw, hc, -⟩ := hq.frame
    exact ⟨⟨hq.fixed, hh, hw, hc⟩, by rintro ⟨⟩⟩
  | removeIfNotPending =>
    obtain ⟨c1, h1, h⟩ := bind_eq_ok.mp h
    cases h
    rw [removeIfNotPending_eq] at h1
    cases h1
    exact ⟨⟨by rw [tidies_rpc], by rw [tidies_rpc], tidies_writer c, tidies_calls c⟩, by rintro ⟨⟩⟩

/-- The next task does not fail except for a null `handler_`. -/
theorem perform_fails (heq : Equipped c.rpc) {todo : List Task} {task : Task} {f : Fatal}
    (h : perform c todo task = .error f) : f = .nullHandler := by
  have henter {cb : Callback μ} (h : enter cb todo c = .error f) : f = .nullHandler := by
    unfold enter at h
    split at h <;> cases h
    rfl
  have hstart (ht : requestStreaming c.rpc.rpcHandlerInfo.rpcType = true) :
      (setRpcEventState .read true c >>= fun c => asyncReaderInterface c >>= fun rw =>
        startVia rw .read c >>= fun c => pure (⟨c, todo, none⟩ : Busy μ)) ≠ .error f := by
    obtain ⟨rw, hrw, hcreated⟩ :=
      asyncReaderInterface_ok (c := { c with rpc := setPending .read true c.rpc }) ht
    obtain ⟨s, hs⟩ : ∃ s, (setRpcEventState .read true c >>= fun c => asyncReaderInterface c >>=
        fun rw => startVia rw .read c >>= fun c => pure (⟨c, todo, none⟩ : Busy μ)) = .ok s :=
      exists_ok_bind rfl (exists_ok_bind hrw
        (exists_ok_bind (startVia_ok (by exact heq) hcreated .read) ⟨_, rfl⟩))
    intro h
    cases hs.symm.trans h
  cases task with
  | use m => cases h
  | onConnection =>
    rw [perform] at h
    split at h <;> cases h
  | requestStreamingReadIfNeeded =>
    rw [perform] at h
    split at h
    · next ht => exact absurd h (hstart (by rw [ht]; rfl))
    · next ht => exact absurd h (hstart (by rw [ht]; rfl))
    · cases h
    · cases h
  | onRequest => exact henter h
  | onReadsDone => exact henter h
  | onFinish => exact henter h
  | handleSendQueue =>
    obtain ⟨c1, h1⟩ := handleSendQueue_ok heq
    rw [perform, h1] at h
    cases h
  | removeIfNotPending =>
    rw [perform, removeIfNotPending_eq] at h
    cases h

/-! ### What the calls of `Writer`s do -/

/-- A step of a `Writer` call moves this call only. -/
theorem stepWriter_frame {i : ℕ} {k : WriterCall μ} (hk : c.calls[i]? = some k)
    (h : stepWriter i k c = .ok c') :
    fixedPart c'.rpc = fixedPart c.rpc ∧ c'.rpc.handler = c.rpc.handler ∧ c'.writer = c.writer ∧
      ∃ pc, c'.calls = c.calls.set i { k with pc := pc } := by
  unfold stepWriter at h
  split at h
  · cases h
    exact ⟨rfl, rfl, rfl, _, rfl⟩
  · obtain ⟨_, -, h⟩ := bind_eq_ok.mp h
    cases h
    exact ⟨rfl, rfl, rfl, _, rfl⟩
  · cases h
    exact ⟨rfl, rfl, rfl, _, rfl⟩
  · split at h
    · split at h <;> cases h
      exact ⟨rfl, rfl, rfl, _, rfl⟩
    · cases h
      exact ⟨rfl, rfl, rfl, _, rfl⟩
  · cases h
    obtain ⟨hi, rfl⟩ := List.getElem?_eq_some_iff.mp hk
    exact ⟨rfl, rfl, rfl, _, (List.set_getElem_self hi).symm⟩

/-- The span is missing only in a `Finish` without a handler. -/
theorem stepWriter_traceSpan {i : ℕ} {k : WriterCall μ} (h : stepWriter i k c = .error .traceSpan) :
    c.rpc.handler = false ∧ ∃ st, k.method = .finish st := by
  unfold stepWriter at h
  split at h
  · cases h
  · rcases bind_eq_error.mp h with h1 | ⟨_, -, h2⟩
    · cases (getWeakPtr_fails h1).1
    · cases h2
  · cases h
  · split at h
    · next st hm =>
      split at h <;> cases h
      next hh => exact ⟨Bool.eq_false_iff.mpr hh, st, hm⟩
    · cases h
  · cases h

/-! ### The invariant -/

/-- The step calls `Finish` of a `Writer`, in a callback or on another thread. -/
def callsFinish : BusyStep μ → Bool
  | .call (.writer (.finish _)) => true
  | .lockWriter (.finish _) => true
  | _ => false

/-- `Finish` of a `Writer` is not called while `Initialize` runs. -/
def FinishAfterInitialize (s : Busy μ) (a : BusyStep μ) : Prop :=
  callsFinish a = true → s.inside ≠ some .initializeHandler

instance (s : Busy μ) (a : BusyStep μ) : Decidable (FinishAfterInitialize s a) :=
  inferInstanceAs (Decidable (_ → _))

/-- Without a handler, a `Writer` exists only while `Initialize` runs, and no `Finish` is on its way. -/
structure Spanned (s : Busy μ) : Prop where
  equipped : Equipped s.ctx.rpc
  writer : s.ctx.writer = true → s.ctx.rpc.handler = true ∨ s.inside = some .initializeHandler
  inside : s.inside = some .throughHandler → s.ctx.rpc.handler = true
  finish : ∀ k ∈ s.ctx.calls, k.holds = true → ∀ st, k.method = .finish st → s.ctx.rpc.handler = true

theorem Spanned.handler_of_call (h : Spanned s) {st : Status}
    (ha : FinishAfterInitialize s (.call (.writer (.finish st)))) {p : Inside}
    (hp : s.inside = some p) : s.ctx.rpc.handler = true := by
  cases p with
  | initializeHandler => exact absurd hp (ha rfl)
  | throughHandler => exact h.inside hp

theorem Spanned.handler_of_lock (h : Spanned s) {st : Status}
    (ha : FinishAfterInitialize s (.lockWriter (.finish st))) (hw : s.ctx.writer = true) :
    s.ctx.rpc.handler = true :=
  (h.writer hw).resolve_right (ha rfl)

/-- The event thread goes on outside of a callback. -/
theorem Spanned.of_kept {s' : Busy μ} (h : Spanned s) (hin : s.inside = none) (hk : Kept s.ctx s'.ctx)
    (hthrough : s'.inside = some .throughHandler → s.ctx.rpc.handler = true) : Spanned s' where
  equipped := equipped_of_fixed hk.fixed h.equipped
  writer hw := by
    rw [hk.writer] at hw
    rcases h.writer hw with hh | hi
    · exact Or.inl (hk.handler.trans hh)
    · cases hin.symm.trans hi
  inside hi := hk.handler.trans (hthrough hi)
  finish k hm hholds st hst := by
    rw [hk.calls] at hm
    exact hk.handler.trans (h.finish k hm hholds st hst)

theorem Spanned.leave (h : Spanned s) {p : Inside} (hp : s.inside = some p) :
    Spanned (leave s.ctx s.todo p) := by
  have hset : (EventThread.leave s.ctx s.todo p).ctx.rpc.handler = true := by
    cases p with
    | initializeHandler => rfl
    | throughHandler => exact h.inside hp
  refine ⟨?_, fun _ => Or.inl hset, fun _ => hset, fun _ _ _ _ _ => hset⟩
  cases p with
  | initializeHandler => exact h.equipped
  | throughHandler => exact h.equipped

/-- A step keeps the invariant. -/
theorem Spanned.step (h : Spanned s) (ha : FinishAfterInitialize s a) {r : Except Fatal (Busy μ)}
    (hw : Went s a r) (hr : r = .ok s') : Spanned s' := by
  cases hw with
  | @takenUp sd e rest hin =>
    cases hr
    have hk := kept_takeUp sd e { s.ctx with outbox := rest }
    exact h.of_kept hin ⟨hk.fixed, hk.handler, hk.writer, hk.calls⟩ (by rintro ⟨⟩)
  | left hp =>
    cases hr
    exact h.leave hp
  | performed hin =>
    obtain ⟨hk, hthrough⟩ := kept_perform hr
    exact h.of_kept hin hk hthrough
  | @called k p hp =>
    obtain ⟨c1, hc, rfl⟩ := map_eq_ok.mp hr
    obtain ⟨items, w, rfl, -⟩ := handlerCall_eq_ok hc
    refine ⟨h.equipped, fun _ => ?_, h.inside, h.finish⟩
    cases p with
    | initializeHandler => exact Or.inr hp
    | throughHandler => exact Or.inl (h.inside hp)
  | delivered =>
    cases hr
    exact ⟨h.equipped, h.writer, h.inside, h.finish⟩
  | @locked w hwriter =>
    cases hr
    refine ⟨h.equipped, h.writer, h.inside, fun k hm hholds st hst => ?_⟩
    rcases List.mem_append.mp hm with hm | hm
    · exact h.finish k hm hholds st hst
    · obtain rfl := List.mem_singleton.mp hm
      obtain rfl : w = .finish st := hst
      exact h.handler_of_lock ha hwriter
  | @stepped i k hk hholds =>
    obtain ⟨c1, hc, rfl⟩ := map_eq_ok.mp hr
    obtain ⟨hfixed, hh, hwriter, pc, hcalls⟩ := stepWriter_frame hk hc
    refine ⟨equipped_of_fixed hfixed h.equipped, ?_, ?_, fun k' hm hholds' st hst => ?_⟩
    · exact fun h0 => (h.writer (hwriter.symm.trans h0)).imp_left hh.trans
    · exact fun h0 => hh.trans (h.inside h0)
    · refine hh.trans ?_
      replace hm : k' ∈ c1.calls := hm
      rw [hcalls] at hm
      rcases List.mem_or_eq_of_mem_set hm with hm | rfl
      · exact h.finish k' hm hholds' st hst
      · exact h.finish k (List.mem_of_getElem? hk) hholds st hst

theorem spanned_of_fresh (hf : Fresh l0) : Spanned (idle l0) := by
  obtain ⟨_, _, _, _, _, rfl⟩ := fresh_eq hf
  exact ⟨rfl, by rintro ⟨⟩, by rintro ⟨⟩, by rintro _ ⟨⟩⟩

theorem spanned_of_run (hf : Fresh l0) {as : List (BusyStep μ)} (hr : Run (interleaved l0) as s)
    (hc : Along (interleaved l0) FinishAfterInitialize as) : Spanned s :=
  inv_of_run (spanned_of_fresh hf) (fun _ _ _ h ha hs => h.step ha (went_of_step hs) rfl) hr hc

/-- The invariant rules the failure out. -/
theorem Spanned.ne_traceSpan (h : Spanned s) (ha : FinishAfterInitialize s a)
    {r : Except Fatal (Busy μ)} (hw : Went s a r) : r ≠ .error .traceSpan := by
  intro hr
  cases hw with
  | takenUp => cases hr
  | left => cases hr
  | performed => cases perform_fails h.equipped hr
  | called hp =>
    rcases handlerCall_fails (map_eq_error.mp hr) with hu | ⟨-, hno, st, rfl⟩
    · cases hu.1
    · cases (h.handler_of_call ha hp).symm.trans hno
  | delivered => cases hr
  | locked => cases hr
  | stepped hk hholds =>
    obtain ⟨hno, st, hst⟩ := stepWriter_traceSpan (map_eq_error.mp hr)
    cases (h.finish _ (List.mem_of_getElem? hk) hholds st hst).symm.trans hno

/-! ### `Writer::Finish` -/

/-- **`Writer::Finish` finds a handler to ask for its span**, in whatever order the threads run, when it
is not called while `Initialize` runs. -/
theorem writer_finish_after_initialize (hf : Fresh l0) {as : List (BusyStep μ)}
    (hr : Run (interleaved l0) as s) (hc : Along (interleaved l0) FinishAfterInitialize as)
    (ha : FinishAfterInitialize s a) : ¬ (interleaved l0).Aborts s a .traceSpan :=
  fun hs => (spanned_of_run hf hr hc).ne_traceSpan ha (went_of_step hs) rfl

/-- A listener for a method without streams. -/
def listener : Conn ℕ := ofCtx [] (listening (newRpc 0 0 0 ⟨⟨"Handler"⟩, .normalRpc, "/s/m"⟩ 0))

theorem fresh_listener : Fresh listener := ⟨0, 0, 0, ⟨⟨"Handler"⟩, .normalRpc, "/s/m"⟩, 0, _, rfl, rfl⟩

/-- A client connects, and the handler asks for a `Writer` in `Initialize`. -/
def writerInInitialize : List (BusyStep ℕ) :=
  [.deliver .newConnection true 0, .takeUp false, .goOn, .goOn, .call .getWriter]

/-- Another thread is in `Finish` of the `Writer`, and has nothing left to do but ask for the span. -/
def finishOnOtherThread : List (BusyStep ℕ) :=
  [.lockWriter (.finish .OK), .stepWriter 0, .stepWriter 0, .stepWriter 0]

/-- `Initialize` returns before the other thread calls `Finish`. -/
theorem writer_finish_after_initialize_returned :
    ∃ s, Run (interleaved listener) (writerInInitialize ++ .goOn :: finishOnOtherThread) s ∧
      ¬ (interleaved listener).Aborts s (.stepWriter 0) .traceSpan := by
  obtain ⟨s, hr, -⟩ := exists_run (interleaved listener)
    (writerInInitialize ++ .goOn :: finishOnOtherThread) (fun _ => true) (by decide)
  have hc : Along (interleaved listener) FinishAfterInitialize
      (writerInInitialize ++ .goOn :: finishOnOtherThread) :=
    along_of_check (p := fun s a => decide (FinishAfterInitialize s a))
      (fun _ _ h => of_decide_eq_true h) (by decide)
  exact ⟨s, hr, writer_finish_after_initialize fresh_listener hr hc (by rintro ⟨⟩)⟩

/-- `Finish` of a `Writer` inside of `Initialize` goes through the null `handler_`, and so does one that
another thread calls before `Initialize` returns. -/
theorem initialize_finish_aborts :
    Fresh listener ∧
      (∃ s, Run (interleaved listener) writerInInitialize s ∧
        (interleaved listener).Aborts s (.call (.writer (.finish .OK))) .traceSpan) ∧
      ∃ s, Run (interleaved listener) (writerInInitialize ++ finishOnOtherThread) s ∧
        (interleaved listener).Aborts s (.stepWriter 0) .traceSpan :=
  ⟨fresh_listener, exists_abort _ _ _ _ (by decide), exists_abort _ _ _ _ (by decide)⟩

end AsyncGrpc.Single.Spans
