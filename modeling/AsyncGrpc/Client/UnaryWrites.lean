import AsyncGrpc.Client.Retries
import AsyncGrpc.Model.BlockingClient

/-! # The `Write`s of a `Client<NORMAL_RPC>`

* `stepped_of_step`: the ways a client makes a step.
* `unary_writes`: every `BlockingUnaryCall` has a context of its own, the attempts of a `Write` have
  one deadline, and what `Write` returns and stores is the outcome of its last attempt.
* `ofChannel_writes`: without a timeout and a strategy a `Write` is one call.
* `late_failures_end_write_iff`: whether an attempt that fails at or after the deadline is the last one
  depends on the retry strategy alone, which does not see the deadline. -/

namespace AsyncGrpc.Client.UnaryWrites

open AsyncGrpc.Lib.Runs AsyncGrpc.Model.Types AsyncGrpc.Model.Retry
open AsyncGrpc.Model.BlockingClient AsyncGrpc.Client.Retries

variable {κ ρ : Type} {settings : Settings} {c c' : UnaryClient κ ρ} {a : UnaryAction κ ρ}

/-! ### One step of a client -/

/-- The ways a client makes a step. -/
inductive Stepped (settings : Settings) (c : UnaryClient κ ρ) :
    UnaryAction κ ρ → UnaryClient κ ρ → Prop
  | began {request : κ} {wantsStatus : Bool} {now : Time} (hw : c.write = none) :
      Stepped settings c (.write request wantsStatus now)
        (c.beginWrite settings request wantsStatus now)
  | called {w : Writing κ} {status : Status} {response : ρ} {now : Time} {retry : RetryLoop}
      (hw : c.write = some w)
      (hr : Iterated settings.retryStrategy true w.retry (.op status) retry) :
      Stepped settings c (.call status response now) (c.writeImpl w status response now retry)
  | slept {w : Writing κ} {retry : RetryLoop} (hw : c.write = some w)
      (hr : Iterated settings.retryStrategy true w.retry .sleep retry) :
      Stepped settings c .sleep
        { c.resetContext w.deadline with write := some { w with retry := retry } }
  | ended {w : Writing κ} {result : Bool} (hw : c.write = some w)
      (hpc : w.retry.pc = .returned result) :
      Stepped settings c .endWrite (c.endWrite w result)

theorem iterated_of_map {x : Option (Except RetryFatal RetryLoop)}
    {f : RetryLoop → UnaryClient κ ρ} (h : x.map (fun r => f <$> r) = some (.ok c')) :
    ∃ retry, x = some (.ok retry) ∧ f retry = c' := by
  obtain ⟨r, hr, h⟩ := Option.map_eq_some_iff.mp h
  obtain ⟨retry, hretry, h⟩ := map_eq_ok.mp h
  exact ⟨retry, by rw [hr, hretry], h⟩

theorem stepped_of_step (h : c.step settings a = some (.ok c')) : Stepped settings c a c' := by
  cases a with
  | write request wantsStatus now =>
    simp only [UnaryClient.step, Option.ite_none_right_eq_some, Bool.and_eq_true,
      Option.isNone_iff_eq_none] at h
    obtain ⟨⟨hw, -⟩, h⟩ := h
    obtain rfl := Except.ok.inj (Option.some.inj h)
    exact .began hw
  | call status response now =>
    cases hw : c.write with
    | none => simp [UnaryClient.step, hw] at h
    | some w =>
      simp only [UnaryClient.step, hw, Option.ite_none_right_eq_some] at h
      obtain ⟨retry, hr, rfl⟩ := iterated_of_map h.2
      exact .called hw (iterated_of_step hr)
  | sleep =>
    cases hw : c.write with
    | none => simp [UnaryClient.step, hw] at h
    | some w =>
      simp only [UnaryClient.step, hw] at h
      obtain ⟨retry, hr, rfl⟩ := iterated_of_map h
      exact .slept hw (iterated_of_step hr)
  | endWrite =>
    cases hw : c.write with
    | none => simp [UnaryClient.step, hw] at h
    | some w =>
      cases hpc : w.retry.pc with
      | returned result =>
        simp only [UnaryClient.step, hw, hpc, Option.some.injEq, Except.ok.injEq] at h
        subst h
        exact .ended hw hpc
      | op => simp [UnaryClient.step, hw, hpc] at h
      | sleep delay => simp [UnaryClient.step, hw, hpc] at h

/-! ### Contexts -/

/-- All calls of a client, oldest first. -/
def calls (c : UnaryClient κ ρ) : List (UnaryCall κ) :=
  c.past.flatMap (·.calls) ++ c.write.elim [] (·.calls)

/-- The contexts of the calls are pairwise different, none is newer than `client_context_`, and before
an attempt `client_context_` was not used. -/
structure Contexts (c : UnaryClient κ ρ) : Prop where
  made : c.clientContext.id < c.contexts
  nodup : ((calls c).map (·.context.id)).Nodup
  used : ∀ k ∈ calls c, k.context.id ≤ c.clientContext.id
  fresh : ∀ w, c.write = some w → w.retry.pc = .op → ∀ k ∈ calls c, k.context.id < c.clientContext.id

theorem calls_writeImpl {w : Writing κ} {status : Status} {response : ρ} {now : Time}
    {retry : RetryLoop} (hw : c.write = some w) :
    calls (c.writeImpl w status response now retry) =
      calls c ++ [⟨c.clientContext, w.request, status, now⟩] := by
  simp [calls, UnaryClient.writeImpl, hw]

theorem calls_beginWrite {request : κ} {wantsStatus : Bool} {now : Time} (hw : c.write = none) :
    calls (c.beginWrite settings request wantsStatus now) = calls c := by
  simp [calls, UnaryClient.beginWrite, UnaryClient.resetContext, hw]

theorem calls_endWrite {w : Writing κ} {result : Bool} (hw : c.write = some w) :
    calls (c.endWrite w result) = calls c := by
  simp [calls, UnaryClient.endWrite, hw]

/-- `ResetContext` gives a context that no call has used. -/
theorem Contexts.reset (h : Contexts c) (hcalls : calls c' = calls c)
    (hid : c'.clientContext.id = c.contexts) (hmade : c'.contexts = c.contexts + 1) :
    Contexts c' := by
  have hlt : ∀ k ∈ calls c', k.context.id < c'.clientContext.id := by
    intro k hk
    rw [hcalls] at hk
    rw [hid]
    exact Nat.lt_of_le_of_lt (h.used k hk) h.made
  exact ⟨by omega, hcalls ▸ h.nodup, fun k hk => (hlt k hk).le, fun _ _ _ => hlt⟩

theorem Contexts.step (h : Contexts c) (hs : Stepped settings c a c') : Contexts c' := by
  cases hs with
  | began hw => exact h.reset (calls_beginWrite hw) rfl rfl
  | @called w status response now retry hw hr =>
    have hlt := h.fresh w hw hr.op_pc
    refine ⟨h.made, ?_, ?_, ?_⟩
    · rw [calls_writeImpl hw, List.map_append, List.nodup_append]
      refine ⟨h.nodup, by simp, fun i hi j hj => ?_⟩
      obtain ⟨k, hk, rfl⟩ := List.mem_map.mp hi
      obtain rfl : j = c.clientContext.id := by simpa using hj
      exact (hlt k hk).ne
    · intro k hk
      rw [calls_writeImpl hw] at hk
      rcases List.mem_append.mp hk with hk | hk
      · exact h.used k hk
      · obtain rfl := List.mem_singleton.mp hk
        exact Nat.le_refl _
    · intro w' hw' hpc
      obtain rfl := Option.some.inj hw'
      exact absurd hpc hr.pc_of_op.1
  | slept hw hr =>
    exact h.reset (by simp [calls, UnaryClient.resetContext, hw]) rfl rfl
  | @ended w result hw hpc =>
    have hcalls : calls (c.endWrite w result) = calls c := calls_endWrite hw
    exact ⟨h.made, hcalls ▸ h.nodup, fun k hk => h.used k (hcalls ▸ hk), by rintro _ ⟨⟩⟩

/-! ### Deadlines and outcomes -/

/-- The time at which a `Write` has to be done that began at `start`. -/
def deadlineOf (settings : Settings) (start : Time) : Option Time := settings.timeout.map (start + ·)

/-- A `Write` under way: its calls have its deadline, as the context of the next call, and once an
attempt was made its status is in `internal_status`. -/
structure Underway (settings : Settings) (c : UnaryClient κ ρ) (w : Writing κ) : Prop where
  deadline : w.deadline = deadlineOf settings w.start
  calls : ∀ k ∈ w.calls, k.context.deadline = w.deadline
  context : w.retry.pc = .op → c.clientContext.deadline = w.deadline
  last : w.retry.pc ≠ .op → ∃ k, w.calls.getLast? = some k ∧ k.status = w.internalStatus
  returned : ∀ b, w.retry.pc = .returned b → b = isOk w.internalStatus

/-- A `Write` that has returned: its calls have its deadline, the last one decides, and its status is
stored if it was asked for. -/
structure Outcome (settings : Settings) (w : Written κ) : Prop where
  calls : ∀ k ∈ w.calls, k.context.deadline = deadlineOf settings w.start
  last : ∃ k, w.calls.getLast? = some k ∧ w.result = isOk k.status ∧
    w.status = if w.wantsStatus then some k.status else none

theorem underway_begin (request : κ) (wantsStatus : Bool) (now : Time) :
    Underway settings (c.beginWrite settings request wantsStatus now)
      ⟨request, wantsStatus, now, .OK, deadlineOf settings now, .begin, []⟩ where
  deadline := rfl
  calls := by simp
  context := fun _ => rfl
  last := fun hpc => absurd rfl hpc
  returned := by rintro _ ⟨⟩

theorem Underway.call {w : Writing κ} {status : Status} {response : ρ} {now : Time}
    {retry : RetryLoop} (h : Underway settings c w)
    (hr : Iterated settings.retryStrategy true w.retry (.op status) retry) :
    Underway settings (c.writeImpl w status response now retry)
      { w with
        internalStatus := status
        retry := retry
        calls := w.calls ++ [⟨c.clientContext, w.request, status, now⟩] } where
  deadline := h.deadline
  calls := by
    intro k hk
    rcases List.mem_append.mp hk with hk | hk
    · exact h.calls k hk
    · obtain rfl := List.mem_singleton.mp hk
      exact h.context hr.op_pc
  context := fun hpc => absurd hpc hr.pc_of_op.1
  last := fun _ => ⟨_, List.getLast?_concat, rfl⟩
  returned := hr.pc_of_op.2

theorem Underway.sleep {w : Writing κ} {retry : RetryLoop} (h : Underway settings c w)
    (hr : Iterated settings.retryStrategy true w.retry .sleep retry) :
    Underway settings { c.resetContext w.deadline with write := some { w with retry := retry } }
      { w with retry := retry } where
  deadline := h.deadline
  calls := h.calls
  context := fun _ => rfl
  last := fun hpc => absurd hr.pc_of_sleep hpc
  returned := by simp [hr.pc_of_sleep]

theorem Underway.outcome {w : Writing κ} {result : Bool} (h : Underway settings c w)
    (hpc : w.retry.pc = .returned result) :
    Outcome settings ⟨w.wantsStatus, w.start, w.calls, result,
      if w.wantsStatus then some w.internalStatus else none⟩ where
  calls := fun k hk => (h.calls k hk).trans h.deadline
  last := by
    obtain ⟨k, hk, hst⟩ := h.last (by simp [hpc])
    exact ⟨k, hk, hst ▸ h.returned result hpc, by rw [hst]⟩

/-- What holds of the `Write`s of a client. -/
structure Writes (settings : Settings) (c : UnaryClient κ ρ) : Prop where
  underway : ∀ w, c.write = some w → Underway settings c w
  outcome : ∀ w ∈ c.past, Outcome settings w

theorem Writes.step (h : Writes settings c) (hs : Stepped settings c a c') : Writes settings c' := by
  cases hs with
  | @began request wantsStatus now hw =>
    refine ⟨fun w' hw' => ?_, h.outcome⟩
    obtain rfl := Option.some.inj hw'
    exact underway_begin request wantsStatus now
  | called hw hr =>
    refine ⟨fun w' hw' => ?_, h.outcome⟩
    obtain rfl := Option.some.inj hw'
    exact (h.underway _ hw).call hr
  | slept hw hr =>
    refine ⟨fun w' hw' => ?_, h.outcome⟩
    obtain rfl := Option.some.inj hw'
    exact (h.underway _ hw).sleep hr
  | ended hw hpc =>
    refine ⟨by rintro _ ⟨⟩, fun w' hmem => ?_⟩
    rcases List.mem_append.mp hmem with hmem | hmem
    · exact h.outcome w' hmem
    · obtain rfl := List.mem_singleton.mp hmem
      exact (h.underway _ hw).outcome hpc

/-! ### What the run asks for -/

/-- A call of `Write`: whether it gets a pointer for the status, and when it begins. -/
def asked : UnaryAction κ ρ → Option (Bool × Time)
  | .write _ wantsStatus now => some (wantsStatus, now)
  | _ => none

/-- What a `BlockingUnaryCall` returns, and when. -/
def answered : UnaryAction κ ρ → Option (Status × Time)
  | .call status _ now => some (status, now)
  | _ => none

/-- The `Write`s that have returned and the one under way. -/
def begun (c : UnaryClient κ ρ) : List (Bool × Time) :=
  c.past.map (fun w => (w.wantsStatus, w.start)) ++
    c.write.toList.map fun w => (w.wantsStatus, w.start)

section Machine

variable [Inhabited ρ]

theorem writes_of_reachable (h : Reachable (unary κ ρ settings) c) : Writes settings c := by
  have h0 : Writes settings (UnaryClient.construct : UnaryClient κ ρ) :=
    ⟨by rintro _ ⟨⟩, by simp [UnaryClient.construct]⟩
  exact inv_of_reachable h0 (fun _ _ _ hi hs => hi.step (stepped_of_step hs)) h

end Machine

/-- A `Write` without a strategy has made no call, or one that ended its loop. -/
structure Unretried (c : UnaryClient κ ρ) : Prop where
  underway : ∀ w, c.write = some w → w.retry.pc = .op ∧ w.calls = [] ∨
    (∃ b, w.retry.pc = .returned b) ∧ w.calls.length = 1
  past : ∀ w ∈ c.past, w.calls.length = 1

theorem Unretried.step (h : Unretried c) (hn : settings.retryStrategy = none)
    (hs : Stepped settings c a c') : Unretried c' := by
  cases hs with
  | began hw =>
    refine ⟨fun w' hw' => ?_, h.past⟩
    obtain rfl := Option.some.inj hw'
    exact .inl ⟨rfl, rfl⟩
  | @called w status response now retry hw hr =>
    have hnil : w.calls = [] := by
      rcases h.underway w hw with ⟨-, hnil⟩ | ⟨⟨b, hb⟩, -⟩
      · exact hnil
      · cases hb.symm.trans hr.op_pc
    have hreturned : ∃ b, retry.pc = .returned b := by
      rw [hn] at hr
      cases hr with
      | succeeded => exact ⟨true, rfl⟩
      | unretried => exact ⟨false, rfl⟩
      | refused _ _ hf => cases hf
      | retried _ _ hf => cases hf
    refine ⟨fun w' hw' => ?_, h.past⟩
    obtain rfl := Option.some.inj hw'
    exact .inr ⟨hreturned, by simp [hnil]⟩
  | slept hw hr =>
    obtain ⟨delay, hpc⟩ := hr.sleep_pc
    rcases h.underway _ hw with ⟨hop, -⟩ | ⟨⟨b, hb⟩, -⟩
    · cases hop.symm.trans hpc
    · cases hb.symm.trans hpc
  | @ended w result hw hpc =>
    refine ⟨by rintro _ ⟨⟩, fun w' hmem => ?_⟩
    rcases List.mem_append.mp hmem with hmem | hmem
    · exact h.past w' hmem
    · obtain rfl := List.mem_singleton.mp hmem
      rcases h.underway w hw with ⟨hop, -⟩ | ⟨-, hone⟩
      · cases hop.symm.trans hpc
      · exact hone

/-- A client that was constructed from a channel alone makes one call for each `Write`, without a
deadline, and returns whether it was successful. -/
theorem ofChannel_writes [Inhabited ρ] (h : Reachable (unary κ ρ .ofChannel) c) :
    ∀ w ∈ c.past, ∃ k, w.calls = [k] ∧ k.context.deadline = none ∧ w.result = isOk k.status := by
  intro w hw
  have h0 : Unretried (UnaryClient.construct : UnaryClient κ ρ) :=
    ⟨by rintro _ ⟨⟩, by simp [UnaryClient.construct]⟩
  have hinv : Unretried c :=
    inv_of_reachable h0 (fun _ _ _ hi hs => hi.step rfl (stepped_of_step hs)) h
  obtain ⟨k, hk⟩ := List.length_eq_one_iff.mp (hinv.past w hw)
  have ho := (writes_of_reachable h).outcome w hw
  obtain ⟨k', hlast, hresult, -⟩ := ho.last
  rw [hk] at hlast
  obtain rfl : k = k' := by simpa using hlast
  exact ⟨k, hk, ho.calls k (by simp [hk]), hresult⟩

/-! ### Attempts that fail at or after the deadline -/

/-- The time `now` is at or after the deadline. -/
def Expired (deadline : Option Time) (now : Time) : Prop := ∃ d, deadline = some d ∧ d ≤ now

/-- The call has failed at or after its deadline. -/
def Late (k : UnaryCall κ) : Prop := isOk k.status = false ∧ Expired k.context.deadline k.time

/-- A call that has failed at or after the deadline is the last one, and `done` holds. -/
def LateEnds (ks : List (UnaryCall κ)) (done : Prop) : Prop :=
  ∀ pre k post, ks = pre ++ k :: post → Late k → post = [] ∧ done

/-- Once an attempt has failed at or after the deadline, its `Write` makes no further attempt and returns
false. -/
structure SingleTimeout (c : UnaryClient κ ρ) : Prop where
  underway : ∀ w, c.write = some w → LateEnds w.calls (w.retry.pc = .returned false)
  past : ∀ w ∈ c.past, LateEnds w.calls (w.result = false)

/-- An attempt that fails at or after the deadline fails with a status that the strategy, if there is one,
refuses under its number. -/
def LateRefused (settings : Settings) (c : UnaryClient κ ρ) (a : UnaryAction κ ρ) : Prop :=
  ∀ w status response now, a = .call status response now → c.write = some w → isOk status = false →
    Expired w.deadline now →
      ∀ f, settings.retryStrategy = some f → f (w.retry.failedAttempts + 1) status = .ok none

theorem lateEnds_snoc {ks : List (UnaryCall κ)} {k : UnaryCall κ} {done : Prop} :
    LateEnds (ks ++ [k]) done ↔ (∀ k' ∈ ks, ¬ Late k') ∧ (Late k → done) := by
  constructor
  · intro h
    refine ⟨fun k' hk' hlate => ?_, fun hlate => (h ks k [] rfl hlate).2⟩
    obtain ⟨pre, post, rfl⟩ := List.append_of_mem hk'
    have hpost := (h pre k' (post ++ [k]) (by simp) hlate).1
    simp at hpost
  · rintro ⟨hnone, hlast⟩ pre k' post heq hlate
    rcases List.eq_nil_or_concat post with rfl | ⟨post, x, rfl⟩
    · have hk : k = k' := by
        have := congrArg List.getLast? heq
        simpa using this
      exact ⟨rfl, hlast (hk ▸ hlate)⟩
    · rw [List.concat_eq_append, ← List.cons_append, ← List.append_assoc] at heq
      obtain ⟨rfl, -⟩ := List.append_inj' heq rfl
      exact absurd hlate (hnone k' (by simp))

theorem lateEnds_of_none {ks : List (UnaryCall κ)} {done : Prop} (h : ∀ k ∈ ks, ¬ Late k) :
    LateEnds ks done := by
  rintro pre k post rfl hlate
  exact absurd hlate (h k (by simp))

theorem LateEnds.none {ks : List (UnaryCall κ)} {done : Prop} (h : LateEnds ks done)
    (hd : ¬ done) : ∀ k ∈ ks, ¬ Late k := by
  intro k hk hlate
  obtain ⟨pre, post, rfl⟩ := List.append_of_mem hk
  exact hd (h pre k post rfl hlate).2

/-- What was lost stays lost: the calls of a `Write` only grow. -/
theorem SingleTimeout.back (h : SingleTimeout c') (hs : Stepped settings c a c') :
    SingleTimeout c := by
  cases hs with
  | began hw => exact ⟨by simp [hw], h.past⟩
  | called hw _ =>
    refine ⟨fun w' hw' => ?_, h.past⟩
    obtain rfl := Option.some.inj (hw.symm.trans hw')
    exact lateEnds_of_none (lateEnds_snoc.mp (h.underway _ rfl)).1
  | slept hw hr =>
    refine ⟨fun w' hw' => ?_, h.past⟩
    obtain rfl := Option.some.inj (hw.symm.trans hw')
    exact lateEnds_of_none ((h.underway _ rfl).none (by simp [hr.pc_of_sleep]))
  | @ended w result hw hpc =>
    refine ⟨fun w' hw' => ?_, fun w' hw' => h.past w' (List.mem_append_left _ hw')⟩
    obtain rfl := Option.some.inj (hw.symm.trans hw')
    have hlast := h.past _ (List.mem_append_right _ (List.mem_singleton_self _))
    simpa [hpc] using hlast

/-- A step keeps it exactly if a late failure is refused. -/
theorem SingleTimeout.step_iff (hw : Writes settings c) (h : SingleTimeout c)
    (hs : Stepped settings c a c') : SingleTimeout c' ↔ LateRefused settings c a := by
  cases hs with
  | began =>
    refine ⟨fun _ => by rintro _ _ _ _ ⟨⟩, fun _ => ⟨fun w' hw' => ?_, h.past⟩⟩
    obtain rfl := Option.some.inj hw'
    exact lateEnds_of_none (by simp)
  | @called w status response now retry hwrite hr =>
    have hnone := (h.underway w hwrite).none (by simp [hr.op_pc])
    have hdeadline := (hw.underway w hwrite).context hr.op_pc
    constructor
    · rintro h' w' _ _ _ ⟨⟩ hw' hfail hexp
      obtain rfl := Option.some.inj (hwrite.symm.trans hw')
      have hlast := (lateEnds_snoc.mp (h'.underway _ rfl)).2 ⟨hfail, hdeadline ▸ hexp⟩
      exact (hr.returned_iff hfail).mp hlast
    · intro href
      refine ⟨fun w' hw' => ?_, h.past⟩
      obtain rfl := Option.some.inj hw'
      refine lateEnds_snoc.mpr ⟨hnone, fun ⟨hfail, hexp⟩ => ?_⟩
      exact (hr.returned_iff hfail).mpr
        (href w status response now rfl hwrite hfail (hdeadline ▸ hexp))
  | slept hwrite hr =>
    refine ⟨fun _ => by rintro _ _ _ _ ⟨⟩, fun _ => ⟨fun w' hw' => ?_, h.past⟩⟩
    obtain rfl := Option.some.inj hw'
    obtain ⟨delay, hpc⟩ := hr.sleep_pc
    exact lateEnds_of_none ((h.underway _ hwrite).none (by simp [hpc]))
  | ended hwrite hpc =>
    refine ⟨fun _ => by rintro _ _ _ _ ⟨⟩, fun _ => ⟨by rintro _ ⟨⟩, fun w' hw' => ?_⟩⟩
    rcases List.mem_append.mp hw' with hw' | hw'
    · exact h.past w' hw'
    · obtain rfl := List.mem_singleton.mp hw'
      simpa [hpc] using h.underway _ hwrite

/-- A client that waits 5 ticks after every failure, with a timeout of 10. -/
def unlimited : Settings := .ofTimeout 10 (some (createUnlimitedConstantDelayStrategy 5))

/-- A `Write` of that client goes on after an attempt that fails at twice the timeout. -/
theorem late_failure_is_retried :
    ∃ c : UnaryClient ℕ ℕ, Reachable (unary ℕ ℕ unlimited) c ∧ ¬ SingleTimeout c := by
  obtain ⟨c, hr, hp⟩ := exists_run (unary ℕ ℕ unlimited)
    [.write 7 true 0, .call ⟨.deadlineExceeded, ""⟩ 0 20, .sleep, .call ⟨.deadlineExceeded, ""⟩ 0 25]
    (fun c : UnaryClient ℕ ℕ => decide (c.write.map (·.calls) =
      some [⟨⟨1, some 10⟩, 7, ⟨.deadlineExceeded, ""⟩, 20⟩,
        ⟨⟨2, some 10⟩, 7, ⟨.deadlineExceeded, ""⟩, 25⟩])) (by decide)
  obtain ⟨w, hw, hcalls⟩ := Option.map_eq_some_iff.mp (of_decide_eq_true hp)
  refine ⟨c, hr.reachable, fun h => ?_⟩
  have hlate := (h.underway w hw [] _ _ hcalls ⟨rfl, 10, rfl, by decide⟩).1
  cases hlate

/-- **When the attempts of a `Write` count towards one timeout.** In a run of a client, a failure at or
after the deadline is the end of every `Write` exactly if each such failure comes with a status that the
retry strategy refuses: the loop itself does not look at the deadline. -/
theorem late_failures_end_write_iff [Inhabited ρ] (settings : Settings)
    (as : List (UnaryAction κ ρ)) (c : UnaryClient κ ρ) (hr : Run (unary κ ρ settings) as c) :
    Along (unary κ ρ settings) (LateRefused settings) as ↔ SingleTimeout c := by
  refine along_iff ?_ (fun _ _ _ _ hs h => h.back (stepped_of_step hs))
    (fun _ _ _ hreach h hs => h.step_iff (writes_of_reachable hreach) (stepped_of_step hs)) hr
  exact ⟨by rintro _ ⟨⟩, by simp [unary, UnaryClient.construct]⟩

/-- An attempt that fails at or after the deadline fails with `DEADLINE_EXCEEDED`. -/
def expiryReported (c : UnaryClient κ ρ) : UnaryAction κ ρ → Bool
  | .call status _ now =>
    c.write.all fun w => isOk status || !w.deadline.any (· ≤ now) ||
      status.errorCode = .deadlineExceeded
  | _ => true

/-- It is enough that an expired deadline is reported as such and is among the unrecoverable codes. -/
theorem lateRefused_of_unrecoverable {codes : Finset StatusCode} {rdc : RetryDelayCalculator}
    (hs : settings.retryStrategy =
      some (createRetryStrategy (createUnlimitedRetryIndicatorExcept codes) rdc))
    (hcode : .deadlineExceeded ∈ codes) (h : expiryReported c a = true) :
    LateRefused settings c a := by
  rintro w status response now rfl hw hfail ⟨d, hd, hle⟩ f hf
  have hexceeded : status.errorCode = .deadlineExceeded := by
    simpa [expiryReported, hw, hfail, hd, hle] using h
  obtain rfl := Option.some.inj (hs.symm.trans hf)
  simp [createRetryStrategy, createUnlimitedRetryIndicatorExcept, hexceeded, hcode, pure, Except.pure]

/-- A client that waits 5 ticks after every failure other than an expired deadline. -/
def recoverable : Settings :=
  .ofTimeout 10 (some (createUnlimitedConstantDelayStrategyExcept 5 {.deadlineExceeded}))

/-- A `Write` that is retried before its deadline and given up after it. -/
def givenUp : List (UnaryAction ℕ ℕ) :=
  [.write 7 true 0, .call ⟨.unavailable, ""⟩ 0 3, .sleep, .call ⟨.deadlineExceeded, ""⟩ 0 12, .endWrite]

theorem late_failures_end_write_recoverable :
    ∃ c : UnaryClient ℕ ℕ, Run (unary ℕ ℕ recoverable) givenUp c ∧
      Along (unary ℕ ℕ recoverable) (LateRefused recoverable) givenUp ∧ SingleTimeout c ∧
      c.past.map (·.result) = [false] := by
  obtain ⟨c, hr, hp⟩ := exists_run (unary ℕ ℕ recoverable) givenUp
    (fun c : UnaryClient ℕ ℕ => decide (c.past.map (·.result) = [false])) (by decide)
  have hs : recoverable.retryStrategy =
      some (createRetryStrategy (createUnlimitedRetryIndicatorExcept {.deadlineExceeded})
        (createConstantDelayCalculator 5)) := rfl
  have hal : Along (unary ℕ ℕ recoverable) (LateRefused recoverable) givenUp :=
    along_of_check (fun _ _ h => lateRefused_of_unrecoverable hs (by decide) h) (by decide)
  exact ⟨c, hr, hal, (late_failures_end_write_iff recoverable _ c hr).mp hal, by simpa using hp⟩

end AsyncGrpc.Client.UnaryWrites
