import AsyncGrpc.Model.Retry
import Mathlib.Tactic.Common

/-! # What `RetryWithStrategy` does, attempt by attempt

* `iterated_of_step`, `failed_of_step`: the ways a step of the loop goes on and ends the process.
* `stage_of_run`: with a strategy of `CreateRetryStrategy` the calls made so far are whole rounds, one
  for every attempt that was retried, and the beginning of one more.
* `retry_with_strategy_calls`: the calls of a loop that has returned; a limited indicator bounds the
  attempts, an empty strategy allows one.
* `limited_backoff_not_aborts`: the limited strategy with backoff does not end the process. -/

namespace AsyncGrpc.Client.Retries

open AsyncGrpc.Lib.Runs AsyncGrpc.Model.Types AsyncGrpc.Model.Retry

/-! ### One step of the loop -/

section Steps

variable {retryStrategy : Option RetryStrategy} {reset : Bool} {r r' : RetryLoop} {a : RetryAction}

/-- The ways a step goes on. -/
inductive Iterated (retryStrategy : Option RetryStrategy) (reset : Bool) (r : RetryLoop) :
    RetryAction → RetryLoop → Prop
  | succeeded {status : Status} (hpc : r.pc = .op) (hok : isOk status = true) :
      Iterated retryStrategy reset r (.op status)
        ⟨r.failedAttempts, .returned true, r.history ++ [.op status]⟩
  | unretried {status : Status} (hpc : r.pc = .op) (hfail : isOk status = false)
      (hs : retryStrategy = none) :
      Iterated retryStrategy reset r (.op status)
        ⟨r.failedAttempts, .returned false, r.history ++ [.op status]⟩
  | refused {status : Status} {f : RetryStrategy} (hpc : r.pc = .op) (hfail : isOk status = false)
      (hs : retryStrategy = some f) (hlt : r.failedAttempts < intMax)
      (hf : f (r.failedAttempts + 1) status = .ok none) :
      Iterated retryStrategy reset r (.op status)
        ⟨r.failedAttempts + 1, .returned false,
          r.history ++ [.op status, .strategy (r.failedAttempts + 1) status]⟩
  | retried {status : Status} {f : RetryStrategy} {delay : Duration} (hpc : r.pc = .op)
      (hfail : isOk status = false) (hs : retryStrategy = some f) (hlt : r.failedAttempts < intMax)
      (hf : f (r.failedAttempts + 1) status = .ok (some delay)) :
      Iterated retryStrategy reset r (.op status)
        ⟨r.failedAttempts + 1, .sleep delay,
          r.history ++ [.op status, .strategy (r.failedAttempts + 1) status]⟩
  | delayed {delay : Duration} (hpc : r.pc = .sleep delay) :
      Iterated retryStrategy reset r .sleep (r.delayed reset delay)

theorem iterated_of_attempt {status : Status} (hpc : r.pc = .op)
    (h : r.attempt retryStrategy status = .ok r') :
    Iterated retryStrategy reset r (.op status) r' := by
  unfold RetryLoop.attempt at h
  by_cases hok : isOk status = true
  · rw [if_pos hok] at h
    obtain rfl := Except.ok.inj h
    exact .succeeded hpc hok
  rw [if_neg hok] at h
  have hfail : isOk status = false := by simpa using hok
  cases hs : retryStrategy with
  | none =>
    rw [hs] at h
    obtain rfl := Except.ok.inj h
    exact .unretried hpc hfail rfl
  | some f =>
    rw [hs] at h
    by_cases hle : intMax ≤ r.failedAttempts
    · simp [hle] at h
    simp only [hle, if_false] at h
    obtain ⟨delay, hf, h⟩ := bind_eq_ok.mp h
    obtain rfl := Except.ok.inj h
    have hlt : r.failedAttempts < intMax := not_le.mp hle
    cases delay with
    | none => simpa using Iterated.refused hpc hfail rfl hlt hf
    | some d => simpa using Iterated.retried hpc hfail rfl hlt hf

/-- What a step that goes on has done. -/
theorem iterated_of_step (h : r.step retryStrategy reset a = some (.ok r')) :
    Iterated retryStrategy reset r a r' := by
  cases a with
  | op status =>
    cases hpc : r.pc with
    | op =>
      simp only [RetryLoop.step, hpc, Option.some.injEq] at h
      exact iterated_of_attempt hpc h
    | sleep d => simp [RetryLoop.step, hpc] at h
    | returned b => simp [RetryLoop.step, hpc] at h
  | sleep =>
    cases hpc : r.pc with
    | op => simp [RetryLoop.step, hpc] at h
    | sleep d =>
      simp only [RetryLoop.step, hpc, Option.some.injEq, Except.ok.injEq] at h
      subst h
      exact .delayed hpc
    | returned b => simp [RetryLoop.step, hpc] at h

/-- The process ends only in an attempt that fails: at the end of the range of the counter, or in the
strategy. -/
theorem failed_of_step {e : RetryFatal} (h : r.step retryStrategy reset a = some (.error e)) :
    ∃ status f, a = .op status ∧ r.pc = .op ∧ isOk status = false ∧ retryStrategy = some f ∧
      (e = .failedAttemptsOverflow ∧ intMax ≤ r.failedAttempts ∨
        r.failedAttempts < intMax ∧ f (r.failedAttempts + 1) status = .error e) := by
  cases a with
  | sleep => cases hpc : r.pc <;> simp [RetryLoop.step, hpc] at h
  | op status =>
    cases hpc : r.pc with
    | sleep d => simp [RetryLoop.step, hpc] at h
    | returned b => simp [RetryLoop.step, hpc] at h
    | op =>
      simp only [RetryLoop.step, hpc, Option.some.injEq] at h
      unfold RetryLoop.attempt at h
      by_cases hok : isOk status = true
      · simp [hok] at h
      rw [if_neg hok] at h
      cases retryStrategy with
      | none => simp at h
      | some f =>
        refine ⟨status, f, rfl, rfl, by simpa using hok, rfl, ?_⟩
        by_cases hle : intMax ≤ r.failedAttempts
        · simp only [hle, if_true, Except.error.injEq] at h
          exact .inl ⟨h.symm, hle⟩
        · simp only [hle, if_false] at h
          rcases bind_eq_error.mp h with hf | ⟨d, -, hd⟩
          · exact .inr ⟨not_le.mp hle, hf⟩
          · simp [pure, Except.pure] at hd

/-- After an attempt the loop is not before the next one, and what it returns tells whether the attempt
was successful. -/
theorem Iterated.pc_of_op {status : Status} (h : Iterated retryStrategy reset r (.op status) r') :
    r'.pc ≠ .op ∧ ∀ b, r'.pc = .returned b → b = isOk status := by
  cases h with
  | succeeded _ hok => exact ⟨by simp, fun b hb => by simpa [hok] using hb.symm⟩
  | unretried _ hfail _ => exact ⟨by simp, fun b hb => by simpa [hfail] using hb.symm⟩
  | refused _ hfail _ _ _ => exact ⟨by simp, fun b hb => by simpa [hfail] using hb.symm⟩
  | retried => exact ⟨by simp, fun b hb => by simp at hb⟩

theorem Iterated.op_pc {status : Status} (h : Iterated retryStrategy reset r (.op status) r') :
    r.pc = .op := by
  cases h <;> assumption

/-- After a failed attempt the loop ends exactly if the strategy, when there is one, refuses. -/
theorem Iterated.returned_iff {status : Status}
    (h : Iterated retryStrategy reset r (.op status) r') (hfail : isOk status = false) :
    r'.pc = .returned false ↔
      ∀ f, retryStrategy = some f → f (r.failedAttempts + 1) status = .ok none := by
  cases h with
  | succeeded _ hok => simp [hok] at hfail
  | unretried _ _ hs => simp [hs]
  | refused _ _ hs _ hf => simp [hs, hf]
  | retried _ _ hs _ hf => simp [hs, hf]

/-- After the delay the loop is before its next attempt. -/
theorem Iterated.pc_of_sleep (h : Iterated retryStrategy reset r .sleep r') : r'.pc = .op := by
  cases h
  rfl

theorem Iterated.sleep_pc (h : Iterated retryStrategy reset r .sleep r') :
    ∃ delay, r.pc = .sleep delay := by
  cases h with
  | delayed hpc => exact ⟨_, hpc⟩

theorem step_returned {b : Bool} (hpc : r.pc = .returned b) :
    r.step retryStrategy reset a = none := by
  cases a <;> simp [RetryLoop.step, hpc]

end Steps

/-! ### What the calls are -/

/-- The statuses of the attempts. -/
def attempts (h : List RetryCall) : List Status :=
  h.filterMap fun c => match c with
    | .op status => some status
    | _ => none

/-- The arguments of the calls of the strategy. -/
def strategyCalls (h : List RetryCall) : List (ℤ × Status) :=
  h.filterMap fun c => match c with
    | .strategy failedAttempts status => some (failedAttempts, status)
    | _ => none

/-- The calls for one attempt that is retried: the `k`-th failure, the delay `p.2` and the reset. -/
def round (reset : Bool) (p : Status × Duration) (k : ℕ) : List RetryCall :=
  [.op p.1, .strategy (k + 1) p.1, .sleep p.2] ++ if reset then [.reset] else []

/-- The calls for all attempts that are retried, given by their statuses and the delays. -/
def rounds (reset : Bool) (failed : List (Status × Duration)) : List RetryCall :=
  failed.zipIdx.flatMap fun p => round reset p.1 p.2

section Rounds

variable {reset : Bool} {failed : List (Status × Duration)}

theorem rounds_snoc (p : Status × Duration) :
    rounds reset (failed ++ [p]) = rounds reset failed ++ round reset p failed.length := by
  simp [rounds, List.zipIdx_append]

@[simp] theorem attempts_append (h h' : List RetryCall) :
    attempts (h ++ h') = attempts h ++ attempts h' := List.filterMap_append

@[simp] theorem strategyCalls_append (h h' : List RetryCall) :
    strategyCalls (h ++ h') = strategyCalls h ++ strategyCalls h' := List.filterMap_append

@[simp] theorem attempts_nil : attempts [] = [] := rfl

@[simp] theorem attempts_op (status : Status) (h : List RetryCall) :
    attempts (.op status :: h) = status :: attempts h := rfl

@[simp] theorem attempts_strategy (k : ℤ) (status : Status) (h : List RetryCall) :
    attempts (.strategy k status :: h) = attempts h := rfl

@[simp] theorem strategyCalls_nil : strategyCalls [] = [] := rfl

@[simp] theorem strategyCalls_op (status : Status) (h : List RetryCall) :
    strategyCalls (.op status :: h) = strategyCalls h := rfl

@[simp] theorem strategyCalls_strategy (k : ℤ) (status : Status) (h : List RetryCall) :
    strategyCalls (.strategy k status :: h) = (k, status) :: strategyCalls h := rfl

@[simp] theorem attempts_round (p : Status × Duration) (k : ℕ) :
    attempts (round reset p k) = [p.1] := by
  cases reset <;> rfl

@[simp] theorem strategyCalls_round (p : Status × Duration) (k : ℕ) :
    strategyCalls (round reset p k) = [((k : ℤ) + 1, p.1)] := by
  cases reset <;> rfl

@[simp] theorem attempts_rounds : attempts (rounds reset failed) = failed.map Prod.fst := by
  induction failed using List.reverseRecOn with
  | nil => rfl
  | append_singleton failed p ih => simp [rounds_snoc, ih]

/-- The attempts with the numbers of the failures. -/
def numbered (statuses : List Status) : List (ℤ × Status) :=
  statuses.zipIdx.map fun p => ((p.2 : ℤ) + 1, p.1)

theorem numbered_snoc (statuses : List Status) (status : Status) :
    numbered (statuses ++ [status]) =
      numbered statuses ++ [((statuses.length : ℤ) + 1, status)] := by
  simp [numbered, List.zipIdx_append]

@[simp] theorem strategyCalls_rounds :
    strategyCalls (rounds reset failed) = numbered (failed.map Prod.fst) := by
  induction failed using List.reverseRecOn with
  | nil => rfl
  | append_singleton failed p ih => simp [rounds_snoc, ih, numbered_snoc]

theorem resets_rounds :
    (rounds reset failed).count .reset = if reset then failed.length else 0 := by
  induction failed using List.reverseRecOn with
  | nil => cases reset <;> rfl
  | append_singleton failed p ih =>
    cases reset <;> simp [rounds_snoc, ih, round]

end Rounds

/-! ### A strategy of `CreateRetryStrategy` -/

section Created

variable {ri : RetryIndicator} {rdc : RetryDelayCalculator} {reset : Bool}
  {failed : List (Status × Duration)} {k : ℤ} {status : Status} {delay : Duration}

theorem createRetryStrategy_eq (ri : RetryIndicator) (rdc : RetryDelayCalculator) (k : ℤ)
    (status : Status) : createRetryStrategy ri rdc k status =
      if ri k status = true then some <$> rdc k else .ok none := by
  unfold createRetryStrategy
  cases ri k status with
  | false => rfl
  | true => cases rdc k <;> rfl

theorem createRetryStrategy_none (h : createRetryStrategy ri rdc k status = .ok none) :
    ri k status = false := by
  rw [createRetryStrategy_eq] at h
  split_ifs at h with hi
  · obtain ⟨d, -, hd⟩ := map_eq_ok.mp h
    cases hd
  · exact Bool.eq_false_iff.mpr hi

theorem createRetryStrategy_some (h : createRetryStrategy ri rdc k status = .ok (some delay)) :
    ri k status = true ∧ rdc k = .ok delay := by
  rw [createRetryStrategy_eq] at h
  split_ifs at h with hi
  · obtain ⟨d, hd, h⟩ := map_eq_ok.mp h
    obtain rfl := Option.some.inj h
    exact ⟨hi, hd⟩
  · cases h

theorem createRetryStrategy_error {e : RetryFatal}
    (h : createRetryStrategy ri rdc k status = .error e) : rdc k = .error e := by
  rw [createRetryStrategy_eq] at h
  split_ifs at h
  exact map_eq_error.mp h

/-- The attempts that are retried, with the delays: each has failed, the indicator accepts it under its
number and the calculator gives the delay for that number. -/
def Retried (ri : RetryIndicator) (rdc : RetryDelayCalculator)
    (failed : List (Status × Duration)) : Prop :=
  ∀ (k : ℕ) (status : Status) (delay : Duration), failed[k]? = some (status, delay) →
    isOk status = false ∧ ri (k + 1) status = true ∧ rdc (k + 1) = .ok delay

theorem retried_nil : Retried ri rdc [] := by
  simp [Retried]

theorem Retried.snoc (h : Retried ri rdc failed) (hfail : isOk status = false)
    (hi : ri (failed.length + 1) status = true) (hd : rdc (failed.length + 1) = .ok delay) :
    Retried ri rdc (failed ++ [(status, delay)]) := by
  intro k st d hk
  rcases Nat.lt_trichotomy k failed.length with hlt | rfl | hgt
  · rw [List.getElem?_append_left hlt] at hk
    exact h k st d hk
  · simp only [List.getElem?_concat_length, Option.some.injEq, Prod.mk.injEq] at hk
    obtain ⟨rfl, rfl⟩ := hk
    exact ⟨hfail, hi, hd⟩
  · rw [List.getElem?_eq_none (by simp; omega)] at hk
    cases hk

/-- Where the loop stands and the calls that it has made. -/
inductive Stage (ri : RetryIndicator) (rdc : RetryDelayCalculator) (reset : Bool) : RetryLoop → Prop
  | op {failed : List (Status × Duration)} (hr : Retried ri rdc failed) :
      Stage ri rdc reset ⟨failed.length, .op, rounds reset failed⟩
  | sleep {failed : List (Status × Duration)} {status : Status} {delay : Duration}
      (hr : Retried ri rdc (failed ++ [(status, delay)])) :
      Stage ri rdc reset ⟨failed.length + 1, .sleep delay,
        rounds reset failed ++ [.op status, .strategy (failed.length + 1) status]⟩
  | succeeded {failed : List (Status × Duration)} {status : Status} (hr : Retried ri rdc failed)
      (hok : isOk status = true) :
      Stage ri rdc reset ⟨failed.length, .returned true, rounds reset failed ++ [.op status]⟩
  | refused {failed : List (Status × Duration)} {status : Status} (hr : Retried ri rdc failed)
      (hfail : isOk status = false) (hi : ri (failed.length + 1) status = false) :
      Stage ri rdc reset ⟨failed.length + 1, .returned false,
        rounds reset failed ++ [.op status, .strategy (failed.length + 1) status]⟩

theorem stage_step {r r' : RetryLoop} {a : RetryAction} (h : Stage ri rdc reset r)
    (hs : r.step (some (createRetryStrategy ri rdc)) reset a = some (.ok r')) :
    Stage ri rdc reset r' := by
  cases h with
  | op hr =>
    cases iterated_of_step hs with
    | succeeded _ hok => exact .succeeded hr hok
    | unretried _ _ hn => cases hn
    | refused _ hfail hf _ hd =>
      obtain rfl := Option.some.inj hf
      exact .refused hr hfail (createRetryStrategy_none hd)
    | retried _ hfail hf _ hd =>
      obtain rfl := Option.some.inj hf
      obtain ⟨hi, hd⟩ := createRetryStrategy_some hd
      exact .sleep (hr.snoc hfail hi hd)
    | delayed hpc => cases hpc
  | @sleep failed status delay hr =>
    cases iterated_of_step hs with
    | delayed hpc =>
      cases hpc
      have hround : Stage ri rdc reset _ := .op hr
      rw [rounds_snoc] at hround
      simpa [RetryLoop.delayed, round] using hround
    | succeeded hpc => cases hpc
    | unretried hpc => cases hpc
    | refused hpc => cases hpc
    | retried hpc => cases hpc
  | succeeded => exact absurd (hs.symm.trans (step_returned rfl)) (by simp)
  | refused => exact absurd (hs.symm.trans (step_returned rfl)) (by simp)

/-- **The calls made so far are whole rounds and the beginning of one more.** -/
theorem stage_of_run {as : List RetryAction} {r : RetryLoop}
    (h : Run (retryWithStrategy (some (createRetryStrategy ri rdc)) reset) as r) :
    Stage ri rdc reset r := by
  have h0 : Stage ri rdc reset RetryLoop.begin := .op retried_nil
  have hstep : ∀ s a s', Stage ri rdc reset s →
      (retryWithStrategy (some (createRetryStrategy ri rdc)) reset).Step s a s' →
      Stage ri rdc reset s' := fun _ _ _ hi hs => stage_step hi hs
  exact inv_of_reachable h0 hstep h.reachable

/-- The calls `h` of a loop that returned `b`: whole rounds, and an attempt that is successful or that
the indicator refuses under its number. -/
def Finished (ri : RetryIndicator) (rdc : RetryDelayCalculator) (reset b : Bool)
    (h : List RetryCall) : Prop :=
  ∃ (failed : List (Status × Duration)) (last : Status),
    Retried ri rdc failed ∧ b = isOk last ∧
      (isOk last = true ∨ ri (failed.length + 1) last = false) ∧
      h = rounds reset failed ++
        .op last :: if isOk last then [] else [.strategy (failed.length + 1) last]

variable {r : RetryLoop} {b : Bool} {h : List RetryCall}

theorem finished_of_stage (hs : Stage ri rdc reset r) (hb : r.pc = .returned b) :
    Finished ri rdc reset b r.history := by
  cases hs with
  | op => cases hb
  | sleep => cases hb
  | @succeeded failed last hr hok =>
    cases hb
    exact ⟨failed, last, hr, hok.symm, .inl hok, by simp [hok]⟩
  | @refused failed last hr hfail hi =>
    cases hb
    exact ⟨failed, last, hr, hfail.symm, .inr hi, by simp [hfail]⟩

theorem Retried.filter (hr : Retried ri rdc failed) :
    (failed.map Prod.fst).filter (fun status => !isOk status) = failed.map Prod.fst := by
  refine List.filter_eq_self.mpr fun status hmem => ?_
  obtain ⟨p, hp, rfl⟩ := List.mem_map.mp hmem
  obtain ⟨k, hk⟩ := List.getElem?_of_mem hp
  simp [(hr k p.1 p.2 hk).1]

/-- The strategy is called once for every failure, with its number and its status. -/
theorem Finished.strategyCalls_eq (hf : Finished ri rdc reset b h) :
    strategyCalls h = numbered ((attempts h).filter fun status => !isOk status) := by
  obtain ⟨failed, last, hr, -, -, rfl⟩ := hf
  cases hok : isOk last with
  | true => simp [hok, hr.filter]
  | false => simp [hok, hr.filter, numbered_snoc]

/-- There is one reset between an attempt and the next, if a reset is given. -/
theorem Finished.resets (hf : Finished ri rdc reset b h) :
    h.count .reset + 1 = if reset then (attempts h).length else 1 := by
  obtain ⟨failed, last, -, -, -, rfl⟩ := hf
  cases hok : isOk last <;> cases reset <;> simp [resets_rounds]

/-! ### Limited indicators -/

variable {maxAttempts : ℤ}

theorem Retried.length_lt (hr : Retried (createLimitedRetryIndicator maxAttempts) rdc failed) :
    (failed.length : ℤ) < max 1 maxAttempts := by
  cases hf : failed.length with
  | zero => exact lt_max_of_lt_left Int.one_pos
  | succ k =>
    have hk : k < failed.length := by omega
    have hlt : (k : ℤ) + 1 < maxAttempts := by
      simpa [createLimitedRetryIndicator] using (hr k _ _ (List.getElem?_eq_getElem hk)).2.1
    push_cast
    exact lt_max_of_lt_right hlt

theorem attempts_le_of_stage
    (hs : Stage (createLimitedRetryIndicator maxAttempts) rdc reset r) :
    ((attempts r.history).length : ℤ) ≤ max 1 maxAttempts := by
  have hle {l : List (Status × Duration)}
      (hr : Retried (createLimitedRetryIndicator maxAttempts) rdc l) :
      (l.length : ℤ) + 1 ≤ max 1 maxAttempts := hr.length_lt
  cases hs with
  | op hr => simpa using hr.length_lt.le
  | sleep hr => simpa using hr.length_lt.le
  | succeeded hr => simpa using hle hr
  | refused hr => simpa using hle hr

/-- The counter is not at the end of its range when the loop is about to attempt. -/
theorem failedAttempts_lt_of_stage (hmax : maxAttempts ≤ intMax)
    (hs : Stage (createLimitedRetryIndicator maxAttempts) rdc reset r) (hpc : r.pc = .op) :
    r.failedAttempts < intMax := by
  cases hs with
  | op hr =>
    have hpos : (1 : ℤ) ≤ intMax := by decide
    exact lt_of_lt_of_le hr.length_lt (max_le hpos hmax)
  | sleep => cases hpc
  | succeeded => cases hpc
  | refused => cases hpc

/-- The loop has returned or can make its next step, whatever the status of an attempt, unless the
calculator ends the process. -/
def GoesOn (ri : RetryIndicator) (rdc : RetryDelayCalculator) (reset : Bool) (r : RetryLoop) : Prop :=
  (∃ b, r.pc = .returned b) ∨
    (∃ r', r.step (some (createRetryStrategy ri rdc)) reset .sleep = some (.ok r')) ∨
    ∀ status, (∃ r', r.step (some (createRetryStrategy ri rdc)) reset (.op status) =
        some (.ok r')) ∨ ∃ e, rdc (r.failedAttempts + 1) = .error e

theorem goes_on (hlt : r.pc = .op → r.failedAttempts < intMax) : GoesOn ri rdc reset r := by
  cases hpc : r.pc with
  | returned b => exact .inl ⟨b, hpc⟩
  | sleep delay => exact .inr (.inl ⟨_, by simp [RetryLoop.step, hpc]; rfl⟩)
  | op =>
    refine .inr (.inr fun status => ?_)
    have hstep : r.step (some (createRetryStrategy ri rdc)) reset (.op status) =
        some (r.attempt (some (createRetryStrategy ri rdc)) status) := by
      simp [RetryLoop.step, hpc]
    cases ha : r.attempt (some (createRetryStrategy ri rdc)) status with
    | ok r' => exact .inl ⟨r', by rw [hstep, ha]⟩
    | error e =>
      rw [ha] at hstep
      obtain ⟨status', f, heq, -, -, hf, he⟩ := failed_of_step hstep
      obtain rfl := Option.some.inj hf
      rcases he with ⟨-, hle⟩ | ⟨-, he⟩
      · exact absurd (hlt hpc) (not_lt.mpr hle)
      · exact .inr ⟨e, createRetryStrategy_error he⟩

end Created

/-! ### Whole calls -/

section Runs

variable {retryStrategy : Option RetryStrategy} {reset : Bool} {as : List RetryAction}
  {r : RetryLoop}

@[simp] theorem attempts_delayed (delay : Duration) :
    attempts (r.delayed reset delay).history = attempts r.history := by
  cases reset <;> simp [RetryLoop.delayed, attempts]

/-- Every attempt takes at most two steps. -/
theorem length_le_of_run (h : Run (retryWithStrategy retryStrategy reset) as r) :
    as.length ≤ 2 * (attempts r.history).length ∧
      (r.pc ≠ .op → as.length < 2 * (attempts r.history).length) := by
  induction h with
  | init => exact ⟨Nat.le_refl 0, fun hpc => absurd rfl hpc⟩
  | step _ hs ih =>
    obtain ⟨hle, hlt⟩ := ih
    cases iterated_of_step hs with
    | succeeded => constructor <;> simp <;> omega
    | unretried => constructor <;> simp <;> omega
    | refused => constructor <;> simp <;> omega
    | retried => constructor <;> simp <;> omega
    | delayed hpc =>
      have hlt' := hlt (by simp [hpc])
      refine ⟨?_, fun hop => absurd rfl hop⟩
      simp only [List.length_append, List.length_singleton, attempts_delayed]
      omega

/-- Without a strategy there is one attempt. -/
theorem unretried_of_run (h : Run (retryWithStrategy none reset) as r) :
    r = .begin ∨ ∃ status, r = ⟨0, .returned (isOk status), [.op status]⟩ := by
  induction h with
  | init => exact .inl rfl
  | @step _ s s' a _ hs ih =>
    have hs : s.step none reset a = some (.ok s') := hs
    rcases ih with rfl | ⟨status, rfl⟩
    · cases iterated_of_step hs with
      | @succeeded status _ hok => exact .inr ⟨status, by simp [RetryLoop.begin, hok]⟩
      | @unretried status _ hfail _ => exact .inr ⟨status, by simp [RetryLoop.begin, hfail]⟩
      | refused _ _ hn => cases hn
      | retried _ _ hn => cases hn
      | delayed hpc => cases hpc
    · exact absurd (hs.symm.trans (step_returned rfl)) (by simp)

theorem unretried_run (status : Status) :
    Run (retryWithStrategy none reset) [.op status] ⟨0, .returned (isOk status), [.op status]⟩ := by
  refine .step .init ?_
  cases hok : isOk status <;>
    simp [Machine.Step, retryWithStrategy, RetryLoop.step, RetryLoop.begin, RetryLoop.attempt, hok]

end Runs

/-- **The calls of `RetryWithStrategy`.** A loop with a strategy of `CreateRetryStrategy` that has
returned has made whole rounds of a failed attempt, the strategy, a delay and a reset, and then one
attempt that was successful or that the indicator refused; it has called the strategy once for every
failure, with its number. A limited indicator bounds the attempts, so that the loop ends within the range
of its counter; one with unrecoverable codes ends it at the first of them; without a strategy there is
one attempt. -/
theorem retry_with_strategy_calls (ri : RetryIndicator) (rdc : RetryDelayCalculator)
    (reset : Bool) :
    (∀ as r b, Run (retryWithStrategy (some (createRetryStrategy ri rdc)) reset) as r →
      r.pc = .returned b →
      Finished ri rdc reset b r.history ∧
        strategyCalls r.history =
          numbered ((attempts r.history).filter fun status => !isOk status) ∧
        r.history.count .reset + 1 = if reset then (attempts r.history).length else 1) ∧
    (∀ maxAttempts as r, maxAttempts ≤ intMax →
      Run (retryWithStrategy
        (some (createRetryStrategy (createLimitedRetryIndicator maxAttempts) rdc)) reset) as r →
      ((attempts r.history).length : ℤ) ≤ max 1 maxAttempts ∧
        (as.length : ℤ) ≤ 2 * max 1 maxAttempts ∧
        (r.pc = .op → r.failedAttempts < intMax) ∧
        GoesOn (createLimitedRetryIndicator maxAttempts) rdc reset r) ∧
    (∀ codes as r b,
      Run (retryWithStrategy
        (some (createRetryStrategy (createUnlimitedRetryIndicatorExcept codes) rdc)) reset) as r →
      r.pc = .returned b →
      ∃ failed last, attempts r.history = failed ++ [last] ∧ b = isOk last ∧
        (∀ status ∈ failed, isOk status = false ∧ status.errorCode ∉ codes) ∧
        (isOk last = true ∨ last.errorCode ∈ codes)) ∧
    (∀ as r b, Run (retryWithStrategy none reset) as r → r.pc = .returned b →
      ∃ last, r.history = [.op last] ∧ b = isOk last) ∧
    ∀ status, ∃ r, Run (retryWithStrategy none reset) [.op status] r ∧
      r.pc = .returned (isOk status) := by
  refine ⟨fun as r b h hb => ?_, fun maxAttempts as r hmax h => ?_, fun codes as r b h hb => ?_,
    fun as r b h hb => ?_, fun status => ⟨_, unretried_run status, rfl⟩⟩
  · have hf := finished_of_stage (stage_of_run h) hb
    exact ⟨hf, hf.strategyCalls_eq, hf.resets⟩
  · have hs := stage_of_run h
    have hle := attempts_le_of_stage hs
    have hlt := failedAttempts_lt_of_stage hmax hs
    have hlen := (length_le_of_run h).1
    exact ⟨hle, by omega, hlt, goes_on hlt⟩
  · obtain ⟨failed, last, hr, hb, hlast, heq⟩ := finished_of_stage (stage_of_run h) hb
    refine ⟨failed.map Prod.fst, last, ?_, hb, fun status hmem => ?_, ?_⟩
    · rw [heq]
      cases isOk last <;> simp
    · obtain ⟨p, hp, rfl⟩ := List.mem_map.mp hmem
      obtain ⟨k, hk⟩ := List.getElem?_of_mem hp
      obtain ⟨hfail, hi, -⟩ := hr k p.1 p.2 hk
      exact ⟨hfail, by simpa [createUnlimitedRetryIndicatorExcept] using hi⟩
    · exact hlast.imp_right fun hi => by
        simpa [createUnlimitedRetryIndicatorExcept] using hi
  · rcases unretried_of_run h with rfl | ⟨status, rfl⟩
    · cases hb
    · cases hb
      exact ⟨status, rfl, rfl⟩

/-- At most two attempts, with a delay of 5 ticks. -/
def twice : RetryStrategy :=
  createRetryStrategy (createLimitedRetryIndicator 2) (createConstantDelayCalculator 5)

/-- Two attempts with a delay of 5 ticks and a reset between them. -/
theorem retry_with_strategy_calls_two :
    ∃ r : RetryLoop, Run (retryWithStrategy (some twice) true)
        [.op ⟨.unavailable, ""⟩, .sleep, .op .OK] r ∧
      r.history = [.op ⟨.unavailable, ""⟩, .strategy 1 ⟨.unavailable, ""⟩, .sleep 5, .reset, .op .OK] ∧
      r.pc = .returned true ∧ Finished (createLimitedRetryIndicator 2)
        (createConstantDelayCalculator 5) true true r.history := by
  obtain ⟨r, hr, hp⟩ := exists_run (retryWithStrategy (some twice) true)
    [.op ⟨.unavailable, ""⟩, .sleep, .op .OK] (fun r => decide (r.history = [.op ⟨.unavailable, ""⟩,
      .strategy 1 ⟨.unavailable, ""⟩, .sleep 5, .reset, .op .OK] ∧ r.pc = .returned true)) (by decide)
  obtain ⟨hhistory, hpc⟩ := of_decide_eq_true hp
  exact ⟨r, hr, hhistory, hpc, ((retry_with_strategy_calls _ _ true).1 _ r true hr hpc).1⟩

/-! ### Backoff -/

theorem Iterated.failedAttempts_le {retryStrategy : Option RetryStrategy} {reset : Bool}
    {r r' : RetryLoop} {a : RetryAction} (h : Iterated retryStrategy reset r a r') :
    r.failedAttempts ≤ r'.failedAttempts := by
  cases h with
  | succeeded => exact le_rfl
  | unretried => exact le_rfl
  | refused => exact Int.le_add_one le_rfl
  | retried => exact Int.le_add_one le_rfl
  | delayed => exact le_rfl

theorem failedAttempts_nonneg {retryStrategy : Option RetryStrategy} {reset : Bool} {r : RetryLoop}
    (h : Reachable (retryWithStrategy retryStrategy reset) r) : 0 ≤ r.failedAttempts := by
  refine inv_of_reachable (I := fun r => 0 ≤ r.failedAttempts) le_rfl (fun r a r' hi hs => ?_) h
  have hiter : Iterated retryStrategy reset r a r' := iterated_of_step hs
  exact hi.trans hiter.failedAttempts_le

/-- **A strategy of `CreateLimitedBackoffStrategy` does not end the process**: neither does the counter
overflow nor does the `CHECK_GE` of the calculator fail. -/
theorem limited_backoff_not_aborts (scaled : Duration → ℤ → Duration) (minDelay : Duration)
    {maxAttempts : ℤ} (hmax : maxAttempts ≤ intMax) {reset : Bool} {r : RetryLoop}
    (h : Reachable (retryWithStrategy
      (some (createLimitedBackoffStrategy scaled minDelay maxAttempts)) reset) r)
    (a : RetryAction) (e : RetryFatal) : ¬ (retryWithStrategy
      (some (createLimitedBackoffStrategy scaled minDelay maxAttempts)) reset).Aborts r a e := by
  intro ha
  obtain ⟨status, f, -, hpc, -, hf, ⟨-, hle⟩ | ⟨-, herr⟩⟩ := failed_of_step ha
  · obtain ⟨as, hr⟩ := h
    have hlt := failedAttempts_lt_of_stage hmax (stage_of_run hr) hpc
    exact absurd hle (not_le.mpr hlt)
  · obtain rfl := Option.some.inj hf
    have hpos : 0 ≤ r.failedAttempts + 1 := Int.le_add_one (failedAttempts_nonneg h)
    have hcheck := createRetryStrategy_error herr
    rw [createBackoffDelayCalculator, if_pos hpos] at hcheck
    cases hcheck

end AsyncGrpc.Client.Retries
