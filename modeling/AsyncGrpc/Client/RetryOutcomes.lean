import AsyncGrpc.Client.Retries
import Mathlib.Data.Nat.Find

/-! # What comes of a call that is retried

`RetryWithStrategy` with the strategies that `retry.h` offers, on every stream of attempt results.

* `limited_retry_outcome`: `CreateLimitedBackoffStrategy` makes attempts until one succeeds, at most
  `max_attempts` and at least one, and sleeps in between with the delays of the exponents 0, 1, 2 and
  so on.
* `unlimited_retry_outcome`: `CreateUnlimitedConstantDelayStrategy` ends at the first success or
  unrecoverable code; if there is none it goes on until the counter of the failures overflows. -/

namespace AsyncGrpc.Client.RetryOutcomes

open AsyncGrpc.Lib.Runs AsyncGrpc.Model.Types AsyncGrpc.Model.Retry AsyncGrpc.Client.Retries

variable {ri : RetryIndicator} {rdc : RetryDelayCalculator} {reset : Bool} {f : ℕ → Status}
  {d : ℕ → Duration} {k : ℕ}

/-- The steps of `k` attempts that are retried, when `f j` is the result of the attempt `j`. -/
def feed (f : ℕ → Status) (k : ℕ) : List RetryAction :=
  (List.range k).flatMap fun j => [.op (f j), .sleep]

/-- The loop ends with the attempt `k`. -/
def Stops (ri : RetryIndicator) (f : ℕ → Status) (k : ℕ) : Prop :=
  isOk (f k) = true ∨ ri (k + 1) (f k) = false

/-- The delays that the loop has slept for. -/
def slept (h : List RetryCall) : List Duration :=
  h.filterMap fun c => match c with
    | .sleep delay => some delay
    | _ => none

theorem feed_succ (f : ℕ → Status) (k : ℕ) : feed f (k + 1) = feed f k ++ [.op (f k), .sleep] := by
  simp [feed, List.range_succ]

theorem slept_append (h h' : List RetryCall) : slept (h ++ h') = slept h ++ slept h' :=
  List.filterMap_append

theorem slept_rounds (failed : List (Status × Duration)) :
    slept (rounds reset failed) = failed.map Prod.snd := by
  induction failed using List.reverseRecOn with
  | nil => rfl
  | append_singleton failed p ih =>
    have hround : slept (Retries.round reset p failed.length) = [p.2] := by cases reset <;> rfl
    rw [rounds_snoc, slept_append, ih, hround, List.map_append, List.map_singleton]

/-! ### Attempts that are retried, and the last one -/

/-- The loop after `k` attempts that were retried. -/
def looped (reset : Bool) (f : ℕ → Status) (d : ℕ → Duration) (k : ℕ) : RetryLoop :=
  ⟨k, .op, rounds reset ((List.range k).map fun j => (f j, d j))⟩

/-- **A stream whose first `k` attempts are retried.** -/
theorem run_feed (hd : ∀ j : ℕ, rdc (j + 1) = .ok (d j)) (hgo : ∀ j < k, ¬ Stops ri f j)
    (hk : (k : ℤ) ≤ intMax) :
    Run (retryWithStrategy (some (createRetryStrategy ri rdc)) reset) (feed f k)
      (looped reset f d k) := by
  induction k with
  | zero => exact .init
  | succ k ih =>
    have hprev := ih (fun j hj => hgo j (Nat.lt_succ_of_lt hj)) (by omega)
    have hstop := hgo k (Nat.lt_succ_self k)
    have hfail : isOk (f k) = false := Bool.eq_false_iff.mpr fun h => hstop (.inl h)
    have hind : ri (k + 1) (f k) = true := by
      by_contra h
      exact hstop (.inr (Bool.eq_false_iff.mpr h))
    have hlt : ¬ intMax ≤ (k : ℤ) := by omega
    rw [feed_succ]
    have hop : (retryWithStrategy (some (createRetryStrategy ri rdc)) reset).Step
        (looped reset f d k) (.op (f k))
        ⟨k + 1, .sleep (d k), (looped reset f d k).history ++ [.op (f k), .strategy (k + 1) (f k)]⟩ := by
      show (looped reset f d k).step (some (createRetryStrategy ri rdc)) reset (.op (f k)) = _
      simp only [RetryLoop.step, RetryLoop.attempt, looped, hfail, Bool.false_eq_true, if_false, hlt]
      rw [createRetryStrategy_eq, if_pos hind, hd]
      simp
    have hsleep : (retryWithStrategy (some (createRetryStrategy ri rdc)) reset).Step
        ⟨k + 1, .sleep (d k), (looped reset f d k).history ++ [.op (f k), .strategy (k + 1) (f k)]⟩ .sleep
        (looped reset f d (k + 1)) := by
      show some (Except.ok (RetryLoop.delayed reset (d k) _)) = _
      simp [looped, RetryLoop.delayed, List.range_succ, rounds_snoc, Retries.round]
    have hrun := (hprev.step hop).step hsleep
    simpa using hrun

/-- **The last attempt.** -/
theorem run_stops (hd : ∀ j : ℕ, rdc (j + 1) = .ok (d j)) (hgo : ∀ j < k, ¬ Stops ri f j)
    (hstop : Stops ri f k) (hk : (k : ℤ) < intMax) :
    ∃ r, Run (retryWithStrategy (some (createRetryStrategy ri rdc)) reset)
        (feed f k ++ [.op (f k)]) r ∧ r.pc = .returned (isOk (f k)) ∧
      slept r.history = (List.range k).map d := by
  have hprev : Run (retryWithStrategy (some (createRetryStrategy ri rdc)) reset) (feed f k)
      (looped reset f d k) := run_feed hd hgo (Int.le_of_lt hk)
  have hslept : slept (looped reset f d k).history = (List.range k).map d := by
    rw [looped, slept_rounds, List.map_map]
    rfl
  cases hok : isOk (f k) with
  | true =>
    refine ⟨⟨k, .returned true, (looped reset f d k).history ++ [.op (f k)]⟩, hprev.step ?_, rfl, ?_⟩
    · show (looped reset f d k).step (some (createRetryStrategy ri rdc)) reset (.op (f k)) = _
      simp [RetryLoop.step, RetryLoop.attempt, looped, hok]
    · rw [slept_append, hslept]
      simp [slept]
  | false =>
    have hind : ri (k + 1) (f k) = false := hstop.resolve_left (by simp [hok])
    have hlt : ¬ intMax ≤ (k : ℤ) := by omega
    refine ⟨⟨k + 1, .returned false,
      (looped reset f d k).history ++ [.op (f k), .strategy (k + 1) (f k)]⟩, hprev.step ?_, rfl, ?_⟩
    · show (looped reset f d k).step (some (createRetryStrategy ri rdc)) reset (.op (f k)) = _
      simp only [RetryLoop.step, RetryLoop.attempt, looped, hok, Bool.false_eq_true, if_false, hlt]
      rw [createRetryStrategy_eq, if_neg (by simp [hind])]
      simp
    · rw [slept_append, hslept]
      simp [slept]

/-! ### The strategies -/

theorem createBackoffDelayCalculator_succ (scaled : Duration → ℤ → Duration) (minDelay : Duration)
    (j : ℕ) : createBackoffDelayCalculator scaled minDelay (j + 1) = .ok (scaled minDelay j) := by
  have hpos : (0 : ℤ) ≤ j + 1 := by omega
  rw [createBackoffDelayCalculator, if_pos hpos, Int.add_sub_cancel]

theorem stops_limited_iff {maxAttempts : ℤ} :
    Stops (createLimitedRetryIndicator maxAttempts) f k ↔
      isOk (f k) = true ∨ maxAttempts ≤ k + 1 := by
  simp [Stops, createLimitedRetryIndicator]

theorem stops_except_iff {unrecoverableCodes : Finset StatusCode} :
    Stops (createUnlimitedRetryIndicatorExcept unrecoverableCodes) f k ↔
      isOk (f k) = true ∨ (f k).errorCode ∈ unrecoverableCodes := by
  simp [Stops, createUnlimitedRetryIndicatorExcept]

/-- **Limited retries with backoff.** Of the first `max_attempts` results (of the first, if `max_attempts`
is not positive) the loop takes those up to the first success, all of them if there is none, and returns
whether there is one; the delay after the attempt `j`, counted from 0, is that of the exponent `j`. -/
theorem limited_retry_outcome (scaled : Duration → ℤ → Duration) (minDelay : Duration)
    (maxAttempts : ℤ) (hmax : maxAttempts ≤ intMax) (reset : Bool) (f : ℕ → Status) :
    ∃ (k : ℕ) (r : RetryLoop),
      Run (retryWithStrategy (some (createLimitedBackoffStrategy scaled minDelay maxAttempts)) reset)
        (feed f k ++ [.op (f k)]) r ∧
      r.pc = .returned (isOk (f k)) ∧
      (k : ℤ) < max 1 maxAttempts ∧ (∀ j < k, isOk (f j) = false) ∧
      (isOk (f k) = true ↔ ∃ j : ℕ, (j : ℤ) < max 1 maxAttempts ∧ isOk (f j) = true) ∧
      slept r.history = (List.range k).map fun j : ℕ => scaled minDelay j := by
  classical
  -- The bound on the attempts ends the loop, so there is a first attempt that does.
  have hlast : Stops (createLimitedRetryIndicator maxAttempts) f ((max 1 maxAttempts).toNat - 1) :=
    stops_limited_iff.mpr (.inr (by omega))
  have hex : ∃ k, Stops (createLimitedRetryIndicator maxAttempts) f k := ⟨_, hlast⟩
  obtain ⟨k, hstop, hgo, hle⟩ : ∃ k, Stops (createLimitedRetryIndicator maxAttempts) f k ∧
      (∀ j < k, ¬ Stops (createLimitedRetryIndicator maxAttempts) f j) ∧
      k ≤ (max 1 maxAttempts).toNat - 1 :=
    ⟨Nat.find hex, Nat.find_spec hex, fun j => Nat.find_min hex, Nat.find_min' hex hlast⟩
  have hlt : (k : ℤ) < max 1 maxAttempts := by omega
  have hint : (k : ℤ) < intMax := lt_of_lt_of_le hlt (max_le (by decide) hmax)
  have hfail : ∀ j < k, isOk (f j) = false := fun j hj =>
    Bool.eq_false_iff.mpr fun hok => hgo j hj (.inl hok)
  obtain ⟨r, hr, hpc, hslept⟩ :=
    run_stops (createBackoffDelayCalculator_succ scaled minDelay) hgo hstop hint
  refine ⟨k, r, hr, hpc, hlt, hfail, ⟨fun hok => ⟨k, hlt, hok⟩, ?_⟩, hslept⟩
  rintro ⟨j, hj, hok⟩
  rcases stops_limited_iff.mp hstop with hk | hk
  · exact hk
  · have hjk : j ≤ k := by omega
    rcases Nat.lt_or_eq_of_le hjk with hlt | rfl
    · rw [hfail j hlt] at hok
      cases hok
    · exact hok

/-- The third attempt is successful, the last of three that are allowed. -/
theorem limited_retry_outcome_third :
    ∃ (k : ℕ) (r : RetryLoop),
      Run (retryWithStrategy (some (createLimitedBackoffStrategy (fun d n => d * (n + 1)) 10 3)) true)
        (feed (fun j => if j = 2 then .OK else ⟨.unavailable, ""⟩) k ++
          [.op (if k = 2 then .OK else ⟨.unavailable, ""⟩)]) r ∧
      r.pc = .returned true ∧ slept r.history = [10, 20] := by
  obtain ⟨k, r, hr, hpc, hlt, -, hiff, hslept⟩ := limited_retry_outcome (fun d n => d * (n + 1)) 10 3
    (by decide) true (fun j => if j = 2 then .OK else ⟨.unavailable, ""⟩)
  have hok := hiff.mpr ⟨2, by decide, by decide⟩
  obtain rfl : k = 2 := by
    by_contra hk
    simp [hk, isOk] at hok
  exact ⟨2, r, hr, hpc, hslept⟩

/-- **Unlimited retries at a constant delay.** The loop ends with the first attempt that succeeds or fails
with an unrecoverable code. If no attempt does, the counter of the failures, an `int`, overflows: every
attempt is retried until then. -/
theorem unlimited_retry_outcome (delay : Duration) (unrecoverableCodes : Finset StatusCode)
    (reset : Bool) (f : ℕ → Status) (k : ℕ)
    (hgo : ∀ j < k, isOk (f j) = false ∧ (f j).errorCode ∉ unrecoverableCodes) :
    ((k : ℤ) < intMax → isOk (f k) = true ∨ (f k).errorCode ∈ unrecoverableCodes →
      ∃ r, Run (retryWithStrategy
          (some (createUnlimitedConstantDelayStrategyExcept delay unrecoverableCodes)) reset)
          (feed f k ++ [.op (f k)]) r ∧
        r.pc = .returned (isOk (f k)) ∧ slept r.history = List.replicate k delay) ∧
    ((k : ℤ) = intMax → isOk (f k) = false →
      ∃ r, Run (retryWithStrategy
          (some (createUnlimitedConstantDelayStrategyExcept delay unrecoverableCodes)) reset)
          (feed f k) r ∧
        slept r.history = List.replicate k delay ∧
        (retryWithStrategy
          (some (createUnlimitedConstantDelayStrategyExcept delay unrecoverableCodes)) reset).Aborts r
          (.op (f k)) .failedAttemptsOverflow) := by
  have hstops : ∀ j < k, ¬ Stops (createUnlimitedRetryIndicatorExcept unrecoverableCodes) f j := by
    intro j hj hs
    obtain ⟨hfail, hcode⟩ := hgo j hj
    rcases stops_except_iff.mp hs with hok | hmem
    · rw [hfail] at hok
      cases hok
    · exact hcode hmem
  have hd : ∀ j : ℕ, createConstantDelayCalculator delay (j + 1) = .ok delay := fun _ => rfl
  have hdelays : (List.range k).map (fun _ => delay) = List.replicate k delay := by
    rw [List.map_const', List.length_range]
  constructor
  · intro hk hstop
    obtain ⟨r, hr, hpc, hslept⟩ := run_stops hd hstops (stops_except_iff.mpr hstop) hk
    exact ⟨r, hr, hpc, hslept.trans hdelays⟩
  · intro hk hfail
    refine ⟨looped reset f (fun _ => delay) k, run_feed hd hstops (Int.le_of_eq hk), ?_, ?_⟩
    · rw [looped, slept_rounds, List.map_map]
      exact hdelays
    · show (looped reset f (fun _ => delay) k).step _ reset (.op (f k)) = _
      simp [RetryLoop.step, RetryLoop.attempt, looped, hfail, hk]

/-- The second failure is not to be retried. -/
theorem unlimited_retry_outcome_second :
    ∃ r, Run (retryWithStrategy
        (some (createUnlimitedConstantDelayStrategyExcept 5 {.notFound})) false)
        [.op ⟨.unavailable, ""⟩, .sleep, .op ⟨.notFound, ""⟩] r ∧
      r.pc = .returned false ∧ slept r.history = [5] := by
  have hend := unlimited_retry_outcome 5 {.notFound} false
    (fun j => if j = 0 then ⟨.unavailable, ""⟩ else ⟨.notFound, ""⟩) 1 (by decide)
  obtain ⟨r, hr, hpc, hslept⟩ := hend.1 (by decide) (.inr (by decide))
  exact ⟨r, hr, hpc, hslept⟩

end AsyncGrpc.Client.RetryOutcomes
