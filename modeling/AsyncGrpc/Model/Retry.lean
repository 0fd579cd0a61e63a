import AsyncGrpc.Lib.Runs
import AsyncGrpc.Model.Types
import Mathlib.Data.Finset.Insert

/-! # Retries: the strategies of `retry.cc` and `RetryWithStrategy`

A strategy is a function of the number of failed attempts and of the status of the last one; it gives
the delay after which to try again, or nothing. An `int` is an integer, and to count beyond its
range is an error, as a failed `CHECK` is.

`RetryWithStrategy` is a machine with two steps, the two halves of the body of its loop: an attempt
with all that is decided from its status, and the delay with the reset after it. The status that `op`
returns is chosen by the environment. `history` records, oldest first, the calls that the loop makes;
no function of the model reads it. -/

namespace AsyncGrpc.Model.Retry

open AsyncGrpc.Lib.Runs AsyncGrpc.Model.Types

/-- `common::Duration`, in ticks of 100 nanoseconds. -/
abbrev Duration := ℤ

/-- `::grpc::Status::ok`. -/
def isOk (status : Status) : Bool := status.errorCode = .ok

/-- What ends the process: `++failed_attemps` at the end of the range of `int`, and the `CHECK_GE` of
the delay calculator with backoff. -/
inductive RetryFatal
  | failedAttemptsOverflow
  | backoffFailedAttempts
  deriving DecidableEq, Repr

/-! ### Strategies -/

/-- `RetryStrategy`, when it is not empty. -/
abbrev RetryStrategy := ℤ → Status → Except RetryFatal (Option Duration)

/-- `RetryIndicator`. -/
abbrev RetryIndicator := ℤ → Status → Bool

/-- `RetryDelayCalculator`. -/
abbrev RetryDelayCalculator := ℤ → Except RetryFatal Duration

/-- `CreateRetryStrategy`. -/
def createRetryStrategy (retryIndicator : RetryIndicator)
    (retryDelayCalculator : RetryDelayCalculator) : RetryStrategy := fun failedAttempts status => do
  if !retryIndicator failedAttempts status then return none
  return some (← retryDelayCalculator failedAttempts)

/-- `CreateLimitedRetryIndicator`. -/
def createLimitedRetryIndicator (maxAttempts : ℤ) : RetryIndicator := fun failedAttempts _ =>
  failedAttempts < maxAttempts

/-- `CreateUnlimitedRetryIndicator`. -/
def createUnlimitedRetryIndicator : RetryIndicator := fun _ _ => true

/-- `CreateUnlimitedRetryIndicator` with a set of unrecoverable codes. -/
def createUnlimitedRetryIndicatorExcept (unrecoverableCodes : Finset StatusCode) : RetryIndicator :=
  fun _ status => status.errorCode ∉ unrecoverableCodes

/-- `CreateBackoffDelayCalculator`; `scaled minDelay n` is the duration
`FromSeconds(std::pow(backoff_factor, n) * ToSeconds(min_delay))` of floating-point arithmetic. -/
def createBackoffDelayCalculator (scaled : Duration → ℤ → Duration) (minDelay : Duration) :
    RetryDelayCalculator := fun failedAttempts =>
  if 0 ≤ failedAttempts then .ok (scaled minDelay (failedAttempts - 1))
  else .error .backoffFailedAttempts

/-- `CreateConstantDelayCalculator`. -/
def createConstantDelayCalculator (delay : Duration) : RetryDelayCalculator := fun _ => .ok delay

/-- `CreateLimitedBackoffStrategy`. -/
def createLimitedBackoffStrategy (scaled : Duration → ℤ → Duration) (minDelay : Duration)
    (maxAttempts : ℤ) : RetryStrategy :=
  createRetryStrategy (createLimitedRetryIndicator maxAttempts)
    (createBackoffDelayCalculator scaled minDelay)

/-- `CreateUnlimitedConstantDelayStrategy`. -/
def createUnlimitedConstantDelayStrategy (delay : Duration) : RetryStrategy :=
  createRetryStrategy createUnlimitedRetryIndicator (createConstantDelayCalculator delay)

/-- `CreateUnlimitedConstantDelayStrategy` with a set of unrecoverable codes. -/
def createUnlimitedConstantDelayStrategyExcept (delay : Duration)
    (unrecoverableCodes : Finset StatusCode) : RetryStrategy :=
  createRetryStrategy (createUnlimitedRetryIndicatorExcept unrecoverableCodes)
    (createConstantDelayCalculator delay)

/-! ### `RetryWithStrategy` -/

/-- The largest `int`. -/
def intMax : ℤ := 2147483647

/-- The calls that `RetryWithStrategy` makes. -/
inductive RetryCall
  | op (status : Status)
  | strategy (failedAttempts : ℤ) (status : Status)
  | sleep (delay : Duration)
  | reset
  deriving DecidableEq, Repr

/-- Where `RetryWithStrategy` stands: before `op`, before the delay that the strategy gave, or at
its end. -/
inductive RetryPc
  | op
  | sleep (delay : Duration)
  | returned (result : Bool)
  deriving DecidableEq, Repr

/-- A call of `RetryWithStrategy`. -/
structure RetryLoop where
  failedAttempts : ℤ
  pc : RetryPc
  history : List RetryCall
  deriving DecidableEq, Repr

/-- A call that has just begun. -/
def RetryLoop.begin : RetryLoop := ⟨0, .op, []⟩

/-- The loop body up to the delay, when `op` returns `status`. -/
def RetryLoop.attempt (retryStrategy : Option RetryStrategy) (status : Status) (r : RetryLoop) :
    Except RetryFatal RetryLoop :=
  let r : RetryLoop := { r with history := r.history ++ [.op status] }
  if isOk status then .ok { r with pc := .returned true }
  else
    match retryStrategy with
    | none => .ok { r with pc := .returned false }
    | some strategy =>
      if intMax ≤ r.failedAttempts then .error .failedAttemptsOverflow
      else do
        let failedAttempts := r.failedAttempts + 1
        let delay ← strategy failedAttempts status
        return {
          failedAttempts := failedAttempts
          pc := delay.elim (.returned false) .sleep
          history := r.history ++ [.strategy failedAttempts status] }

/-- The rest of the loop body; `reset` tells whether a `reset` is given. -/
def RetryLoop.delayed (reset : Bool) (delay : Duration) (r : RetryLoop) : RetryLoop :=
  { r with
    pc := .op
    history := r.history ++ .sleep delay :: if reset then [.reset] else [] }

/-- The steps of `RetryWithStrategy`. -/
inductive RetryAction
  | op (status : Status)
  | sleep
  deriving DecidableEq, Repr

/-- The step function of `RetryWithStrategy`. -/
def RetryLoop.step (retryStrategy : Option RetryStrategy) (reset : Bool) (r : RetryLoop) :
    RetryAction → Option (Except RetryFatal RetryLoop)
  | .op status =>
    match r.pc with
    | .op => some (r.attempt retryStrategy status)
    | _ => none
  | .sleep =>
    match r.pc with
    | .sleep delay => some (.ok (r.delayed reset delay))
    | _ => none

/-- `RetryWithStrategy`. -/
def retryWithStrategy (retryStrategy : Option RetryStrategy) (reset : Bool) :
    Machine RetryLoop RetryAction RetryFatal where
  init := .begin
  step := RetryLoop.step retryStrategy reset

end AsyncGrpc.Model.Retry
