import AsyncGrpc.Lib.Monitors
import AsyncGrpc.Model.Retry

/-! # `Server::SelectNextEventQueueRoundRobin`

In `Model.Threads` the selector is a function of the number of earlier calls. Here it is what the code
does: `current_event_queue_id_` is an `int` that is reduced modulo a `size_t`, under
`current_event_queue_id_lock_`, and then used as an index. The threads that call it, for whichever
service, are those of a monitor whose only method waits for nothing. -/

namespace AsyncGrpc.Model.RoundRobin

open AsyncGrpc.Lib.Runs AsyncGrpc.Lib.Monitors AsyncGrpc.Model.Retry

/-- What the function can fail with: the addition overflows, the modulus is zero, or `at` throws. -/
inductive SelectFatal
  | idOverflow
  | noEventThreads
  | outOfRange
  deriving DecidableEq, Repr

/-- An `int` as a `size_t`, of 64 bits. -/
def toSize (i : ℤ) : ℕ := (i % 18446744073709551616).toNat

/-- A `size_t` as an `int`, of 32 bits. -/
def toInt (n : ℕ) : ℤ := Int.bmod n 4294967296

/-- `event_queue_threads_.at(i).event_queue()`, where the vector has the given size. -/
def eventQueueAt (size i : ℕ) : Except SelectFatal ℕ := if i < size then .ok i else .error .outOfRange

/-- `Server::SelectNextEventQueueRoundRobin`: the new id and the number of the queue. The constructor of
`Server` has made `event_queue_threads_` a vector of the size `num_event_threads`. -/
def selectNextEventQueueRoundRobin (numEventThreads : ℕ) (currentEventQueueId : ℤ) :
    Except SelectFatal (ℤ × ℕ) := do
  if intMax ≤ currentEventQueueId then throw .idOverflow
  if numEventThreads = 0 then throw .noEventThreads
  let currentEventQueueId := toInt (toSize (currentEventQueueId + 1) % numEventThreads)
  let q ← eventQueueAt numEventThreads (toSize currentEventQueueId)
  return (currentEventQueueId, q)

/-- The only method, called for a service. -/
def methods (numEventThreads : ℕ) : Monitor ℤ ℕ ℕ SelectFatal where
  guard := fun _ _ => true
  body := fun _ currentEventQueueId =>
    selectNextEventQueueRoundRobin numEventThreads currentEventQueueId
  expired := fun _ => none

/-- The selection of event queues by the threads `ι`. -/
abbrev State (ι : Type) := MonitorState ℤ ℕ ℕ ι

/-- The runs of the threads that select event queues. -/
def selection (ι : Type) [DecidableEq ι] (numEventThreads : ℕ) :
    Machine (State ι) (MonitorAction ℕ ι) SelectFatal :=
  (methods numEventThreads).machine ι 0

end AsyncGrpc.Model.RoundRobin
