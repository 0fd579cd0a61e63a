import AsyncGrpc.Lib.Monitors

/-! # `BlockingQueue`

The methods of `blocking_queue.h` as those of a monitor: each takes `mutex_` through a `MutexLocker`,
awaits its condition on the one condition variable of the mutex, and works on `deque_`. The destructor of
the `MutexLocker` unlocks and then notifies all. A `size_t` is a natural number, `α` stands for `T`, and
the null pointer that `PopWithTimeout` and `Peek` return is `none`. -/

namespace AsyncGrpc.Model.BlockingQueue

open AsyncGrpc.Lib.Runs AsyncGrpc.Lib.Monitors

variable {α : Type}

/-- `front` and `pop_front` of an empty deque are undefined. -/
inductive QueueFatal
  | frontOfEmptyDeque
  | popFrontOfEmptyDeque
  deriving DecidableEq, Repr

/-- `std::deque::front`. -/
def front : List α → Except QueueFatal α
  | [] => .error .frontOfEmptyDeque
  | t :: _ => .ok t

/-- `std::deque::pop_front`. -/
def popFront : List α → Except QueueFatal (List α)
  | [] => .error .popFrontOfEmptyDeque
  | _ :: deque => .ok deque

/-- The methods. -/
inductive Method (α : Type)
  | push (t : α)
  | pushWithTimeout (t : α)
  | pop
  | popWithTimeout
  | peek
  | size
  | waitUntilEmpty
  deriving DecidableEq, Repr

/-- What the methods return. -/
inductive Return (α : Type)
  | void
  | bool (pushed : Bool)
  | value (t : α)
  | pointer (t : Option α)
  | size (n : ℕ)
  deriving DecidableEq, Repr

/-- `kInfiniteQueueSize`. -/
def kInfiniteQueueSize : ℕ := 0

/-- `QueueEmptyCondition`. -/
def queueEmptyCondition (deque : List α) : Bool := deque.isEmpty

/-- `QueueNotFullCondition`. -/
def queueNotFullCondition (queueSize : ℕ) (deque : List α) : Bool :=
  queueSize = kInfiniteQueueSize || deque.length < queueSize

/-- The condition that a method awaits; `Peek` and `Size` await none. -/
def awaited (queueSize : ℕ) : Method α → List α → Bool
  | .push _, deque | .pushWithTimeout _, deque => queueNotFullCondition queueSize deque
  | .pop, deque | .popWithTimeout, deque => !queueEmptyCondition deque
  | .peek, _ | .size, _ => true
  | .waitUntilEmpty, deque => queueEmptyCondition deque

/-- What `Pop` and `PopWithTimeout` do after the wait. -/
def takeFront (deque : List α) : Except QueueFatal (List α × α) := do
  let t ← front deque
  let deque ← popFront deque
  return (deque, t)

/-- What a method does after the wait. -/
def body : Method α → List α → Except QueueFatal (List α × Return α)
  | .push t, deque => .ok (deque ++ [t], .void)
  | .pushWithTimeout t, deque => .ok (deque ++ [t], .bool true)
  | .pop, deque => do
    let (deque, t) ← takeFront deque
    return (deque, .value t)
  | .popWithTimeout, deque => do
    let (deque, t) ← takeFront deque
    return (deque, .pointer (some t))
  | .peek, deque =>
    if deque.isEmpty then .ok (deque, .pointer none)
    else do
      let t ← front deque
      return (deque, .pointer (some t))
  | .size, deque => .ok (deque, .size deque.length)
  | .waitUntilEmpty, deque => .ok (deque, .void)

/-- What the two methods with a timeout return when it is reached. -/
def timeoutReached : Method α → Option (Return α)
  | .pushWithTimeout _ => some (.bool false)
  | .popWithTimeout => some (.pointer none)
  | _ => none

/-- The methods of a queue of the size `queueSize`. -/
def methods (α : Type) (queueSize : ℕ) : Monitor (List α) (Method α) (Return α) QueueFatal where
  guard := awaited queueSize
  body := body
  expired := timeoutReached

/-- A `BlockingQueue` that is used by the threads `ι`. -/
abbrev State (α ι : Type) := MonitorState (List α) (Method α) (Return α) ι

/-- The runs of a `BlockingQueue`. -/
def blockingQueue (α ι : Type) [DecidableEq ι] (queueSize : ℕ) :
    Machine (State α ι) (MonitorAction (Method α) ι) QueueFatal :=
  (methods α queueSize).machine ι []

end AsyncGrpc.Model.BlockingQueue
