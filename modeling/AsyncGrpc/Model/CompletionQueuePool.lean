import AsyncGrpc.Lib.Runs

/-! # `CompletionQueuePool`: the completion queues of all clients

The functions of `completion_queue_pool.cc`, and the pool as a machine that any threads call: every
section under `mutex_` and every access to `completion_queues_` or `initialized_` outside of it is one
step. `GetCompletionQueue` is three steps (`Initialize`, `size()`, `at(qid)`), and so it has two points
at which other threads may come between.

`τ` is where the thread of a completion queue stands; here nothing depends on it. -/

namespace AsyncGrpc.Model.CompletionQueuePool

open AsyncGrpc.Lib.Runs

variable {τ ι : Type}

/-- What ends the process: the `CHECK`s, a modulo by zero, and the exception of `at`. -/
inductive PoolFatal
  | alreadyStarted
  | notYetStarted
  | moduloByZero
  | outOfRange
  | afterInitialization
  | notPositive
  deriving DecidableEq, Repr

/-! ### `CompletionQueue` -/

/-- `CompletionQueue`: its address, `thread_`, and whether the queue was shut down. -/
structure CompletionQueue (τ : Type) where
  address : ℕ
  thread : Option τ
  shutDown : Bool
  deriving DecidableEq, Repr

/-- `CompletionQueue::Start`; the thread begins at `t`. -/
def CompletionQueue.start (t : τ) (q : CompletionQueue τ) : Except PoolFatal (CompletionQueue τ) :=
  if q.thread.isSome then .error .alreadyStarted else .ok { q with thread := some t }

/-- `CompletionQueue::Shutdown`, up to the join. -/
def CompletionQueue.shutdown (q : CompletionQueue τ) : Except PoolFatal (CompletionQueue τ) :=
  if q.thread.isSome then .ok { q with shutDown := true } else .error .notYetStarted

/-! ### `CompletionQueuePool` -/

/-- `kDefaultNumberCompletionQueues`. -/
def kDefaultNumberCompletionQueues : ℕ := 2

/-- The members of the pool. `constructed` counts the completion queues, for their addresses. -/
structure Pool (τ : Type) where
  initialized : Bool
  numberCompletionQueues : ℕ
  completionQueues : List (CompletionQueue τ)
  constructed : ℕ

/-- The constructor. -/
def Pool.construct : Pool τ := ⟨false, kDefaultNumberCompletionQueues, [], 0⟩

/-- `completion_queues_.resize(number_completion_queues_)`. -/
def Pool.resize (p : Pool τ) : Pool τ :=
  let more := p.numberCompletionQueues - p.completionQueues.length
  { p with
    completionQueues := p.completionQueues.take p.numberCompletionQueues ++
      (List.range more).map fun k => ⟨p.constructed + k, none, false⟩
    constructed := p.constructed + more }

/-- `Initialize`, with `mutex_` held; the threads begin at `t`. -/
def Pool.initializeQueues (t : τ) (p : Pool τ) : Except PoolFatal (Pool τ) := do
  if p.initialized then return p
  let p := p.resize
  let queues ← p.completionQueues.mapM (CompletionQueue.start t)
  return { p with completionQueues := queues, initialized := true }

/-- `rand() % completion_queues_.size()`. -/
def Pool.selectQueue (rand : ℕ) (p : Pool τ) : Except PoolFatal ℕ :=
  if p.completionQueues.length = 0 then .error .moduloByZero
  else .ok (rand % p.completionQueues.length)

/-- `completion_queues_.at(qid).completion_queue()`. -/
def Pool.queueAt (qid : ℕ) (p : Pool τ) : Except PoolFatal ℕ :=
  match p.completionQueues[qid]? with
  | some q => .ok q.address
  | none => .error .outOfRange

/-- The `CHECK`s of `SetNumberCompletionQueues`. -/
def Pool.checkSetNumber (number : ℕ) (p : Pool τ) : Except PoolFatal Unit :=
  if p.initialized then .error .afterInitialization
  else if number = 0 then .error .notPositive
  else .ok ()

/-- The assignment in `SetNumberCompletionQueues`. -/
def Pool.setNumber (number : ℕ) (p : Pool τ) : Pool τ := { p with numberCompletionQueues := number }

/-- `completion_queues_.clear(); initialized_ = false`. -/
def Pool.clear (p : Pool τ) : Pool τ := { p with completionQueues := [], initialized := false }

/-- `Shutdown` as one section: every queue is shut down and its thread joined. -/
def Pool.shutdown (p : Pool τ) : Except PoolFatal (Pool τ) := do
  let _ ← p.completionQueues.mapM CompletionQueue.shutdown
  return p.clear

/-! ### The machine -/

/-- Where a thread stands in a call of the pool: before `size()` or `at(qid)` in
`GetCompletionQueue`, or before the assignment in `SetNumberCompletionQueues`. -/
inductive PoolCall
  | idle
  | getSize
  | getAt (qid : ℕ)
  | setNumber (number : ℕ)
  deriving DecidableEq, Repr

/-- The pool and the threads `ι` that call it. -/
structure PoolState (ι : Type) where
  pool : Pool Unit
  calls : ι → PoolCall

/-- The steps of the thread `i`. -/
inductive PoolAction (ι : Type)
  | start (i : ι)
  | getInitialize (i : ι)
  | getSize (i : ι) (rand : ℕ)
  | getAt (i : ι)
  | checkSetNumber (i : ι) (number : ℕ)
  | setNumber (i : ι)
  | shutdown (i : ι)

/-- The thread `i` moves on, with the pool as it leaves it. -/
def PoolState.proceed [DecidableEq ι] (i : ι) (call : PoolCall) (s : PoolState ι) (p : Pool Unit) :
    PoolState ι :=
  ⟨p, Function.update s.calls i call⟩

/-- The step function of the pool. -/
def stepPool [DecidableEq ι] (s : PoolState ι) : PoolAction ι → Option (Except PoolFatal (PoolState ι))
  | .start i =>
    if s.calls i = .idle then some ((s.proceed i .idle ·) <$> s.pool.initializeQueues ()) else none
  | .getInitialize i =>
    if s.calls i = .idle then some ((s.proceed i .getSize ·) <$> s.pool.initializeQueues ()) else none
  | .getSize i rand =>
    if s.calls i = .getSize then
      some ((fun qid => s.proceed i (.getAt qid) s.pool) <$> s.pool.selectQueue rand)
    else none
  | .getAt i =>
    match s.calls i with
    | .getAt qid => some ((fun _ => s.proceed i .idle s.pool) <$> s.pool.queueAt qid)
    | _ => none
  | .checkSetNumber i number =>
    if s.calls i = .idle then
      some ((fun _ => s.proceed i (.setNumber number) s.pool) <$> s.pool.checkSetNumber number)
    else none
  | .setNumber i =>
    match s.calls i with
    | .setNumber number => some (.ok (s.proceed i .idle (s.pool.setNumber number)))
    | _ => none
  | .shutdown i =>
    if s.calls i = .idle then some ((s.proceed i .idle ·) <$> s.pool.shutdown) else none

/-- The pool that the threads `ι` share. -/
def poolMachine (ι : Type) [DecidableEq ι] : Machine (PoolState ι) (PoolAction ι) PoolFatal where
  init := ⟨.construct, fun _ => .idle⟩
  step := stepPool

end AsyncGrpc.Model.CompletionQueuePool
