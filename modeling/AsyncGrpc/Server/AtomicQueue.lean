import AsyncGrpc.Lib.Linearizability
import AsyncGrpc.Lib.Progress
import AsyncGrpc.Server.BlockingQueue

/-! # A `BlockingQueue` is an atomic queue

`Atomic` is what a queue is for, with no lock and no waiting: every call is made at one moment, on the
values that are in the queue then. `blocking_queue_linearizable` says that the threads of a
`BlockingQueue` cannot tell it from that: whatever they do and in whatever order, there is a moment
between each call and its return at which the call took effect, and at these moments the calls and their
results are those of the atomic queue. `blocking_queue_progress` says that no thread waits in vain, and that
this needs neither timeouts nor wakeups for no reason: what the threads do comes to an end, and then only
those are left in their calls that the atomic queue would not answer. -/

namespace AsyncGrpc.Server.AtomicQueue

open AsyncGrpc.Lib.Runs AsyncGrpc.Lib.Monitors AsyncGrpc.Lib.Linearizability AsyncGrpc.Lib.Progress
open AsyncGrpc.Model.BlockingQueue AsyncGrpc.Server.BlockingQueue

variable {α ι : Type} {queueSize : ℕ}

/-- There is room for one more value; the size `kInfiniteQueueSize` stands for no bound. -/
def HasRoom (queueSize : ℕ) (q : List α) : Prop := queueSize = kInfiniteQueueSize ∨ q.length < queueSize

/-- The calls on a queue that holds `q`, with their results and what the queue holds afterwards. The two
calls with a timeout may give up, but only when the queue is full, and when it is empty. -/
inductive Atomic (queueSize : ℕ) : List α → Entry (Method α) (Return α) → List α → Prop
  | push {q : List α} {t : α} (h : HasRoom queueSize q) :
      Atomic queueSize q ⟨.push t, false, .void⟩ (q ++ [t])
  | pushWithTimeout {q : List α} {t : α} (h : HasRoom queueSize q) :
      Atomic queueSize q ⟨.pushWithTimeout t, false, .bool true⟩ (q ++ [t])
  | full {q : List α} {t : α} (h : ¬ HasRoom queueSize q) :
      Atomic queueSize q ⟨.pushWithTimeout t, true, .bool false⟩ q
  | pop {q : List α} {t : α} : Atomic queueSize (t :: q) ⟨.pop, false, .value t⟩ q
  | popWithTimeout {q : List α} {t : α} :
      Atomic queueSize (t :: q) ⟨.popWithTimeout, false, .pointer (some t)⟩ q
  | empty : Atomic queueSize [] ⟨.popWithTimeout, true, .pointer none⟩ []
  | peek {q : List α} : Atomic queueSize q ⟨.peek, false, .pointer q.head?⟩ q
  | size {q : List α} : Atomic queueSize q ⟨.size, false, .size q.length⟩ q
  | waitUntilEmpty : Atomic queueSize [] ⟨.waitUntilEmpty, false, .void⟩ []

/-- The calls `es` on the atomic queue, one after the other, leave it with `q`. -/
inductive AtomicHistory (queueSize : ℕ) : List (Entry (Method α) (Return α)) → List α → Prop
  | nil : AtomicHistory queueSize [] []
  | call {es : List (Entry (Method α) (Return α))} {q q' : List α} {e : Entry (Method α) (Return α)}
      (h : AtomicHistory queueSize es q) (ha : Atomic queueSize q e q') :
      AtomicHistory queueSize (es ++ [e]) q'

variable {deque deque' : List α} {m : Method α} {result : Return α}

theorem queueNotFullCondition_iff :
    queueNotFullCondition queueSize deque = true ↔ HasRoom queueSize deque := by
  simp [queueNotFullCondition, HasRoom]

/-- A method that has waited for its condition. -/
theorem atomic_of_body (hg : awaited queueSize m deque = true)
    (hb : body m deque = .ok (deque', result)) : Atomic queueSize deque ⟨m, false, result⟩ deque' := by
  cases m with
  | push t =>
    cases hb
    exact .push (queueNotFullCondition_iff.mp hg)
  | pushWithTimeout t =>
    cases hb
    exact .pushWithTimeout (queueNotFullCondition_iff.mp hg)
  | pop =>
    obtain ⟨⟨d, t⟩, ht, hb⟩ := bind_eq_ok.mp hb
    obtain rfl := takeFront_eq_ok ht
    cases hb
    exact .pop
  | popWithTimeout =>
    obtain ⟨⟨d, t⟩, ht, hb⟩ := bind_eq_ok.mp hb
    obtain rfl := takeFront_eq_ok ht
    cases hb
    exact .popWithTimeout
  | peek =>
    cases deque with
    | nil =>
      cases hb
      exact .peek
    | cons t deque =>
      cases hb
      exact .peek
  | size =>
    cases hb
    exact .size
  | waitUntilEmpty =>
    obtain rfl : deque = [] := by simpa [awaited, queueEmptyCondition] using hg
    cases hb
    exact .waitUntilEmpty

/-- A method whose wait has timed out. -/
theorem atomic_of_expired (hg : awaited queueSize m deque = false)
    (hk : timeoutReached m = some result) : Atomic queueSize deque ⟨m, true, result⟩ deque := by
  cases m with
  | pushWithTimeout t =>
    cases hk
    refine .full fun hroom => ?_
    rw [← queueNotFullCondition_iff] at hroom
    exact Bool.false_ne_true (hg.symm.trans hroom)
  | popWithTimeout =>
    cases hk
    obtain rfl : deque = [] := by simpa [awaited, queueEmptyCondition] using hg
    exact .empty
  | _ => cases hk

theorem atomicHistory_of_sequential {es : List (Entry (Method α) (Return α))}
    (h : Sequential (methods α queueSize) [] es deque) : AtomicHistory queueSize es deque := by
  induction h with
  | nil => exact .nil
  | ran _ hg hb ih => exact ih.call (atomic_of_body hg hb)
  | gaveUp _ hg hk ih => exact ih.call (atomic_of_expired hg hk)

variable [DecidableEq ι]

/-- **A `BlockingQueue` is linearizable.** Every run of its threads has a trace of their calls and returns
in which each call takes effect at one moment: in the order of these moments the calls are a history of
the atomic queue that ends with the values which the deque holds; every thread goes from a call of its own
to the effect of that call to its return; and what a call returns is the result that the atomic queue gave
for the same method between the call and the return. -/
theorem blocking_queue_linearizable (queueSize : ℕ) (as : List (MonitorAction (Method α) ι))
    (s : State α ι) (h : Run (blockingQueue α ι queueSize) as s) :
    ∃ T, Traced (methods α queueSize) ι [] as T s ∧
      AtomicHistory queueSize (sections T) s.shared ∧
      (∀ t, Performs t .outside (ofThread t T) (phaseOf (s.threads t))) ∧
      ∀ t m result T₁ T₂ T₃, T = T₁ ++ .called t m :: (T₂ ++ .returned t result :: T₃) →
        (∀ result', .returned t result' ∉ T₂) →
        ∃ e, .took t e ∈ T₂ ∧ e.method = m ∧ e.result = result := by
  obtain ⟨T, hT⟩ := traced_of_run h
  have hlin := linearized_of_traced hT
  have hseq : Sequential (methods α queueSize) [] s.log s.shared := sequential_of_reachable h.reachable
  refine ⟨T, hT, ?_, hlin.performs, ?_⟩
  · rw [hlin.log]
    exact atomicHistory_of_sequential hseq
  · rintro t m result T₁ T₂ T₃ rfl hno
    exact took_between hlin hno

/-- `Pop` is called on the empty queue, sleeps, and returns what is pushed meanwhile. -/
theorem blocking_queue_linearizable_overlap :
    ∃ s : State ℕ Bool, s.shared = [] ∧ s.log = [⟨.push 5, false, .void⟩, ⟨.pop, false, .value 5⟩] ∧
      ∃ T, Traced (methods ℕ 1) Bool [] [.call true .pop, .enter true, .call false (.push 5),
          .enter false, .notifyAll false, .enter true, .notifyAll true] T s ∧
        AtomicHistory 1 (sections T) s.shared := by
  obtain ⟨s, hr, hp⟩ := exists_run (blockingQueue ℕ Bool 1)
    [.call true .pop, .enter true, .call false (.push 5), .enter false, .notifyAll false, .enter true,
      .notifyAll true]
    (fun s : State ℕ Bool => decide (s.shared = [] ∧
      s.log = [⟨.push 5, false, .void⟩, ⟨.pop, false, .value 5⟩])) (by decide)
  obtain ⟨hs, hlog⟩ := of_decide_eq_true hp
  obtain ⟨T, hT, hH, -⟩ := blocking_queue_linearizable 1 _ s hr
  exact ⟨s, hs, hlog, T, hT, hH⟩

/-! ### Progress -/

/-- The thread `t` can return from `m` within three steps, in which no method is called, no wait times out
and nobody wakes up without a notification, with the effect and the result that the atomic queue has
now. -/
def CanReturn (queueSize : ℕ) (pre : List (MonitorAction (Method α) ι)) (s : State α ι) (t : ι)
    (m : Method α) : Prop :=
  ∃ as s' e, Run (blockingQueue α ι queueSize) (pre ++ as) s' ∧ (∀ a ∈ as, isWork a = true) ∧
    as.length ≤ 3 ∧ s'.threads t = .outside ∧ e.method = m ∧ s'.log = s.log ++ [e] ∧
    Atomic queueSize s.shared e s'.shared

/-- The method pushes. -/
def isPush : Method α → Bool
  | .push _ | .pushWithTimeout _ => true
  | _ => false

/-- The method pops. -/
def isPop : Method α → Bool
  | .pop | .popWithTimeout => true
  | _ => false

variable {pre : List (MonitorAction (Method α) ι)} {s : State α ι}

theorem canReturn_of_awaited (hr : Run (blockingQueue α ι queueSize) pre s) {t : ι}
    (ht : phaseOf (s.threads t) = .pending m) (hg : awaited queueSize m s.shared = true) :
    CanReturn queueSize pre s t m := by
  cases hb : body m s.shared with
  | error e => exact absurd hb (body_ne_error hg)
  | ok p =>
    obtain ⟨deque, result⟩ := p
    obtain ⟨as, s', hrun, hwork, hlen, hout, hshared, hlog⟩ :=
      can_return (M := methods α queueSize) hr ht hg hb
    exact ⟨as, s', _, hrun, hwork, hlen, hout, rfl, hlog, hshared ▸ atomic_of_body hg hb⟩

/-- A queue that is full is not empty. -/
theorem awaited_push_or_pop {m m' : Method α} (hm : isPush m = true) (hm' : isPop m' = true)
    (deque : List α) : awaited queueSize m deque = true ∨ awaited queueSize m' deque = true := by
  have hpush : awaited queueSize m deque = queueNotFullCondition queueSize deque := by
    cases m <;> first | rfl | cases hm
  have hpop : awaited queueSize m' deque = !queueEmptyCondition deque := by
    cases m' <;> first | rfl | cases hm'
  rw [hpush, hpop, queueNotFullCondition_iff]
  cases deque with
  | nil =>
    refine .inl ?_
    rcases Nat.eq_zero_or_pos queueSize with h | h
    · exact .inl h
    · exact .inr h
  | cons x deque => exact .inr rfl

/-- **No thread waits in vain.** Take any state of any run of `n` threads, and let no method be called, no
wait time out and nobody wake up without a notification from then on. A call whose condition holds can
return within three steps, even if its thread sleeps. In whatever order the threads go on, they make at most
`n * (n + 2)` steps; and when none can go on, every thread that is still in a call sleeps and its condition
does not hold, so that there is no thread in a push together with one in a pop. -/
theorem blocking_queue_progress [Fintype ι] (queueSize : ℕ) (pre : List (MonitorAction (Method α) ι))
    (s : State α ι) (hr : Run (blockingQueue α ι queueSize) pre s) :
    (∀ t m, phaseOf (s.threads t) = .pending m → awaited queueSize m s.shared = true →
      CanReturn queueSize pre s t m) ∧
    ∀ as s', Run (blockingQueue α ι queueSize) (pre ++ as) s' → (∀ a ∈ as, isWork a = true) →
      as.length ≤ Fintype.card ι * (Fintype.card ι + 2) ∧
      ((∀ a, isWork a = true → (blockingQueue α ι queueSize).step s' a = none) →
        (∀ t, s'.threads t = .outside ∨
          ∃ m, s'.threads t = .asleep m ∧ awaited queueSize m s'.shared = false) ∧
        ∀ t m t' m', s'.threads t = .asleep m → s'.threads t' = .asleep m' → isPush m = true →
          isPop m' = false) := by
  refine ⟨fun t m ht hg => canReturn_of_awaited hr ht hg, fun as s' hr' hwork => ⟨?_, fun hsettled => ?_⟩⟩
  · exact length_work_le hr hr' hwork
  · have hleft := asleep_of_settled (M := methods α queueSize) hr'.reachable hsettled
    have hfalse {t : ι} {m : Method α} (ht : s'.threads t = .asleep m) :
        awaited queueSize m s'.shared = false := by
      rcases hleft t with hout | ⟨m', hm', hg⟩
      · cases hout.symm.trans ht
      · cases hm'.symm.trans ht
        exact hg
    refine ⟨hleft, fun t m t' m' ht ht' hpush => Bool.eq_false_iff.mpr fun hpop => ?_⟩
    rcases awaited_push_or_pop hpush hpop s'.shared with hg | hg
    · cases (hfalse ht).symm.trans hg
    · cases (hfalse ht').symm.trans hg

/-- A value was pushed while `Pop` slept, and the notification is under way. -/
def pushedMeanwhile : List (MonitorAction (Method ℕ) Bool) :=
  [.call true .pop, .enter true, .call false (.push 5), .enter false]

/-- The `Pop` that sleeps can return, and the threads come to rest within eight steps. -/
theorem blocking_queue_progress_sleeping : ∃ s s' : State ℕ Bool,
    Run (blockingQueue ℕ Bool 1) pushedMeanwhile s ∧ s.threads true = .asleep .pop ∧
      CanReturn 1 pushedMeanwhile s true .pop ∧
      Run (blockingQueue ℕ Bool 1)
        (pushedMeanwhile ++ [.notifyAll false, .enter true, .notifyAll true]) s' ∧
      (∀ t, s'.threads t = .outside ∨
        ∃ m, s'.threads t = .asleep m ∧ awaited 1 m s'.shared = false) := by
  obtain ⟨s, hr, hp⟩ := exists_run (blockingQueue ℕ Bool 1) pushedMeanwhile
    (fun s : State ℕ Bool => decide (s.threads true = .asleep .pop ∧ s.shared = [5])) (by decide)
  obtain ⟨ht, hs⟩ := of_decide_eq_true hp
  obtain ⟨s', hr', hp'⟩ := exists_run (blockingQueue ℕ Bool 1)
    (pushedMeanwhile ++ [.notifyAll false, .enter true, .notifyAll true])
    (fun s : State ℕ Bool => decide (s.threads true = .outside ∧ s.threads false = .outside)) (by decide)
  obtain ⟨hreturn, hwork⟩ := blocking_queue_progress 1 _ s hr
  refine ⟨s, s', hr, ht, hreturn true .pop (by rw [ht]; rfl) (by rw [hs]; rfl), hr', ?_⟩
  refine ((hwork _ s' hr' (by simp [isWork])).2 fun a ha => ?_).1
  have hout (t : Bool) : s'.threads t = .outside := by
    cases t
    · exact (of_decide_eq_true hp').2
    · exact (of_decide_eq_true hp').1
  show MonitorState.step (methods ℕ 1) s' a = none
  cases a with
  | enter t => simp [MonitorState.step, hout]
  | reenter t => simp [MonitorState.step, hout]
  | notifyAll t => simp [MonitorState.step, hout]
  | _ => cases ha

end AsyncGrpc.Server.AtomicQueue
