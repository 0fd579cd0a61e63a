import AsyncGrpc.Model.BlockingQueue
import Mathlib.Tactic.Common

/-! # What a `BlockingQueue` guarantees to its threads

* `blocking_queue_no_lost_wakeup`: a thread sleeps in vain only while another one is about to notify.
* `blocking_queue_fifo`: the values come out in the order in which they went in, none is lost or
  duplicated, a bounded queue keeps its bound, and a method that times out changes nothing. -/

namespace AsyncGrpc.Server.BlockingQueue

open AsyncGrpc.Lib.Runs AsyncGrpc.Lib.Monitors AsyncGrpc.Model.BlockingQueue

variable {α ι : Type} [DecidableEq ι] {queueSize : ℕ}

/-! ### Wakeups -/

/-- **No wakeup is lost.** When no thread is between its unlock and its `notify_all`, every thread that
sleeps waits for a condition that does not hold. -/
theorem blocking_queue_no_lost_wakeup (queueSize : ℕ) (s : State α ι)
    (h : Reachable (blockingQueue α ι queueSize) s)
    (hn : ∀ t m result, s.threads t ≠ .leaving m result) (t : ι) (m : Method α)
    (ht : s.threads t = .asleep m) : awaited queueSize m s.shared = false := by
  refine quiet_of_reachable h ?_ t m ht
  rintro ⟨t', m', result, ht'⟩
  exact hn t' m' result ht'

/-- A thread sleeps in `Pop` after the other one has taken the value that woke both. -/
theorem blocking_queue_no_lost_wakeup_pop :
    ∃ s : State ℕ Bool, Reachable (blockingQueue ℕ Bool 2) s ∧ s.threads false = .asleep .pop ∧
      awaited 2 (.pop : Method ℕ) s.shared = false := by
  obtain ⟨s, hr, hp⟩ := exists_run (blockingQueue ℕ Bool 2)
    [.call true .pop, .enter true, .call false (.push 5), .enter false, .notifyAll false,
      .enter true, .call false .pop, .enter false, .notifyAll true, .enter false]
    (fun s : State ℕ Bool => decide (s.threads false = .asleep .pop ∧ s.threads true = .outside))
    (by decide)
  obtain ⟨h0, h1⟩ := of_decide_eq_true hp
  have hn : ∀ t m result, s.threads t ≠ .leaving m result := by
    intro t m result
    cases t <;> simp [h0, h1]
  exact ⟨s, hr.reachable, h0, blocking_queue_no_lost_wakeup 2 s hr.reachable hn false .pop h0⟩

/-! ### Values -/

/-- The value that a section pushed. -/
def pushedValue (e : Entry (Method α) (Return α)) : Option α :=
  match e.method with
  | .push t => some t
  | .pushWithTimeout t => if e.timedOut then none else some t
  | _ => none

/-- The value that a section popped. -/
def poppedValue (e : Entry (Method α) (Return α)) : Option α :=
  match e.method, e.result with
  | .pop, .value t => some t
  | .popWithTimeout, .pointer t => t
  | _, _ => none

/-- The values pushed by the sections, in their order. -/
def pushed (es : List (Entry (Method α) (Return α))) : List α := es.filterMap pushedValue

/-- The values popped by the sections, in their order. -/
def popped (es : List (Entry (Method α) (Return α))) : List α := es.filterMap poppedValue

variable {es : List (Entry (Method α) (Return α))} {deque deque' : List α} {t : α}

theorem pushed_snoc (e : Entry (Method α) (Return α)) :
    pushed (es ++ [e]) = pushed es ++ (pushedValue e).toList := by
  cases he : pushedValue e <;> simp [pushed, he]

theorem popped_snoc (e : Entry (Method α) (Return α)) :
    popped (es ++ [e]) = popped es ++ (poppedValue e).toList := by
  cases he : poppedValue e <;> simp [popped, he]

theorem takeFront_eq_ok (h : takeFront deque = .ok (deque', t)) : deque = t :: deque' := by
  cases deque with
  | nil => cases h
  | cons x xs =>
    cases h
    rfl

/-- What a body does to the values, whatever the method. -/
theorem body_values {m : Method α} {result : Return α} (h : body m deque = .ok (deque', result)) :
    (poppedValue ⟨m, false, result⟩).toList ++ deque' =
      deque ++ (pushedValue ⟨m, false, result⟩).toList := by
  cases m with
  | push t => cases h; rfl
  | pushWithTimeout t => cases h; rfl
  | pop =>
    obtain ⟨⟨d, t⟩, ht, h⟩ := bind_eq_ok.mp h
    obtain rfl := takeFront_eq_ok ht
    cases h
    simp [poppedValue, pushedValue]
  | popWithTimeout =>
    obtain ⟨⟨d, t⟩, ht, h⟩ := bind_eq_ok.mp h
    obtain rfl := takeFront_eq_ok ht
    cases h
    simp [poppedValue, pushedValue]
  | peek =>
    obtain rfl : deque' = deque := by
      cases deque <;> cases h <;> rfl
    simp [poppedValue, pushedValue]
  | size => cases h; simp [poppedValue, pushedValue]
  | waitUntilEmpty => cases h; simp [poppedValue, pushedValue]

theorem expired_values {m : Method α} {result : Return α} (h : timeoutReached m = some result) :
    poppedValue ⟨m, true, result⟩ = none ∧ pushedValue ⟨m, true, result⟩ = none := by
  cases m <;> cases h <;> exact ⟨rfl, rfl⟩

/-- The values that came out and those that are left are the values that went in. -/
theorem values_of_sequential (h : Sequential (methods α queueSize) [] es deque) :
    popped es ++ deque = pushed es := by
  induction h with
  | nil => rfl
  | ran _ _ hb ih => rw [popped_snoc, pushed_snoc, List.append_assoc, body_values hb, ← ih,
      List.append_assoc]
  | gaveUp _ _ hk ih =>
    obtain ⟨hpop, hpush⟩ := expired_values hk
    simpa [popped_snoc, pushed_snoc, hpop, hpush] using ih

/-! ### The bound -/

theorem length_of_body {m : Method α} {result : Return α} (hg : awaited queueSize m deque = true)
    (hb : body m deque = .ok (deque', result)) (hpos : 0 < queueSize)
    (hle : deque.length ≤ queueSize) : deque'.length ≤ queueSize := by
  have hlen := congrArg List.length (body_values hb)
  have hroom {t : α} (hm : m = .push t ∨ m = .pushWithTimeout t) : deque.length < queueSize := by
    have hfull : queueNotFullCondition queueSize deque = true := by
      rcases hm with rfl | rfl <;> exact hg
    simpa [queueNotFullCondition, kInfiniteQueueSize, Nat.pos_iff_ne_zero.mp hpos] using hfull
  cases m with
  | push t =>
    have hlt := hroom (.inl rfl)
    cases hb
    simp
    omega
  | pushWithTimeout t =>
    have hlt := hroom (.inr rfl)
    cases hb
    simp
    omega
  | _ =>
    simp only [pushedValue, List.length_append, Option.toList_none, List.length_nil] at hlen
    omega

theorem length_of_sequential (hpos : 0 < queueSize)
    (h : Sequential (methods α queueSize) [] es deque) : deque.length ≤ queueSize := by
  induction h with
  | nil => exact Nat.zero_le _
  | ran _ hg hb ih => exact length_of_body hg hb hpos ih
  | gaveUp _ _ _ ih => exact ih

/-! ### The queue -/

/-- After its wait no method touches the front of an empty deque. -/
theorem body_ne_error {m : Method α} {e : QueueFatal} (hg : awaited queueSize m deque = true) :
    body m deque ≠ .error e := by
  intro h
  cases m with
  | push t => cases h
  | pushWithTimeout t => cases h
  | pop =>
    cases deque with
    | nil => cases hg
    | cons t deque => cases h
  | popWithTimeout =>
    cases deque with
    | nil => cases hg
    | cons t deque => cases h
  | peek => cases deque <;> cases h
  | size => cases h
  | waitUntilEmpty => cases h

/-- **A `BlockingQueue` is a queue.** The values popped so far followed by the contents are the values of
the completed pushes in the order of their sections; a bounded queue keeps its bound; `front` and
`pop_front` are never applied to an empty deque; a method that times out leaves the contents as they
are. -/
theorem blocking_queue_fifo (queueSize : ℕ) (s : State α ι)
    (h : Reachable (blockingQueue α ι queueSize) s) :
    popped s.log ++ s.shared = pushed s.log ∧
      (0 < queueSize → s.shared.length ≤ queueSize) ∧
      (∀ a e, ¬ (blockingQueue α ι queueSize).Aborts s a e) ∧
      ∀ a s' e, (blockingQueue α ι queueSize).Step s a s' → s'.log = s.log ++ [e] →
        e.timedOut = true → s'.shared = s.shared := by
  have hseq : Sequential (methods α queueSize) [] s.log s.shared := sequential_of_reachable h
  refine ⟨values_of_sequential hseq, fun hpos => length_of_sequential hpos hseq, ?_, ?_⟩
  · intro a e ha
    obtain ⟨m, hg, hb⟩ := body_of_error ha
    exact body_ne_error hg hb
  · intro a s' e hs hlog he
    exact shared_of_timedOut hs hlog he

/-- A bounded queue that was full, on which a push has timed out, and whose first value was popped. -/
theorem blocking_queue_fifo_full :
    ∃ s : State ℕ Bool, Reachable (blockingQueue ℕ Bool 2) s ∧ popped s.log = [5] ∧ s.shared = [6] ∧
      pushed s.log = [5, 6] ∧ popped s.log ++ s.shared = pushed s.log ∧ s.shared.length ≤ 2 := by
  obtain ⟨s, hr, hp⟩ := exists_run (blockingQueue ℕ Bool 2)
    [.call true (.push 5), .enter true, .notifyAll true, .call false (.push 6), .enter false,
      .notifyAll false, .call true (.pushWithTimeout 7), .enter true, .expire true, .reenter true,
      .notifyAll true, .call false .pop, .enter false]
    (fun s : State ℕ Bool => decide (popped s.log = [5] ∧ s.shared = [6] ∧ pushed s.log = [5, 6]))
    (by decide)
  obtain ⟨hpopped, hleft, hpushed⟩ := of_decide_eq_true hp
  obtain ⟨hfifo, hbound, -⟩ := blocking_queue_fifo 2 s hr.reachable
  exact ⟨s, hr.reachable, hpopped, hleft, hpushed, hfifo, hbound (by decide)⟩

end AsyncGrpc.Server.BlockingQueue
