import AsyncGrpc.Lib.Runs
import Mathlib.Logic.Function.Basic

/-! # Monitors with one condition variable

A monitor is a shared state under a lock with methods. A method takes the lock, waits until its guard
holds, runs its body, releases the lock and then, in a step of its own, notifies all threads that sleep on
the condition variable. A wait releases the lock and falls asleep at once. A thread that was woken, by a
notification or for no reason, takes the lock again and tests its guard again; one whose wait times out
takes the lock once more and leaves if the guard does not hold.

What a thread does while it holds the lock is one step, since the lock keeps the other threads out.
`log` records these sections in their order.

* `quiet_of_reachable`: when no thread is between its release of the lock and its notification, every
  sleeping thread waits for a guard that does not hold.
* `sequential_of_reachable`: the shared state is the result of the sections of the log, run one after the
  other by themselves.
* `body_of_error`: only a body whose guard holds ends the process. -/

namespace AsyncGrpc.Lib.Monitors

open AsyncGrpc.Lib.Runs

/-- The methods `κ` of a monitor with the shared state `σ`. `expired k` is what `k` returns when its wait
times out, for the methods that can. -/
structure Monitor (σ κ ρ ε : Type) where
  guard : κ → σ → Bool
  body : κ → σ → Except ε (σ × ρ)
  expired : κ → Option ρ

/-- Where a thread stands: outside, before the lock, asleep, before the lock after its wait has timed out,
or after its release of the lock and before its notification. -/
inductive Thread (κ ρ : Type)
  | outside
  | entering (k : κ)
  | asleep (k : κ)
  | expired (k : κ)
  | leaving (k : κ) (result : ρ)
  deriving DecidableEq, Repr

/-- One section under the lock that ended a method. -/
structure Entry (κ ρ : Type) where
  method : κ
  timedOut : Bool
  result : ρ
  deriving DecidableEq, Repr

/-- The shared state, the threads `ι` and the sections that have ended a method, oldest first. -/
structure MonitorState (σ κ ρ ι : Type) where
  shared : σ
  threads : ι → Thread κ ρ
  log : List (Entry κ ρ)

/-- The steps of the threads: `t` calls a method, takes the lock, wakes up, times out, takes the lock after
that, notifies and returns. -/
inductive MonitorAction (κ ι : Type)
  | call (t : ι) (k : κ)
  | enter (t : ι)
  | wake (t : ι)
  | expire (t : ι)
  | reenter (t : ι)
  | notifyAll (t : ι)
  deriving DecidableEq, Repr

variable {σ κ ρ ε ι : Type} [DecidableEq ι]

namespace MonitorState

/-- The thread `t` moves on. -/
def move (s : MonitorState σ κ ρ ι) (t : ι) (p : Thread κ ρ) : MonitorState σ κ ρ ι :=
  { s with threads := Function.update s.threads t p }

/-- The thread `t` releases the lock at the end of a method. -/
def leave (s : MonitorState σ κ ρ ι) (t : ι) (shared : σ) (e : Entry κ ρ) : MonitorState σ κ ρ ι where
  shared := shared
  threads := Function.update s.threads t (.leaving e.method e.result)
  log := s.log ++ [e]

/-- The body of `k` runs on the thread `t`. -/
def run (M : Monitor σ κ ρ ε) (s : MonitorState σ κ ρ ι) (t : ι) (k : κ) :
    Except ε (MonitorState σ κ ρ ι) := do
  let (shared, result) ← M.body k s.shared
  return s.leave t shared ⟨k, false, result⟩

/-- Sleeping threads wake up. -/
def wakeAll (threads : ι → Thread κ ρ) (t : ι) : Thread κ ρ :=
  match threads t with
  | .asleep k => .entering k
  | p => p

/-- The step function of a monitor. -/
def step (M : Monitor σ κ ρ ε) (s : MonitorState σ κ ρ ι) :
    MonitorAction κ ι → Option (Except ε (MonitorState σ κ ρ ι))
  | .call t k =>
    match s.threads t with
    | .outside => some (.ok (s.move t (.entering k)))
    | _ => none
  | .enter t =>
    match s.threads t with
    | .entering k => if M.guard k s.shared then some (s.run M t k) else some (.ok (s.move t (.asleep k)))
    | _ => none
  | .wake t =>
    match s.threads t with
    | .asleep k => some (.ok (s.move t (.entering k)))
    | _ => none
  | .expire t =>
    match s.threads t with
    | .asleep k => if (M.expired k).isSome then some (.ok (s.move t (.expired k))) else none
    | _ => none
  | .reenter t =>
    match s.threads t with
    | .expired k =>
      if M.guard k s.shared then some (s.run M t k)
      else (M.expired k).map fun result => .ok (s.leave t s.shared ⟨k, true, result⟩)
    | _ => none
  | .notifyAll t =>
    match s.threads t with
    | .leaving _ _ => some (.ok { s with threads := wakeAll (Function.update s.threads t .outside) })
    | _ => none

end MonitorState

/-- The runs of a monitor from the shared state `s0`. -/
def Monitor.machine (M : Monitor σ κ ρ ε) (ι : Type) [DecidableEq ι] (s0 : σ) :
    Machine (MonitorState σ κ ρ ι) (MonitorAction κ ι) ε where
  init := ⟨s0, fun _ => .outside, []⟩
  step := MonitorState.step M

/-! ### One step -/

section Steps

variable {M : Monitor σ κ ρ ε} {s s' : MonitorState σ κ ρ ι} {a : MonitorAction κ ι}

/-- The ways a monitor makes a step. -/
inductive Moved (M : Monitor σ κ ρ ε) (s : MonitorState σ κ ρ ι) : MonitorState σ κ ρ ι → Prop
  | called {t : ι} {k : κ} (ht : s.threads t = .outside) : Moved M s (s.move t (.entering k))
  | slept {t : ι} {k : κ} (ht : s.threads t = .entering k) (hg : M.guard k s.shared = false) :
      Moved M s (s.move t (.asleep k))
  | woke {t : ι} {k : κ} (ht : s.threads t = .asleep k) : Moved M s (s.move t (.entering k))
  | expired {t : ι} {k : κ} (ht : s.threads t = .asleep k) (hk : (M.expired k).isSome = true) :
      Moved M s (s.move t (.expired k))
  | ran {t : ι} {k : κ} {shared : σ} {result : ρ} (hg : M.guard k s.shared = true)
      (hb : M.body k s.shared = .ok (shared, result)) :
      Moved M s (s.leave t shared ⟨k, false, result⟩)
  | gaveUp {t : ι} {k : κ} {result : ρ} (hg : M.guard k s.shared = false)
      (hk : M.expired k = some result) :
      Moved M s (s.leave t s.shared ⟨k, true, result⟩)
  | notified {t : ι} :
      Moved M s { s with
        threads := MonitorState.wakeAll (Function.update s.threads t .outside) }

theorem moved_of_run {t : ι} {k : κ} (hg : M.guard k s.shared = true) (h : s.run M t k = .ok s') :
    Moved M s s' := by
  obtain ⟨⟨shared, result⟩, hb, h⟩ := bind_eq_ok.mp h
  obtain rfl := Except.ok.inj h
  exact .ran hg hb

/-- What a step has done. -/
theorem moved_of_step (h : s.step M a = some (.ok s')) : Moved M s s' := by
  cases a with
  | call t k =>
    cases ht : s.threads t <;> simp only [MonitorState.step, ht, reduceCtorEq] at h
    obtain rfl := Except.ok.inj (Option.some.inj h)
    exact .called ht
  | enter t =>
    cases ht : s.threads t <;> simp only [MonitorState.step, ht, reduceCtorEq] at h
    rename_i k
    cases hg : M.guard k s.shared with
    | true => exact moved_of_run hg (by simpa [hg] using h)
    | false =>
      obtain rfl : s.move t (.asleep k) = s' := by simpa [hg] using h
      exact .slept ht hg
  | wake t =>
    cases ht : s.threads t <;> simp only [MonitorState.step, ht, reduceCtorEq] at h
    obtain rfl := Except.ok.inj (Option.some.inj h)
    exact .woke ht
  | expire t =>
    cases ht : s.threads t <;> simp only [MonitorState.step, ht, reduceCtorEq] at h
    obtain ⟨hk, h⟩ := Option.ite_none_right_eq_some.mp h
    obtain rfl := Except.ok.inj (Option.some.inj h)
    exact .expired ht hk
  | reenter t =>
    cases ht : s.threads t <;> simp only [MonitorState.step, ht, reduceCtorEq] at h
    rename_i k
    cases hg : M.guard k s.shared with
    | true => exact moved_of_run hg (by simpa [hg] using h)
    | false =>
      simp only [hg, Bool.false_eq_true, if_false] at h
      obtain ⟨result, hk, h⟩ := Option.map_eq_some_iff.mp h
      obtain rfl := Except.ok.inj h
      exact .gaveUp hg hk
  | notifyAll t =>
    cases ht : s.threads t <;> simp only [MonitorState.step, ht, reduceCtorEq] at h
    obtain rfl := Except.ok.inj (Option.some.inj h)
    exact .notified

/-- The process ends in a body whose guard holds. -/
theorem body_of_error {e : ε} (h : s.step M a = some (.error e)) :
    ∃ k, M.guard k s.shared = true ∧ M.body k s.shared = .error e := by
  have hrun {t : ι} {k : κ} (hr : s.run M t k = .error e) : M.body k s.shared = .error e := by
    rcases bind_eq_error.mp hr with hb | ⟨x, -, hx⟩
    · exact hb
    · simp [pure, Except.pure] at hx
  cases a with
  | call t k => cases ht : s.threads t <;> simp [MonitorState.step, ht] at h
  | wake t => cases ht : s.threads t <;> simp [MonitorState.step, ht] at h
  | expire t => cases ht : s.threads t <;> simp [MonitorState.step, ht] at h
  | notifyAll t => cases ht : s.threads t <;> simp [MonitorState.step, ht] at h
  | enter t =>
    cases ht : s.threads t <;> simp only [MonitorState.step, ht, reduceCtorEq] at h
    rename_i k
    cases hg : M.guard k s.shared with
    | true => exact ⟨k, hg, hrun (by simpa [hg] using h)⟩
    | false => simp [hg] at h
  | reenter t =>
    cases ht : s.threads t <;> simp only [MonitorState.step, ht, reduceCtorEq] at h
    rename_i k
    cases hg : M.guard k s.shared with
    | true => exact ⟨k, hg, hrun (by simpa [hg] using h)⟩
    | false => simp [hg] at h

end Steps

/-! ### Sleeping threads -/

section Wakeups

variable {M : Monitor σ κ ρ ε} {s s' : MonitorState σ κ ρ ι} {t : ι} {k : κ} {p : Thread κ ρ}

/-- Some thread has released the lock and not yet notified. -/
def Notifying (s : MonitorState σ κ ρ ι) : Prop := ∃ t k result, s.threads t = .leaving k result

/-- No sleeping thread waits for a guard that holds. -/
def Quiet (M : Monitor σ κ ρ ε) (s : MonitorState σ κ ρ ι) : Prop :=
  ∀ t k, s.threads t = .asleep k → M.guard k s.shared = false

omit [DecidableEq ι] in
theorem wakeAll_ne_asleep (threads : ι → Thread κ ρ) (t : ι) (k : κ) :
    MonitorState.wakeAll threads t ≠ .asleep k := by
  unfold MonitorState.wakeAll
  cases threads t <;> simp

theorem Notifying.move (h : Notifying s) (ht : ∀ k result, s.threads t ≠ .leaving k result) :
    Notifying (s.move t p) := by
  obtain ⟨t', k', result, ht'⟩ := h
  have hne : t' ≠ t := by
    rintro rfl
    exact ht k' result ht'
  exact ⟨t', k', result, by simpa [MonitorState.move, hne] using ht'⟩

theorem notifying_leave (shared : σ) (e : Entry κ ρ) : Notifying (s.leave t shared e) :=
  ⟨t, e.method, e.result, by simp [MonitorState.leave]⟩

theorem Quiet.move (h : Quiet M s) (hp : ∀ k, p = .asleep k → M.guard k s.shared = false) :
    Quiet M (s.move t p) := by
  intro t' k' ht'
  by_cases hne : t' = t
  · subst hne
    exact hp k' (by simpa [MonitorState.move] using ht')
  · exact h t' k' (by simpa [MonitorState.move, hne] using ht')

/-- A body that makes a guard hold leaves its thread about to notify, and the notification wakes whoever
sleeps. -/
theorem notifying_or_quiet_step (h : Notifying s ∨ Quiet M s) (hm : Moved M s s') :
    Notifying s' ∨ Quiet M s' := by
  cases hm with
  | called ht => exact h.imp (·.move (by simp [ht])) (·.move (by simp))
  | slept ht hg => exact h.imp (·.move (by simp [ht])) (·.move (by rintro k ⟨⟩; exact hg))
  | woke ht => exact h.imp (·.move (by simp [ht])) (·.move (by simp))
  | expired ht => exact h.imp (·.move (by simp [ht])) (·.move (by simp))
  | ran => exact .inl (notifying_leave _ _)
  | gaveUp => exact .inl (notifying_leave _ _)
  | notified => exact .inr fun t k ht => absurd ht (wakeAll_ne_asleep _ t k)

/-- **No wakeup is lost.** -/
theorem quiet_of_reachable {s0 : σ} (h : Reachable (M.machine ι s0) s) (hn : ¬ Notifying s) :
    Quiet M s := by
  have hinv : Notifying s ∨ Quiet M s := by
    refine inv_of_reachable (I := fun s => Notifying s ∨ Quiet M s) (.inr ?_) ?_ h
    · intro t k ht
      cases ht
    · exact fun _ _ _ hi hs => notifying_or_quiet_step hi (moved_of_step hs)
  exact hinv.resolve_left hn

end Wakeups

/-! ### The sections one after the other -/

section Sections

variable {M : Monitor σ κ ρ ε} {s s' : MonitorState σ κ ρ ι} {s0 : σ}

/-- The sections `es` lead from `s0` to `s` when they run one after the other. -/
inductive Sequential (M : Monitor σ κ ρ ε) (s0 : σ) : List (Entry κ ρ) → σ → Prop
  | nil : Sequential M s0 [] s0
  | ran {es : List (Entry κ ρ)} {s s' : σ} {k : κ} {result : ρ} (h : Sequential M s0 es s)
      (hg : M.guard k s = true) (hb : M.body k s = .ok (s', result)) :
      Sequential M s0 (es ++ [⟨k, false, result⟩]) s'
  | gaveUp {es : List (Entry κ ρ)} {s : σ} {k : κ} {result : ρ} (h : Sequential M s0 es s)
      (hg : M.guard k s = false) (hk : M.expired k = some result) :
      Sequential M s0 (es ++ [⟨k, true, result⟩]) s

/-- **The shared state is that of the sections in the order of the log.** -/
theorem sequential_of_reachable (h : Reachable (M.machine ι s0) s) :
    Sequential M s0 s.log s.shared := by
  refine inv_of_reachable (I := fun s => Sequential M s0 s.log s.shared) .nil ?_ h
  intro s a s' hi hs
  cases moved_of_step hs with
  | called => exact hi
  | slept => exact hi
  | woke => exact hi
  | expired => exact hi
  | ran hg hb => exact hi.ran hg hb
  | gaveUp hg hk => exact hi.gaveUp hg hk
  | notified => exact hi

/-- A section that times out leaves the shared state as it is. -/
theorem shared_of_timedOut {a : MonitorAction κ ι} {e : Entry κ ρ}
    (hs : (M.machine ι s0).Step s a s') (hlog : s'.log = s.log ++ [e]) (he : e.timedOut = true) :
    s'.shared = s.shared := by
  cases moved_of_step hs with
  | called => rfl
  | slept => rfl
  | woke => rfl
  | expired => rfl
  | ran =>
    obtain rfl : _ = e := by simpa [MonitorState.leave] using hlog
    cases he
  | gaveUp => rfl
  | notified => rfl

end Sections

end AsyncGrpc.Lib.Monitors
