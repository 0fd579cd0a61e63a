import AsyncGrpc.Client.Steps

/-! # `Shutdown` of the pool and the callbacks

`CompletionQueuePool::Shutdown` keeps `mutex_` while it joins the threads of the queues, and a callback
on such a thread that constructs an `AsyncClient` needs `mutex_` in `Initialize`. `shutdown_deadlock`
gives the exact condition: as long as no callback enters a constructor while `Shutdown` has `mutex_`,
and `Shutdown` does not take it while one waits there, the two never wait for each other; and when one
of these happens, `Shutdown` never returns. -/

namespace AsyncGrpc.Client.Deadlock

open AsyncGrpc.Lib.Runs AsyncGrpc.Model.Types AsyncGrpc.Model.AsyncClient
open AsyncGrpc.Model.CompletionQueuePool AsyncGrpc.Model.ClientSide AsyncGrpc.Client.Steps

variable {ρ : Type} {s s' : State ρ} {a : Action ρ}

/-! ### Waiting -/

/-- The thread waits for `mutex_` in `Initialize`, or is about to take it. -/
def waits : PoolThread → Bool
  | .callback _ (some c) => c.call = .enter
  | _ => false

/-- How many queues `Shutdown` has joined, on a thread that is in it with `mutex_`. -/
def shutting : UserThread → Option ℕ
  | .shutdown k | .join k => some k
  | _ => none

/-- **The deadlock**: a thread has `mutex_` in `Shutdown` and joins the thread of a queue, which waits
for `mutex_` in `Initialize`. -/
def Deadlocked (s : State ρ) : Prop :=
  ∃ i k t, s.users i = .join k ∧ s.mutex = some i ∧ s.threadAt k = some t ∧ waits t = true

/-- No callback enters the constructor of a client while `Shutdown` has `mutex_`, and `Shutdown` does
not take it while the thread of a queue waits for it. -/
def Apart (s : State ρ) : Action ρ → Prop
  | .lockShutdown _ => ∀ k t, s.threadAt k = some t → waits t = false
  | .callbackConstructor _ _ _ => s.mutex = none
  | _ => True

/-! ### Steps -/

/-- What a step does: a thread of the user outside `Shutdown` or the thread of a queue moves on, which
changes no other thread of a queue as long as `mutex_` is held; or a step of `Shutdown`. -/
inductive Moved (s : State ρ) : Action ρ → State ρ → Prop
  | user {a : Action ρ} {i : ℕ} {u : UserThread} {s' : State ρ} (h0 : shutting (s.users i) = none)
      (h1 : shutting u = none) (hm : s'.mutex = s.mutex) (hu : s'.users = Function.update s.users i u)
      (hp : s.mutex ≠ none → ∀ k, s'.threadAt k = s.threadAt k) (ha : Apart s a) : Moved s a s'
  | queue {a : Action ρ} {k : ℕ} {t v : PoolThread} {s' : State ρ} (ht : s.threadAt k = some t)
      (hx : t ≠ .exited) (hm : s'.mutex = s.mutex) (hu : s'.users = s.users)
      (hw : s.mutex ≠ none → waits t = false)
      (hp : s.mutex ≠ none → ∀ k', s'.threadAt k' = if k' = k then some v else s.threadAt k')
      (ha : Apart s a ↔ s.mutex = none ∨ waits v = false) : Moved s a s'
  | lock {i : ℕ} (hu : s.users i = .idle) (hm : s.mutex = none) :
      Moved s (.lockShutdown i) ({ s with mutex := some i }.setUser i (.shutdown 0))
  | shutdown {i k : ℕ} {s' : State ρ} (hu : s.users i = .shutdown k) (hm : s'.mutex = s.mutex)
      (hu' : s'.users = Function.update s.users i (.join k))
      (hp : ∀ k', s'.threadAt k' = s.threadAt k') : Moved s (.shutdown i) s'
  | clear {i k : ℕ} (hu : s.users i = .shutdown k) (hk : s.pool.completionQueues.length ≤ k) :
      Moved s (.shutdown i) ({ s with pool := s.pool.clear, mutex := none }.setUser i .idle)
  | join {i k : ℕ} (hu : s.users i = .join k) (ht : s.threadAt k = some .exited) :
      Moved s (.join i) (s.setUser i (.shutdown (k + 1)))

/-- Behind an event no thread is in a constructor. -/
theorem waits_thread (j : ℕ) (c : AsyncClient ρ) : waits (c.thread j) = false := by
  unfold AsyncClient.thread
  split <;> rfl

/-- The thread of a queue moves on, and nothing else. -/
theorem moved_setThread {clients : List (AsyncClient ρ)} {k : ℕ} {t v : PoolThread}
    (ht : s.threadAt k = some t) (hx : t ≠ .exited) (hw : waits t = false)
    (ha : Apart s a ↔ s.mutex = none ∨ waits v = false) :
    Moved s a ({ s with clients := clients }.setThread k v) :=
  .queue ht hx rfl rfl (fun _ => hw)
    (fun _ => threadAt_setThread (s := { s with clients := clients }) ht) ha

/-- A constructor passes `Initialize` only when `mutex_` is free, and otherwise leaves the pool as it
is. -/
theorem constructed_frame [Inhabited ρ] {rand : ℕ} {c : Construction} {c' : Option Construction}
    (h : Constructed s rand c s' c') :
    s'.mutex = s.mutex ∧ s'.users = s.users ∧ (∀ d ∈ c', d.call ≠ .enter) ∧
      (s.mutex ≠ none → c.call ≠ .enter ∧ s'.pool = s.pool) := by
  cases h with
  | initialized hc hm hp => exact ⟨rfl, rfl, by simp, fun hn => absurd hm hn⟩
  | selected hc hq => exact ⟨rfl, rfl, by simp, fun _ => ⟨by simp [hc], rfl⟩⟩
  | found hc hq => exact ⟨rfl, rfl, by simp, fun _ => ⟨by simp [hc], rfl⟩⟩

theorem moved_of_step [Inhabited ρ] (h : (clientSide ρ).Step s a s') : Moved s a s' := by
  cases stepped_of_step h with
  | @started i p hu hm hp =>
    refine .user (i := i) (u := .idle) (by rw [hu]; rfl) rfl rfl ?_ (fun hn => absurd hm hn) trivial
    rw [← hu, Function.update_eq_self]
  | called hu => exact .user (by rw [hu]; rfl) rfl rfl rfl (fun _ _ => rfl) trivial
  | @constructed i rand c c' s1 hu hc =>
    obtain ⟨hm, hu', -, hpool⟩ := constructed_frame hc
    refine .user (i := i) (u := c'.elim .idle .constructs) (by rw [hu]; rfl) ?_ hm
      (by simp [State.setUser, hu']) ?_ trivial
    · cases c' <;> rfl
    · intro hn k
      simp [State.threadAt, State.setUser, (hpool hn).2]
  | @wrote i j c hu =>
    refine .user (i := i) (u := .idle) (by rw [hu]; rfl) rfl rfl ?_ (fun _ _ => rfl) trivial
    rw [← hu, Function.update_eq_self]
  | checked hu => exact .user (by rw [hu]; rfl) rfl rfl rfl (fun _ _ => rfl) trivial
  | assigned hu => exact .user (by rw [hu]; rfl) rfl rfl rfl (fun _ _ => rfl) trivial
  | locked hu hm => exact .lock hu hm
  | shutDown hu hq => exact .shutdown hu rfl rfl (threadAt_shutDown hq)
  | cleared hu hk => exact .clear hu hk
  | joined hu ht => exact .join hu ht
  | @completed k j event ok response status c c' ht =>
    exact moved_setThread ht (by simp) rfl ⟨fun _ => Or.inr (waits_thread j c'), fun _ => trivial⟩
  | exited ht => exact moved_setThread ht (by simp) rfl ⟨fun _ => Or.inr rfl, fun _ => trivial⟩
  | entered ht => exact moved_setThread ht (by simp) rfl (by simp [Apart, waits])
  | @callbackConstructed k j rand c c' s1 ht hc =>
    obtain ⟨hm, hu', hc', hpool⟩ := constructed_frame hc
    refine .queue (v := .callback j c') ht (by simp) hm hu' (fun hn => ?_) (fun hn => ?_)
      ⟨fun _ => Or.inr ?_, fun _ => trivial⟩
    · simpa [waits] using (hpool hn).1
    · have hsame : ∀ k', s1.threadAt k' = s.threadAt k' := by
        intro k'
        unfold State.threadAt
        rw [(hpool hn).2]
      intro k'
      rw [threadAt_setThread ((hsame k).trans ht), hsame]
    · cases c' with
      | none => rfl
      | some d => simpa [waits] using hc' d rfl
  | @callbackWrote k j j' c ht =>
    refine .queue (v := .callback j none) ht (by simp) rfl rfl (fun _ => rfl) (fun _ k' => ?_)
      ⟨fun _ => Or.inr rfl, fun _ => trivial⟩
    by_cases hk : k' = k
    · rw [if_pos hk, hk]
      exact ht
    · rw [if_neg hk]
      rfl
  | @returned k j c c' ht =>
    exact moved_setThread ht (by simp) rfl ⟨fun _ => Or.inr (waits_thread j c'), fun _ => trivial⟩

/-! ### `Shutdown` and the threads it joins -/

/-- Only the thread that has `mutex_` is in `Shutdown`, and the threads that it has joined have
ended. -/
structure Locked (s : State ρ) : Prop where
  holder : ∀ i m, shutting (s.users i) = some m → s.mutex = some i
  joined : ∀ i m, shutting (s.users i) = some m → ∀ k < m, s.threadAt k = some .exited

/-- Who is in `Shutdown` after the thread `i` has moved on to `u`. -/
theorem shutting_update {users : ℕ → UserThread} {i i' m : ℕ} {u : UserThread}
    (h : shutting (Function.update users i u i') = some m) :
    i' = i ∧ shutting u = some m ∨ i' ≠ i ∧ shutting (users i') = some m := by
  by_cases hi : i' = i
  · subst hi
    exact Or.inl ⟨rfl, by simpa using h⟩
  · exact Or.inr ⟨hi, by simpa [Function.update_of_ne hi] using h⟩

theorem Locked.held (h : Locked s) {i m : ℕ} (hi : shutting (s.users i) = some m) :
    s.mutex ≠ none := by
  rw [h.holder i m hi]
  simp

/-- A thread in `Shutdown` was there before the step and has come at most one queue further, or has
just taken `mutex_`. -/
theorem shutting_moved (h : Locked s) (hmove : Moved s a s') {i' m : ℕ}
    (hi' : shutting (s'.users i') = some m) :
    s'.mutex = some i' ∧ ∀ k < m, s'.threadAt k = some .exited := by
  cases hmove with
  | user _ h1 hm hu hp =>
    rw [hu] at hi'
    rcases shutting_update hi' with ⟨-, he⟩ | ⟨-, hold⟩
    · cases h1.symm.trans he
    · refine ⟨hm.trans (h.holder i' m hold), fun k' hk' => ?_⟩
      rw [hp (h.held hold)]
      exact h.joined i' m hold k' hk'
  | @queue _ k t _ _ ht hx hm hu _ hp =>
    rw [hu] at hi'
    refine ⟨hm.trans (h.holder i' m hi'), fun k' hk' => ?_⟩
    have hexited := h.joined i' m hi' k' hk'
    rw [hp (h.held hi'), if_neg]
    · exact hexited
    · rintro rfl
      cases ht.symm.trans hexited
      exact hx rfl
  | lock _ hm =>
    rcases shutting_update hi' with ⟨rfl, he⟩ | ⟨-, hold⟩
    · cases he
      exact ⟨rfl, fun k' hk' => by cases hk'⟩
    · exact absurd hm (h.held hold)
  | @shutdown i k _ hu hm hu' hp =>
    rw [hu'] at hi'
    have hsame : shutting (s.users i') = some m := by
      rcases shutting_update hi' with ⟨rfl, he⟩ | ⟨-, hold⟩
      · rw [hu]
        exact he
      · exact hold
    exact ⟨hm.trans (h.holder i' m hsame), fun k' hk' => (hp k').trans (h.joined i' m hsame k' hk')⟩
  | @clear i k hu =>
    rcases shutting_update hi' with ⟨-, he⟩ | ⟨hne, hold⟩
    · cases he
    · have hmutex := h.holder i k (by rw [hu]; rfl)
      rw [h.holder i' m hold] at hmutex
      exact absurd (Option.some.inj hmutex) hne
  | @join i k hu ht =>
    rcases shutting_update hi' with ⟨rfl, he⟩ | ⟨-, hold⟩
    · cases he
      have hk : shutting (s.users i') = some k := by
        rw [hu]
        rfl
      refine ⟨h.holder i' k hk, fun k' hk' => ?_⟩
      rcases Nat.lt_succ_iff_lt_or_eq.mp hk' with hlt | rfl
      · exact h.joined i' k hk k' hlt
      · exact ht
    · exact ⟨h.holder i' m hold, h.joined i' m hold⟩

theorem Locked.moved (h : Locked s) (hmove : Moved s a s') : Locked s' :=
  ⟨fun _ _ hi => (shutting_moved h hmove hi).1, fun _ _ hi => (shutting_moved h hmove hi).2⟩

theorem locked_of_reachable [Inhabited ρ] (hs : Reachable (clientSide ρ) s) : Locked s :=
  inv_of_reachable ⟨fun _ _ h => (by cases h), fun _ _ h => (by cases h)⟩
    (fun _ _ _ h hstep => h.moved (moved_of_step hstep)) hs

/-! ### The deadlock -/

/-- A thread that waits for `mutex_` while `Shutdown` has it goes on waiting, and when it is being
joined it goes on being joined. -/
theorem waits_moved (h : Locked s) (hmove : Moved s a s') {i k : ℕ} {t : PoolThread}
    (hm : s.mutex = some i) (ht : s.threadAt k = some t) (hw : waits t = true) :
    s'.mutex = some i ∧ s'.threadAt k = some t ∧ (s.users i = .join k → s'.users i = .join k) := by
  have hheld : s.mutex ≠ none := by simp [hm]
  cases hmove with
  | user h0 _ hm' hu hp =>
    refine ⟨hm'.trans hm, (hp hheld k).trans ht, fun hj => ?_⟩
    rw [hu, Function.update_of_ne]
    · exact hj
    · rintro rfl
      rw [hj] at h0
      cases h0
  | @queue _ k1 t1 _ _ ht1 _ hm' hu hw1 hp =>
    refine ⟨hm'.trans hm, ?_, fun hj => by rw [hu]; exact hj⟩
    rw [hp hheld, if_neg]
    · exact ht
    · rintro rfl
      cases ht.symm.trans ht1
      cases hw.symm.trans (hw1 hheld)
  | lock _ hfree => exact absurd hfree hheld
  | shutdown hu hm' hu' hp =>
    refine ⟨hm'.trans hm, (hp k).trans ht, fun hj => ?_⟩
    rw [hu', Function.update_of_ne]
    · exact hj
    · rintro rfl
      cases hj.symm.trans hu
  | @clear i1 k1 hu hk1 =>
    have hlt := lt_of_threadAt ht
    have hexited := h.joined i1 k1 (by rw [hu]; rfl) k (Nat.lt_of_lt_of_le hlt hk1)
    cases ht.symm.trans hexited
    cases hw
  | @join i1 k1 hu ht1 =>
    refine ⟨hm, ht, fun hj => ?_⟩
    show Function.update s.users i1 _ i = _
    rw [Function.update_of_ne]
    · exact hj
    · rintro rfl
      cases hj.symm.trans hu
      cases ht.symm.trans ht1
      cases hw

/-- `Shutdown` has `mutex_`, and the thread of a queue waits for it. -/
def Doomed (s : State ρ) : Prop :=
  ∃ i k t, s.mutex = some i ∧ s.threadAt k = some t ∧ waits t = true

theorem Deadlocked.doomed (h : Deadlocked s) : Doomed s := by
  obtain ⟨i, k, t, -, hm, ht, hw⟩ := h
  exact ⟨i, k, t, hm, ht, hw⟩

theorem Doomed.moved (h : Doomed s) (hl : Locked s) (hmove : Moved s a s') : Doomed s' := by
  obtain ⟨i, k, t, hm, ht, hw⟩ := h
  obtain ⟨hm', ht', -⟩ := waits_moved hl hmove hm ht hw
  exact ⟨i, k, t, hm', ht', hw⟩

theorem not_doomed_of_free (h : s.mutex = none) : ¬ Doomed s := by
  rintro ⟨i, k, t, hm, -⟩
  cases h.symm.trans hm

/-- A step makes a thread wait in vain exactly when it brings a constructor and `Shutdown`
together. -/
theorem apart_iff (h : ¬ Doomed s) (hmove : Moved s a s') : ¬ Doomed s' ↔ Apart s a := by
  have hnone : ∀ {i : ℕ}, s.mutex = some i → ∀ k t, s.threadAt k = some t → waits t = false := by
    intro i hm k t ht
    by_contra hw
    exact h ⟨i, k, t, hm, ht, by simpa using hw⟩
  cases hmove with
  | user _ _ hm' _ hp ha =>
    refine ⟨fun _ => ha, fun _ => ?_⟩
    rintro ⟨i, k, t, hm, ht, hw⟩
    rw [hm'] at hm
    rw [hp (by simp [hm])] at ht
    cases hw.symm.trans (hnone hm k t ht)
  | @queue _ k1 t1 t' _ ht1 _ hm' _ _ hp ha =>
    rw [ha]
    constructor
    · intro hn
      rcases hs : s.mutex with _ | i
      · exact Or.inl rfl
      · refine Or.inr (Bool.eq_false_iff.mpr fun hw => hn ⟨i, k1, t', hm'.trans hs, ?_, hw⟩)
        rw [hp (by simp [hs]), if_pos rfl]
    · rintro hor ⟨i, k, t, hm, ht, hw⟩
      rw [hm'] at hm
      rw [hp (by simp [hm])] at ht
      split_ifs at ht with hk
      · cases ht
        rcases hor with hfree | hw'
        · cases hfree.symm.trans hm
        · cases hw.symm.trans hw'
      · cases hw.symm.trans (hnone hm k t ht)
  | @lock i _ _ =>
    constructor
    · intro hn k t ht
      by_contra hw
      exact hn ⟨i, k, t, rfl, ht, by simpa using hw⟩
    · rintro ha ⟨_, k, t, -, ht, hw⟩
      cases hw.symm.trans (ha k t ht)
  | shutdown _ hm' _ hp =>
    refine ⟨fun _ => trivial, fun _ => ?_⟩
    rintro ⟨i, k, t, hm, ht, hw⟩
    rw [hm'] at hm
    rw [hp] at ht
    cases hw.symm.trans (hnone hm k t ht)
  | clear => exact ⟨fun _ => trivial, fun _ => not_doomed_of_free rfl⟩
  | join => exact ⟨fun _ => trivial, fun _ => h⟩

theorem later_deadlocked [Inhabited ρ] (hs : Reachable (clientSide ρ) s) (h : Deadlocked s)
    (hl : Later (clientSide ρ) s s') : Deadlocked s' := by
  have hinv := Later.inv (I := fun s => Reachable (clientSide ρ) s ∧ Deadlocked s) ?_ hl ⟨hs, h⟩
  · exact hinv.2
  · rintro s a s' ⟨hr, i, k, t, hj, hm, ht, hw⟩ hstep
    obtain ⟨hm', ht', hj'⟩ :=
      waits_moved (locked_of_reachable hr) (moved_of_step hstep) hm ht hw
    exact ⟨hr.step hstep, i, k, t, hj' hj, hm', ht', hw⟩

/-- **`Shutdown` and the constructors in callbacks.** As long as no callback enters a constructor while
`Shutdown` has `mutex_`, and `Shutdown` takes it only when none waits for it, there is no deadlock.
Otherwise `Shutdown` never releases `mutex_` again. -/
theorem shutdown_deadlock [Inhabited ρ] {as : List (Action ρ)} (hr : Run (clientSide ρ) as s) :
    (Along (clientSide ρ) Apart as → ¬ Deadlocked s) ∧
      (¬ Along (clientSide ρ) Apart as →
        ∃ i, ∀ s', Later (clientSide ρ) s s' → s'.mutex = some i) := by
  have hiff : Along (clientSide ρ) Apart as ↔ ¬ Doomed s :=
    along_iff (not_doomed_of_free rfl)
      (fun s a s' hs hstep hn hd => hn (hd.moved (locked_of_reachable hs) (moved_of_step hstep)))
      (fun s a s' _ hn hstep => apart_iff hn (moved_of_step hstep)) hr
  refine ⟨fun ha hd => hiff.mp ha hd.doomed, fun ha => ?_⟩
  obtain ⟨i, k, t, hm, ht, hw⟩ := not_not.mp (mt hiff.mpr ha)
  refine ⟨i, fun s' hl => ?_⟩
  have hinv := Later.inv (I := fun s => Reachable (clientSide ρ) s ∧ s.mutex = some i ∧
    s.threadAt k = some t) ?_ hl ⟨hr.reachable, hm, ht⟩
  · exact hinv.2.1
  · rintro s a s' ⟨hs, hm, ht⟩ hstep
    obtain ⟨hm', ht', -⟩ := waits_moved (locked_of_reachable hs) (moved_of_step hstep) hm ht hw
    exact ⟨hs.step hstep, hm', ht'⟩

/-- The condition on a step as a check. -/
def checkApart (s : State ρ) : Action ρ → Bool
  | .lockShutdown _ => s.pool.completionQueues.all fun q => q.thread.all (!waits ·)
  | .callbackConstructor _ _ _ => s.mutex.isNone
  | _ => true

theorem apart_of_check (s : State ρ) (a : Action ρ) (h : checkApart s a = true) : Apart s a := by
  cases a with
  | lockShutdown i =>
    intro k t ht
    obtain ⟨q, hq, ht⟩ := Option.bind_eq_some_iff.mp ht
    have hall := List.all_eq_true.mp h q (List.mem_of_getElem? hq)
    simpa [ht] using hall
  | callbackConstructor => exact Option.isNone_iff_eq_none.mp h
  | _ => trivial

/-- A callback constructs a client, and `Shutdown` comes later: it joins the first thread. -/
theorem shutdown_deadlock_drained : ∃ (as : List (Action ℕ)) (s : State ℕ),
    Run (clientSide ℕ) as s ∧ s.users 0 = .join 0 ∧ s.clients.length = 2 ∧ ¬ Deadlocked s := by
  obtain ⟨s, hr, hp⟩ := exists_run (clientSide ℕ)
    [.callConstructor 0 .normalRpc true, .construct 0 0, .construct 0 0, .construct 0 0,
      .writeAsync 0 0, .next 0 0 .finish true 5 .OK, .callbackConstructor 0 .normalRpc true,
      .callbackConstruct 0 0, .callbackConstruct 0 1, .callbackConstruct 0 0, .callbackReturns 0,
      .lockShutdown 0, .shutdown 0]
    (fun s : State ℕ => decide (s.users 0 = .join 0 ∧ s.clients.length = 2)) (by decide)
  rw [decide_eq_true_eq] at hp
  have ha := along_of_check (M := clientSide ℕ) apart_of_check (show checkAlong _ _ _
    [.callConstructor 0 .normalRpc true, .construct 0 0, .construct 0 0, .construct 0 0,
      .writeAsync 0 0, .next 0 0 .finish true 5 .OK, .callbackConstructor 0 .normalRpc true,
      .callbackConstruct 0 0, .callbackConstruct 0 1, .callbackConstruct 0 0, .callbackReturns 0,
      .lockShutdown 0, .shutdown 0] = true by decide)
  exact ⟨_, s, hr, hp.1, hp.2, (shutdown_deadlock hr).1 ha⟩

/-- `Shutdown` comes while a callback runs, and then the callback constructs a client. -/
theorem follow_up_call_deadlocks : ∃ s : State ℕ,
    Run (clientSide ℕ) [.callConstructor 0 .normalRpc true, .construct 0 0, .construct 0 0,
      .construct 0 0, .writeAsync 0 0, .next 0 0 .finish true 5 .OK, .lockShutdown 1, .shutdown 1,
      .callbackConstructor 0 .normalRpc true] s ∧
      ∀ s', Later (clientSide ℕ) s s' → Deadlocked s' := by
  obtain ⟨s, hr, hp⟩ := exists_run (clientSide ℕ)
    [.callConstructor 0 .normalRpc true, .construct 0 0, .construct 0 0, .construct 0 0,
      .writeAsync 0 0, .next 0 0 .finish true 5 .OK, .lockShutdown 1, .shutdown 1,
      .callbackConstructor 0 .normalRpc true]
    (fun s : State ℕ => decide (s.users 1 = .join 0 ∧ s.mutex = some 1 ∧
      s.threadAt 0 = some (.callback 0 (some ⟨.normalRpc, true, .enter⟩)))) (by decide)
  rw [decide_eq_true_eq] at hp
  have hd : Deadlocked s := ⟨1, 0, _, hp.1, hp.2.1, hp.2.2, rfl⟩
  exact ⟨s, hr, fun s' hl => later_deadlocked hr.reachable hd hl⟩

end AsyncGrpc.Client.Deadlock
