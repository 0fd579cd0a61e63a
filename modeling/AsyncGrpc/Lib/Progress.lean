import AsyncGrpc.Lib.Linearizability
import AsyncGrpc.Lib.Termination
import Mathlib.Algebra.Order.BigOperators.Group.Finset
import Mathlib.Algebra.Order.BigOperators.Ring.Finset
import Mathlib.Data.Fintype.BigOperators

/-! # Monitors make progress

The work of a monitor is what its threads do of their own accord: they take the lock, take it again after a
timeout, and notify. Calls, timeouts and wakeups for no reason are not counted on.

* `can_return`: a call whose guard holds can return by work alone, even if its thread sleeps.
* `length_work_le`: there is an end to the work, in whatever order it is done.
* `asleep_of_settled`: when it has ended, every thread that is still in a call sleeps and waits for a guard
  that does not hold. -/

namespace AsyncGrpc.Lib.Progress

open AsyncGrpc.Lib.Runs AsyncGrpc.Lib.Monitors AsyncGrpc.Lib.Linearizability AsyncGrpc.Lib.Termination

variable {σ κ ρ ε ι : Type} [DecidableEq ι]

/-- The thread takes the lock or notifies. -/
def isWork : MonitorAction κ ι → Bool
  | .enter _ | .reenter _ | .notifyAll _ => true
  | _ => false

/-- No thread can do any work. -/
def Settled (M : Monitor σ κ ρ ε) (s : MonitorState σ κ ρ ι) : Prop :=
  ∀ a, isWork a = true → s.step M a = none

/-! ### Calls that can return -/

section Returns
variable {M : Monitor σ κ ρ ε} {s0 shared : σ} {s : MonitorState σ κ ρ ι} {t : ι} {k : κ} {result : ρ}
  {pre : List (MonitorAction κ ι)}

/-- A thread that has run its body notifies and is outside. -/
theorem notifies (hr : Run (M.machine ι s0) pre s) (ht : s.threads t = .leaving k result) :
    ∃ s', Run (M.machine ι s0) (pre ++ [.notifyAll t]) s' ∧ s'.threads t = .outside ∧
      s'.shared = s.shared ∧ s'.log = s.log ∧
      ∀ t' k', t' ≠ t → s.threads t' = .asleep k' → s'.threads t' = .entering k' := by
  have hstep : (M.machine ι s0).Step s (.notifyAll t)
      { s with threads := MonitorState.wakeAll (Function.update s.threads t .outside) } := by
    show MonitorState.step M s (.notifyAll t) = _
    simp only [MonitorState.step, ht]
  refine ⟨_, hr.step hstep, ?_, rfl, rfl, fun t' k' hne ht' => ?_⟩
  · simp [MonitorState.wakeAll]
  · simp [MonitorState.wakeAll, hne, ht']

/-- A thread before the lock whose guard holds runs its body, notifies and is outside. -/
theorem returns_of_entering (hr : Run (M.machine ι s0) pre s)
    (ht : s.threads t = .entering k ∨ s.threads t = .expired k) (hg : M.guard k s.shared = true)
    (hb : M.body k s.shared = .ok (shared, result)) :
    ∃ as s', Run (M.machine ι s0) (pre ++ as) s' ∧ (∀ a ∈ as, isWork a = true) ∧ as.length ≤ 2 ∧
      s'.threads t = .outside ∧ s'.shared = shared ∧ s'.log = s.log ++ [⟨k, false, result⟩] := by
  have hrun : s.run M t k = .ok (s.leave t shared ⟨k, false, result⟩) := by
    rw [MonitorState.run, hb]
    rfl
  obtain ⟨a, ha, hstep⟩ : ∃ a, isWork a = true ∧
      (M.machine ι s0).Step s a (s.leave t shared ⟨k, false, result⟩) := by
    rcases ht with ht | ht
    · refine ⟨.enter t, rfl, ?_⟩
      show MonitorState.step M s (.enter t) = _
      simp only [MonitorState.step, ht, hg, if_true, hrun]
    · refine ⟨.reenter t, rfl, ?_⟩
      show MonitorState.step M s (.reenter t) = _
      simp only [MonitorState.step, ht, hg, if_true, hrun]
  have hleaving : (s.leave t shared ⟨k, false, result⟩).threads t = .leaving k result := by
    simp [MonitorState.leave]
  obtain ⟨s', hr', hout, hshared, hlog, -⟩ := notifies (hr.step hstep) hleaving
  exact ⟨[a, .notifyAll t], s', by simpa using hr', by simpa using ⟨ha, rfl⟩, by simp, hout, hshared, hlog⟩

/-- **A call whose guard holds can return**, by its own steps after at most one notification that is under
way. A thread that sleeps although its guard holds is about to be notified. -/
theorem can_return (hr : Run (M.machine ι s0) pre s) (ht : phaseOf (s.threads t) = .pending k)
    (hg : M.guard k s.shared = true) (hb : M.body k s.shared = .ok (shared, result)) :
    ∃ as s', Run (M.machine ι s0) (pre ++ as) s' ∧ (∀ a ∈ as, isWork a = true) ∧ as.length ≤ 3 ∧
      s'.threads t = .outside ∧ s'.shared = shared ∧ s'.log = s.log ++ [⟨k, false, result⟩] := by
  cases hp : s.threads t with
  | outside =>
    rw [hp] at ht
    cases ht
  | leaving k' result' =>
    rw [hp] at ht
    cases ht
  | entering k' =>
    rw [hp] at ht
    cases ht
    obtain ⟨as, s', h1, hw, h2, h3⟩ := returns_of_entering hr (.inl hp) hg hb
    exact ⟨as, s', h1, hw, by omega, h3⟩
  | expired k' =>
    rw [hp] at ht
    cases ht
    obtain ⟨as, s', h1, hw, h2, h3⟩ := returns_of_entering hr (.inr hp) hg hb
    exact ⟨as, s', h1, hw, by omega, h3⟩
  | asleep k' =>
    rw [hp] at ht
    cases ht
    have hn : Notifying s := by
      by_contra hn
      have hfalse := quiet_of_reachable hr.reachable hn t k hp
      exact Bool.false_ne_true (hfalse.symm.trans hg)
    obtain ⟨t', k', result', ht'⟩ := hn
    have hne : t ≠ t' := by
      rintro rfl
      cases hp.symm.trans ht'
    obtain ⟨s1, hr1, -, hshared, hlog, hwoken⟩ := notifies hr ht'
    rw [← hshared] at hg hb
    obtain ⟨as, s', h1, hw, h2, h3, h4, h5⟩ :=
      returns_of_entering hr1 (.inl (hwoken t k hne hp)) hg hb
    refine ⟨.notifyAll t' :: as, s', by simpa using h1, ?_, ?_, h3, h4, hlog ▸ h5⟩
    · simpa using ⟨rfl, hw⟩
    rw [List.length_cons]
    omega

end Returns

/-! ### The end of the work -/

section Work
variable {M : Monitor σ κ ρ ε} {s0 : σ} {s s' : MonitorState σ κ ρ ι} {a : MonitorAction κ ι}
  {pre as : List (MonitorAction κ ι)}

/-- How much work a thread can cause, when there are `n` threads: its own section, and a notification
that wakes the others. -/
def weight (n : ℕ) : Thread κ ρ → ℕ
  | .outside => 0
  | .asleep _ => n + 1
  | .leaving _ _ => n + 1
  | .entering _ => n + 2
  | .expired _ => n + 2

theorem weight_le (n : ℕ) (p : Thread κ ρ) : weight n p ≤ n + 2 := by
  cases p <;> simp [weight]

variable [Fintype ι]

/-- How much work all threads can cause. -/
def load (s : MonitorState σ κ ρ ι) : ℕ := ∑ t, weight (Fintype.card ι) (s.threads t)

theorem sum_weight_update (n : ℕ) (threads : ι → Thread κ ρ) (t : ι) (p : Thread κ ρ) :
    ∑ i, weight n (Function.update threads t p i) + weight n (threads t) =
      ∑ i, weight n (threads i) + weight n p := by
  have hrest : ∑ i ∈ Finset.univ.erase t, weight n (Function.update threads t p i) =
      ∑ i ∈ Finset.univ.erase t, weight n (threads i) :=
    Finset.sum_congr rfl fun i hi => by rw [Function.update_of_ne (Finset.ne_of_mem_erase hi)]
  rw [← Finset.add_sum_erase _ _ (Finset.mem_univ t), hrest, Function.update_self,
    ← Finset.add_sum_erase _ (fun i => weight n (threads i)) (Finset.mem_univ t)]
  omega

omit [DecidableEq ι] in
/-- A notification wakes every thread at most once. -/
theorem sum_weight_wakeAll (n : ℕ) (threads : ι → Thread κ ρ) :
    ∑ i, weight n (MonitorState.wakeAll threads i) ≤ ∑ i, weight n (threads i) + Fintype.card ι := by
  have hone (i : ι) : weight n (MonitorState.wakeAll threads i) ≤ weight n (threads i) + 1 := by
    unfold MonitorState.wakeAll
    cases threads i <;> simp [weight]
  calc ∑ i, weight n (MonitorState.wakeAll threads i)
      ≤ ∑ i, (weight n (threads i) + 1) := Finset.sum_le_sum fun i _ => hone i
    _ = ∑ i, weight n (threads i) + Fintype.card ι := by
      rw [Finset.sum_add_distrib, ← Finset.card_eq_sum_ones, Finset.card_univ]

theorem load_move (s : MonitorState σ κ ρ ι) (t : ι) (p : Thread κ ρ) :
    load (s.move t p) + weight (Fintype.card ι) (s.threads t) = load s + weight (Fintype.card ι) p :=
  sum_weight_update _ _ _ _

theorem load_leave (s : MonitorState σ κ ρ ι) (t : ι) (shared : σ) (e : Entry κ ρ) :
    load (s.leave t shared e) + weight (Fintype.card ι) (s.threads t) = load s + (Fintype.card ι + 1) :=
  sum_weight_update _ _ _ _

/-- What an action that is no work brings in. -/
def brought (n : ℕ) : MonitorAction κ ι → ℕ
  | .call _ _ => n + 3
  | .wake _ => 2
  | .expire _ => 2
  | _ => 0

omit [DecidableEq ι] [Fintype ι] in
theorem brought_eq_zero {n : ℕ} (h : isWork a = true) : brought n a = 0 := by
  cases a <;> first | rfl | cases h

theorem load_of_run {t : ι} {k : κ} (ht : weight (Fintype.card ι) (s.threads t) = Fintype.card ι + 2)
    (h : s.run M t k = .ok s') : load s' + 1 ≤ load s := by
  obtain ⟨⟨shared, result⟩, -, h⟩ := bind_eq_ok.mp h
  obtain rfl := Except.ok.inj h
  have hload := load_leave s t shared ⟨k, false, result⟩
  omega

/-- Every step is paid for. -/
theorem load_step (h : (M.machine ι s0).Step s a s') :
    load s' + 1 ≤ load s + brought (Fintype.card ι) a := by
  replace h : s.step M a = some (.ok s') := h
  cases a with
  | call t k =>
    cases ht : s.threads t <;> simp only [MonitorState.step, ht, reduceCtorEq] at h
    obtain rfl := Except.ok.inj (Option.some.inj h)
    have hload := load_move s t (.entering k)
    simp only [ht, weight] at hload
    simp only [brought]
    omega
  | enter t =>
    cases ht : s.threads t <;> simp only [MonitorState.step, ht, reduceCtorEq] at h
    rename_i k
    split_ifs at h
    · exact load_of_run (by rw [ht]; rfl) (Option.some.inj h)
    · obtain rfl := Except.ok.inj (Option.some.inj h)
      have hload := load_move s t (.asleep k)
      simp only [ht, weight] at hload
      simp only [brought]
      omega
  | wake t =>
    cases ht : s.threads t <;> simp only [MonitorState.step, ht, reduceCtorEq] at h
    rename_i k
    obtain rfl := Except.ok.inj (Option.some.inj h)
    have hload := load_move s t (.entering k)
    simp only [ht, weight] at hload
    simp only [brought]
    omega
  | expire t =>
    cases ht : s.threads t <;> simp only [MonitorState.step, ht, reduceCtorEq] at h
    rename_i k
    obtain ⟨-, h⟩ := Option.ite_none_right_eq_some.mp h
    obtain rfl := Except.ok.inj (Option.some.inj h)
    have hload := load_move s t (.expired k)
    simp only [ht, weight] at hload
    simp only [brought]
    omega
  | reenter t =>
    cases ht : s.threads t <;> simp only [MonitorState.step, ht, reduceCtorEq] at h
    rename_i k
    split_ifs at h
    · exact load_of_run (by rw [ht]; rfl) (Option.some.inj h)
    · obtain ⟨result, -, h⟩ := Option.map_eq_some_iff.mp h
      obtain rfl := Except.ok.inj h
      have hload := load_leave s t s.shared ⟨k, true, result⟩
      simp only [ht, weight] at hload
      simp only [brought]
      omega
  | notifyAll t =>
    cases ht : s.threads t <;> simp only [MonitorState.step, ht, reduceCtorEq] at h
    obtain rfl := Except.ok.inj (Option.some.inj h)
    have hout : _ + weight (Fintype.card ι) (s.threads t) = load s + 0 :=
      sum_weight_update (Fintype.card ι) s.threads t .outside
    have hwake := sum_weight_wakeAll (Fintype.card ι) (Function.update s.threads t .outside)
    rw [ht, weight] at hout
    show (∑ i, weight (Fintype.card ι) (MonitorState.wakeAll (Function.update s.threads t .outside) i)) +
      1 ≤ load s + 0
    omega

omit [DecidableEq ι] in
theorem load_le (s : MonitorState σ κ ρ ι) : load s ≤ Fintype.card ι * (Fintype.card ι + 2) := by
  calc load s ≤ ∑ _t : ι, (Fintype.card ι + 2) := Finset.sum_le_sum fun t _ => weight_le _ _
    _ = Fintype.card ι * (Fintype.card ι + 2) := by
      rw [Finset.sum_const_nat fun _ _ => rfl, Finset.card_univ]

/-- **The work comes to an end**, in whatever order it is done. -/
theorem length_work_le (hpre : Run (M.machine ι s0) pre s) (hr : Run (M.machine ι s0) (pre ++ as) s')
    (hw : ∀ a ∈ as, isWork a = true) : as.length ≤ Fintype.card ι * (Fintype.card ι + 2) := by
  obtain ⟨-, hle⟩ := length_le_of_pays (I := fun _ => True) (fun _ _ _ _ _ => trivial)
    (fun _ _ _ _ hs => load_step hs) hpre trivial hr
  have hzero : (as.map (brought (Fintype.card ι))).sum = 0 := by
    refine List.sum_eq_zero fun x hx => ?_
    obtain ⟨a, ha, rfl⟩ := List.mem_map.mp hx
    exact brought_eq_zero (hw a ha)
  have hload := load_le s
  omega

omit [Fintype ι] in
/-- Only a method that can time out does. -/
theorem isSome_of_expired (h : Reachable (M.machine ι s0) s) {t : ι} {k : κ}
    (ht : s.threads t = .expired k) : (M.expired k).isSome = true := by
  refine inv_of_reachable (I := fun s : MonitorState σ κ ρ ι =>
    ∀ t k, s.threads t = .expired k → (M.expired k).isSome = true) (fun t k ht => by cases ht) ?_ h t k ht
  intro s a s' hi hs t k ht
  -- a thread other than the one that moves stands where it stood
  have hmove {t1 : ι} {p : Thread κ ρ} (hp : ∀ k, p = .expired k → (M.expired k).isSome = true)
      (ht : Function.update s.threads t1 p t = .expired k) : (M.expired k).isSome = true := by
    by_cases hne : t = t1
    · subst hne
      rw [Function.update_self] at ht
      exact hp k ht
    · rw [Function.update_of_ne hne] at ht
      exact hi t k ht
  cases moved_of_step hs with
  | called => exact hmove (by simp) ht
  | slept => exact hmove (by simp) ht
  | woke => exact hmove (by simp) ht
  | expired _ hk => exact hmove (by rintro k ⟨⟩; exact hk) ht
  | ran => exact hmove (by simp) ht
  | gaveUp => exact hmove (by simp) ht
  | @notified t1 =>
    have hsame : Function.update s.threads t1 .outside t = .expired k := by
      simp only [MonitorState.wakeAll] at ht
      cases hp : Function.update s.threads t1 .outside t <;> simp_all
    exact hmove (by simp) hsame

omit [Fintype ι] in
/-- **Who is left when the work has ended.** -/
theorem asleep_of_settled (h : Reachable (M.machine ι s0) s) (hs : Settled M s) (t : ι) :
    s.threads t = .outside ∨ ∃ k, s.threads t = .asleep k ∧ M.guard k s.shared = false := by
  have hquiet : Quiet M s := by
    refine quiet_of_reachable h ?_
    rintro ⟨t', k', result', ht'⟩
    have hnone := hs (.notifyAll t') rfl
    simp [MonitorState.step, ht'] at hnone
  cases ht : s.threads t with
  | outside => exact .inl rfl
  | asleep k => exact .inr ⟨k, rfl, hquiet t k ht⟩
  | entering k =>
    have hnone := hs (.enter t) rfl
    simp only [MonitorState.step, ht] at hnone
    split_ifs at hnone
  | expired k =>
    have hnone := hs (.reenter t) rfl
    obtain ⟨result, hk⟩ := Option.isSome_iff_exists.mp (isSome_of_expired h ht)
    simp only [MonitorState.step, ht, hk, Option.map_some] at hnone
    split_ifs at hnone
  | leaving k result =>
    have hnone := hs (.notifyAll t) rfl
    simp [MonitorState.step, ht] at hnone

end Work

end AsyncGrpc.Lib.Progress
