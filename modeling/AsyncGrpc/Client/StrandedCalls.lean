import AsyncGrpc.Client.PoolShutdown

/-! # Streaming calls on a queue that is shut down

A streaming call that is under way still has `Read` or `Finish` to call, which is not allowed on a queue
that was shut down. So when `Shutdown` of the pool shuts the queue of such a call down, the call can never
finish: the thread of the queue cannot end, and `Shutdown` joins it for ever, unless an event of the call
ends the process. `Settled` is the condition on `Shutdown` that excludes this, and `stranded_iff` says that
it is exact. -/

namespace AsyncGrpc.Client.StrandedCalls

open AsyncGrpc.Lib.Runs AsyncGrpc.Model.Types AsyncGrpc.Model.AsyncClient
open AsyncGrpc.Model.CompletionQueuePool AsyncGrpc.Model.ClientSide
open AsyncGrpc.Client.Steps AsyncGrpc.Client.Clients AsyncGrpc.Client.Deadlock
open AsyncGrpc.Client.Queues AsyncGrpc.Client.Tokens AsyncGrpc.Client.ClosedQueues
open AsyncGrpc.Client.PoolShutdown

variable {ρ : Type} {s s' : State ρ} {a : Action ρ}

/-- A call of a client of the queue `k` still has an operation to start. -/
def Unsettled (s : State ρ) (k : ℕ) : Prop :=
  ∃ (j : ℕ) (c : AsyncClient ρ), s.clients[j]? = some c ∧ (addresses s)[k]? = some c.completionQueue ∧
    0 < total startsMore c.client

/-- `Shutdown` joins the thread of a queue on which a call still has an operation to start. -/
def Stranded (s : State ρ) : Prop := ∃ i k, s.users i = .join k ∧ Unsettled s k

/-- `Shutdown` shuts a queue down only when no call on it has an operation to start any more. -/
def Settled (s : State ρ) : Action ρ → Prop
  | .shutdown i => ∀ k, s.users i = .shutdown k → ¬ Unsettled s k
  | _ => True

/-! ### The calls of a queue -/

/-- How many calls of the client `j` still have an operation to start on the queue `k`. -/
def unstarted (s : State ρ) (k j : ℕ) : ℕ :=
  s.clients[j]?.elim 0 fun c =>
    if (addresses s)[k]? = some c.completionQueue then total startsMore c.client else 0

theorem unsettled_iff_exists {k : ℕ} : Unsettled s k ↔ ∃ j, 0 < unstarted s k j := by
  unfold Unsettled unstarted
  refine exists_congr fun j => ?_
  cases hc : s.clients[j]? with
  | none => simp
  | some c =>
    simp only [Option.some.injEq, exists_eq_left', Option.elim_some]
    split_ifs with hk <;> simp [hk]

theorem unsettled_congr {k : ℕ} (h : ∀ j, unstarted s' k j = unstarted s k j) :
    Unsettled s' k ↔ Unsettled s k := by
  simp only [unsettled_iff_exists, h]

theorem unstarted_congr (ha : addresses s' = addresses s) (hc : s'.clients = s.clients) (k j : ℕ) :
    unstarted s' k j = unstarted s k j := by
  rw [unstarted, unstarted, ha, hc]

section Steps
variable [Inhabited ρ]

/-- An operation on the queue `k` is not taken once it was shut down. -/
theorem not_begin_of_flagged (hs : Reachable (clientSide ρ) s) {k address : ℕ} (hflag : Flagged s k)
    (hk : (addresses s)[k]? = some address) : s.beginOperation address ≠ .ok () := by
  intro hbegin
  have hh := housed_of_reachable hs
  obtain ⟨k', hk', hno⟩ := (beginOperation_iff hh).mp hbegin
  rw [hh.unique hk' hk] at hno
  exact hno hflag

/-- On a queue whose thread has ended all calls are over. -/
theorem not_unsettled_of_exited (hs : Reachable (clientSide ρ) s) {k : ℕ}
    (ht : ∀ t, spotAt s k = some t → t = .exited) : ¬ Unsettled s k := by
  rintro ⟨j, c, hc, hk, hmore⟩
  have hu : UnderWay c := by
    by_contra hn
    rw [total_of_not_underWay hn] at hmore
    cases hmore
  obtain ⟨k', t, hk', hspot, hne⟩ := attended_of_reachable hs j c hc hu
  rw [(housed_of_reachable hs).unique hk' hk] at hspot
  exact hne (ht t hspot)

/-- A step of a client of a queue that was shut down starts nothing, so its calls are where they were. -/
theorem startsMore_of_flagged (hs : Reachable (clientSide ρ) s) {k j : ℕ} {c c' : AsyncClient ρ}
    {b : ClientAction ρ} (hflag : Flagged s k) (hk : (addresses s)[k]? = some c.completionQueue)
    (hc : s.clients[j]? = some c) (hb : c.proceed b = some (.ok c')) (ha : Accepted s b c c') :
    total startsMore c'.client = total startsMore c.client := by
  refine (startsMore_of_proceed (accounted_of_reachable hs hc).onlyFinish hb).1 ?_
  rw [← Bool.not_eq_true]
  exact fun hstart => not_begin_of_flagged hs hflag hk (ha hstart)

/-- **On a queue that was shut down no step changes which calls have an operation to start.** -/
theorem unsettled_turned (hs : Reachable (clientSide ρ) s) (ht : Turned s s') {k : ℕ}
    (hflag : Flagged s k) : Unsettled s' k ↔ Unsettled s k := by
  cases ht with
  | kept hq hc => exact unsettled_congr (unstarted_congr hq.addresses hc k)
  | began h0 =>
    obtain ⟨q, hq, -⟩ := hflag
    rw [List.map_eq_nil_iff.mp h0] at hq
    cases hq
  | @added c k' hq hf _ hc =>
    refine unsettled_congr fun j => ?_
    rw [unstarted, unstarted, hq.addresses, hc]
    by_cases hj : j < s.clients.length
    · rw [List.getElem?_append_left hj]
    · have hnew : total startsMore c.client = 0 := total_of_not_underWay (not_underWay_of_fresh hf) _
      rw [List.getElem?_append_right (by omega), List.getElem?_eq_none (Nat.le_of_not_lt hj)]
      cases hj' : j - s.clients.length with
      | zero => simp [hnew]
      | succ n => simp
  | @wrote j c hq hc hcj hbegin =>
    refine unsettled_congr fun j' => ?_
    rw [unstarted, unstarted, hq.addresses, hc, List.getElem?_modify]
    by_cases hj : j = j'
    · subst hj
      have hother : (addresses s)[k]? ≠ some c.completionQueue :=
        fun hk => not_begin_of_flagged hs hflag hk hbegin
      simp [hcj, completionQueue_writeAsync, hother]
    · simp [hj]
  | @ran k' j c c' b hk hcj hb ha hq hc' =>
    refine unsettled_congr fun j' => ?_
    rw [unstarted, unstarted, hq.addresses, hc']
    by_cases hj : j = j'
    · subst hj
      rw [List.getElem?_set_self (List.getElem?_eq_some_iff.mp hcj).1, hcj]
      simp only [Option.elim_some, completionQueue_proceed hb]
      split_ifs with hk'
      · exact startsMore_of_flagged hs hflag hk' hcj hb ha
      · rfl
    · rw [List.getElem?_set_ne hj]
  | exited _ _ _ hq hc => exact unsettled_congr (unstarted_congr hq.addresses hc k)
  | cleared hex hq _ hc =>
    refine iff_of_false ?_ (not_unsettled_of_exited hs (hex k))
    rintro ⟨j, c, -, hk, -⟩
    rw [hq] at hk
    cases hk

/-! ### `Shutdown` joins a thread -/

omit [Inhabited ρ] in
/-- A thread that is joined goes on being joined until it has ended. -/
theorem join_of_moved (hl : Locked s) (hmove : Moved s a s') {i k : ℕ} (hu : s.users i = .join k) :
    s'.users i = .join k ∨ s.threadAt k = some .exited := by
  have hshut : shutting (s.users i) = some k := by rw [hu]; rfl
  have hsole : ∀ {i' m : ℕ}, shutting (s.users i') = some m → i' = i := fun hi' =>
    Option.some.inj ((hl.holder _ _ hi').symm.trans (hl.holder i k hshut))
  cases hmove with
  | @user _ i' _ _ h0 _ _ hu' =>
    refine .inl ?_
    rw [hu', Function.update_of_ne]
    · exact hu
    · rintro rfl
      cases h0.symm.trans hshut
  | queue _ _ _ hu' => exact .inl (by rw [hu']; exact hu)
  | lock _ hm => exact absurd hm (hl.held hshut)
  | shutdown hu' =>
    obtain rfl := hsole (by rw [hu']; rfl)
    cases hu.symm.trans hu'
  | clear hu' =>
    obtain rfl := hsole (by rw [hu']; rfl)
    cases hu.symm.trans hu'
  | join hu' ht =>
    obtain rfl := hsole (by rw [hu']; rfl)
    cases hu.symm.trans hu'
    exact .inr ht

omit [Inhabited ρ] in
theorem join_before_update {users : ℕ → UserThread} {i i' k : ℕ} {u : UserThread}
    (hne : ∀ m, u ≠ .join m) (h : Function.update users i' u i = .join k) : users i = .join k := by
  by_cases hi : i = i'
  · subst hi
    rw [Function.update_self] at h
    exact absurd h (hne k)
  · rwa [Function.update_of_ne hi] at h

omit [Inhabited ρ] in
/-- A thread is joined after a step when it was before, or when `Shutdown` has just shut its queue
down. -/
theorem join_before_moved (hmove : Moved s a s') {i k : ℕ} (hu : s'.users i = .join k) :
    s.users i = .join k ∨ a = .shutdown i ∧ s.users i = .shutdown k := by
  cases hmove with
  | @user _ i' u _ _ h1 _ hu' =>
    rw [hu'] at hu
    refine .inl (join_before_update (fun m hm => ?_) hu)
    rw [hm] at h1
    cases h1
  | queue _ _ _ hu' => exact .inl (hu' ▸ hu)
  | lock => exact .inl (join_before_update (by simp) hu)
  | @shutdown i' k' _ hu0 _ hu' =>
    rw [hu'] at hu
    by_cases hi : i = i'
    · subst hi
      rw [Function.update_self] at hu
      cases hu
      exact .inr ⟨rfl, hu0⟩
    · rw [Function.update_of_ne hi] at hu
      exact .inl hu
  | clear => exact .inl (join_before_update (by simp) hu)
  | join => exact .inl (join_before_update (by simp) hu)

/-- `Shutdown` shuts a queue down and leaves the calls on it as they are. -/
theorem shutDown_unsettled {i k : ℕ} (hstep : (clientSide ρ).Step s (.shutdown i) s')
    (hu : s.users i = .shutdown k) : (s'.users i = .join k ∧ ∀ k', Unsettled s' k' ↔ Unsettled s k') ∨
      (s'.users i = .idle ∧ (addresses s)[k]? = none) := by
  cases stepped_of_step hstep with
  | shutDown hu' hq =>
    cases hu.symm.trans hu'
    refine .inl ⟨by simp [State.setUser], fun k' => ?_⟩
    exact unsettled_congr (unstarted_congr (sameQueues_shutDown hq).addresses rfl k')
  | cleared hu' hk =>
    cases hu.symm.trans hu'
    exact .inr ⟨by simp [State.setUser], by simp [addresses, hk]⟩

/-! ### Stranded calls -/

/-- **A call that is stranded stays so**, and `Shutdown` joins its thread for ever. -/
theorem Stranded.step (h : Stranded s) (hs : Reachable (clientSide ρ) s)
    (hstep : (clientSide ρ).Step s a s') : Stranded s' := by
  obtain ⟨i, k, hu, hun⟩ := h
  rcases join_of_moved (locked_of_reachable hs) (moved_of_step hstep) hu with hu' | ht
  · have hflag := (marked_of_reachable hs).joining i k hu
    exact ⟨i, k, hu', (unsettled_turned hs (turned_of_step hs hstep) hflag).mpr hun⟩
  · refine absurd hun (not_unsettled_of_exited hs fun t hspot => ?_)
    rw [spotAt_of_threadAt ht] at hspot
    exact (Option.some.inj hspot).symm

/-- **A step strands a call exactly if it shuts down a queue that is not settled.** -/
theorem stranded_iff (hs : Reachable (clientSide ρ) s) (h : ¬ Stranded s)
    (hstep : (clientSide ρ).Step s a s') : ¬ Stranded s' ↔ Settled s a := by
  constructor
  · intro h'
    cases a with
    | shutdown i =>
      rintro k hu hun
      rcases shutDown_unsettled hstep hu with ⟨hu', hiff⟩ | ⟨-, hnone⟩
      · exact h' ⟨i, k, hu', (hiff k).mpr hun⟩
      · obtain ⟨j, c, -, hk, -⟩ := hun
        cases hnone.symm.trans hk
    | _ => trivial
  · rintro hset ⟨i, k, hu', hun'⟩
    rcases join_before_moved (moved_of_step hstep) hu' with hu | ⟨rfl, hu⟩
    · have hflag := (marked_of_reachable hs).joining i k hu
      exact h ⟨i, k, hu, (unsettled_turned hs (turned_of_step hs hstep) hflag).mp hun'⟩
    · rcases shutDown_unsettled hstep hu with ⟨-, hiff⟩ | ⟨hidle, -⟩
      · exact hset k hu ((hiff k).mp hun')
      · cases hidle.symm.trans hu'

end Steps

end AsyncGrpc.Client.StrandedCalls
