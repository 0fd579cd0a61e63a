import AsyncGrpc.Client.Queues
import AsyncGrpc.Client.Tokens

/-! # Queues that were shut down

`Shutdown` of the pool shuts its queues down one after the other and destroys them at the end, and no
operation may be started on a queue after that (`beginOperation_iff`). A queue is shut down only by a
`Shutdown` that has come to it, and its thread ends only after that (`marked_of_reachable`); it is never
opened again (`closed_of_later`).

* `aborts_of_reachable`: the steps that end the process. Besides the constructors and the setter of the
  pool these are the operations on closed queues: `WriteAsync`, and `Read` and `Finish` of a streaming call
  that was under way when its queue was shut down. -/

namespace AsyncGrpc.Client.ClosedQueues

open AsyncGrpc.Lib.Runs AsyncGrpc.Model.Types AsyncGrpc.Model.AsyncClient
open AsyncGrpc.Model.CompletionQueuePool AsyncGrpc.Model.ClientSide
open AsyncGrpc.Client.Pool AsyncGrpc.Client.Steps AsyncGrpc.Client.Clients AsyncGrpc.Client.Deadlock
open AsyncGrpc.Client.PoolCalls AsyncGrpc.Client.Queues AsyncGrpc.Client.Tokens

variable {ρ : Type} {s s' : State ρ} {a : Action ρ}

/-- The queue `k` was shut down. -/
def Flagged (s : State ρ) (k : ℕ) : Prop :=
  ∃ q, s.pool.completionQueues[k]? = some q ∧ q.shutDown = true

/-- The queue with this address is in the pool and was not shut down. -/
def Open (s : State ρ) (address : ℕ) : Prop :=
  ∃ k, (addresses s)[k]? = some address ∧ ¬ Flagged s k

/-! ### Which operations are taken -/

/-- The addresses of the queues are different. -/
theorem find_queue (hh : Housed s) {k : ℕ} {q : CompletionQueue PoolThread}
    (hq : s.pool.completionQueues[k]? = some q) :
    s.pool.completionQueues.find? (·.address = q.address) = some q := by
  cases hf : s.pool.completionQueues.find? (·.address = q.address) with
  | none =>
    have hno := List.find?_eq_none.mp hf q (List.mem_of_getElem? hq)
    simp at hno
  | some q' =>
    obtain ⟨k', hq'⟩ := List.getElem?_of_mem (List.mem_of_find?_eq_some hf)
    have haddr : q'.address = q.address := by simpa using List.find?_some hf
    have hk' : (addresses s)[k']? = some q.address := by simp [addresses, hq', haddr]
    have hk : k' = k := hh.unique hk' (by simp [addresses, hq])
    rw [hk, hq] at hq'
    rw [Option.some.inj hq']

theorem flagged_iff {k : ℕ} {q : CompletionQueue PoolThread}
    (hq : s.pool.completionQueues[k]? = some q) : Flagged s k ↔ q.shutDown = true := by
  constructor
  · rintro ⟨q', hq', hflag⟩
    cases hq.symm.trans hq'
    exact hflag
  · exact fun hflag => ⟨q, hq, hflag⟩

/-- An operation on a queue of the pool. -/
theorem beginOperation_of_mem (hh : Housed s) {k : ℕ} {q : CompletionQueue PoolThread}
    (hq : s.pool.completionQueues[k]? = some q) :
    s.beginOperation q.address = if q.shutDown then .error .queueShutDown else .ok () := by
  rw [State.beginOperation, find_queue hh hq]

theorem exists_queue {k address : ℕ} (h : (addresses s)[k]? = some address) :
    ∃ q, s.pool.completionQueues[k]? = some q ∧ q.address = address := by
  rw [addresses, List.getElem?_map] at h
  exact Option.map_eq_some_iff.mp h

/-- An operation on a queue that is not in the pool. -/
theorem beginOperation_of_not_mem {address : ℕ} (h : ∀ k : ℕ, (addresses s)[k]? ≠ some address) :
    s.beginOperation address = .error .queueGone := by
  have hnone : s.pool.completionQueues.find? (·.address = address) = none := by
    rw [List.find?_eq_none]
    intro q hmem
    obtain ⟨k, hq⟩ := List.getElem?_of_mem hmem
    have hne := h k
    simpa [addresses, hq] using hne
  rw [State.beginOperation, hnone]

/-- **gRPC takes an operation exactly if its queue is open.** -/
theorem beginOperation_iff (hh : Housed s) {address : ℕ} :
    s.beginOperation address = .ok () ↔ Open s address := by
  by_cases hmem : ∃ k : ℕ, (addresses s)[k]? = some address
  · obtain ⟨k, hk⟩ := hmem
    obtain ⟨q, hq, rfl⟩ := exists_queue hk
    have hopen : Open s q.address ↔ ¬ Flagged s k := by
      constructor
      · rintro ⟨k', hk', hflag⟩
        rw [← hh.unique hk' hk]
        exact hflag
      · exact fun hflag => ⟨k, hk, hflag⟩
    rw [hopen, beginOperation_of_mem hh hq, flagged_iff hq]
    cases q.shutDown <;> simp
  · rw [beginOperation_of_not_mem fun k hk => hmem ⟨k, hk⟩]
    refine iff_of_false (by simp) ?_
    rintro ⟨k, hk, -⟩
    exact hmem ⟨k, hk⟩

theorem flagged_congr (h : s'.pool.completionQueues = s.pool.completionQueues) {k : ℕ} :
    Flagged s' k ↔ Flagged s k := by
  rw [Flagged, Flagged, h]

theorem flagged_setThread {clients : List (AsyncClient ρ)} {k k' : ℕ} {t : PoolThread} :
    Flagged ({ s with clients := clients }.setThread k' t) k ↔ Flagged s k := by
  unfold Flagged State.setThread
  by_cases hk : k' = k
  · subst hk
    cases hq : s.pool.completionQueues[k']? <;> simp [hq]
  · simp [hk]

theorem flagged_shutDown {i k k' : ℕ} {u : UserThread} {q : CompletionQueue PoolThread}
    (hq : s.pool.completionQueues[k]? = some q) :
    Flagged ({ s with pool := { s.pool with
      completionQueues := s.pool.completionQueues.set k { q with shutDown := true } } }.setUser i u) k' ↔
      k' = k ∨ Flagged s k' := by
  obtain ⟨hlt, -⟩ := List.getElem?_eq_some_iff.mp hq
  unfold Flagged State.setUser
  by_cases hk : k' = k
  · subst hk
    simp [hlt]
  · simp [List.getElem?_set_ne (Ne.symm hk), hk]

/-! ### When a queue is shut down -/

/-- `Shutdown` on this thread has shut the queue `k` down. -/
def Past (k : ℕ) : UserThread → Prop
  | .shutdown m => k < m
  | .join m => k ≤ m
  | _ => False

/-- `Shutdown` joins the threads of queues that it has shut down; a thread ends only when its queue was
shut down; and a queue was shut down only if a `Shutdown` that has not returned has come past it. -/
structure Marked (s : State ρ) : Prop where
  joining : ∀ i k, s.users i = .join k → Flagged s k
  exited : ∀ k, s.threadAt k = some .exited → Flagged s k
  reached : ∀ k, Flagged s k → ∃ i, Past k (s.users i)

/-- A thread of the user moves on. -/
theorem Marked.setUser (h : Marked s) {i : ℕ} {u : UserThread} (hj : ∀ k, u ≠ .join k)
    (hpast : ∀ k, Past k (s.users i) → Past k u)
    (hp : s'.pool.completionQueues = s.pool.completionQueues)
    (hu : s'.users = Function.update s.users i u) : Marked s' where
  joining := fun i' k hjoin => by
    rw [flagged_congr hp]
    rw [hu] at hjoin
    by_cases hi : i' = i
    · subst hi
      rw [Function.update_self] at hjoin
      exact absurd hjoin (hj k)
    · rw [Function.update_of_ne hi] at hjoin
      exact h.joining i' k hjoin
  exited := fun k ht => by
    rw [flagged_congr hp]
    rw [State.threadAt, hp] at ht
    exact h.exited k ht
  reached := fun k hflag => by
    obtain ⟨i', hk⟩ := h.reached k ((flagged_congr hp).mp hflag)
    refine ⟨i', ?_⟩
    rw [hu]
    by_cases hi : i' = i
    · subst hi
      rw [Function.update_self]
      exact hpast k hk
    · rw [Function.update_of_ne hi]
      exact hk

/-- The thread of a queue moves on; it ends only when its queue was shut down. -/
theorem Marked.setThread (h : Marked s) (clients : List (AsyncClient ρ)) {k : ℕ} {t0 t : PoolThread}
    (ht : s.threadAt k = some t0) (hx : t = .exited → Flagged s k) :
    Marked ({ s with clients := clients }.setThread k t) where
  joining := fun i k' hj => flagged_setThread.mpr (h.joining i k' hj)
  exited := fun k' ht' => by
    rw [flagged_setThread]
    rw [threadAt_setThread (s := { s with clients := clients }) ht] at ht'
    split_ifs at ht' with hk
    · rw [hk]
      exact hx (Option.some.inj ht')
    · exact h.exited k' ht'
  reached := fun k' hflag => h.reached k' (flagged_setThread.mp hflag)

section Steps
variable [Inhabited ρ]

omit [Inhabited ρ] in
/-- New queues are open and their threads have not ended. -/
theorem Marked.initialized (h : Marked s) (hl : Locked s) (hs : Sound (viewPool s.pool))
    (hm : s.mutex = none) {p : Pool PoolThread} (hp : s.pool.initializeQueues .next = .ok p) :
    Marked { s with pool := p } := by
  rcases hi : s.pool.initialized with _ | _
  · rw [initializeQueues_empty hi (List.map_eq_nil_iff.mp (hs.empty hi))] at hp
    cases hp
    refine ⟨fun i k hj => ?_, fun k ht => ?_, ?_⟩
    · exact absurd hm (hl.held (m := k) (by rw [show s.users i = .join k from hj]; rfl))
    · simp only [State.threadAt, List.getElem?_map, Option.bind_eq_some_iff,
        Option.map_eq_some_iff] at ht
      obtain ⟨q, ⟨_, -, rfl⟩, ht⟩ := ht
      cases ht
    · rintro k ⟨q, hq, hflag⟩
      simp only [List.getElem?_map, Option.map_eq_some_iff] at hq
      obtain ⟨_, -, rfl⟩ := hq
      cases hflag
  · rw [initializeQueues_initialized hi] at hp
    cases hp
    exact h

theorem Marked.constructed (h : Marked s) (hl : Locked s) (hs : Sound (viewPool s.pool)) {rand : ℕ}
    {c : Construction} {c' : Option Construction} {s1 : State ρ} (hc : Constructed s rand c s1 c') :
    Marked s1 := by
  cases hc with
  | initialized _ hm hp => exact h.initialized hl hs hm hp
  | selected => exact h
  | found => exact ⟨h.joining, h.exited, h.reached⟩

theorem Marked.stepped (h : Marked s) (hl : Locked s) (hsound : Sound (viewPool s.pool))
    (hs : Stepped s a s') : Marked s' := by
  cases hs with
  | started hu hm hp => exact h.initialized hl hsound hm hp
  | called hu => exact h.setUser (by simp) (by rw [hu]; exact fun _ => False.elim) rfl rfl
  | @constructed i _ _ c' s1 hu hc =>
    have hu1 : s1.users i = s.users i := by rw [(constructed_frame hc).2.1]
    refine (h.constructed hl hsound hc).setUser (i := i) (u := c'.elim .idle .constructs)
      (by cases c' <;> simp) ?_ rfl rfl
    rw [hu1, hu]
    exact fun _ => False.elim
  | wrote => exact ⟨h.joining, h.exited, h.reached⟩
  | checked hu => exact h.setUser (by simp) (by rw [hu]; exact fun _ => False.elim) rfl rfl
  | assigned hu => exact h.setUser (by simp) (by rw [hu]; exact fun _ => False.elim) rfl rfl
  | locked hu => exact h.setUser (by simp) (by rw [hu]; exact fun _ => False.elim) rfl rfl
  | @shutDown i k q hu hq =>
    refine ⟨fun i' k' hj => ?_, fun k' ht => ?_, fun k' hflag => ?_⟩
    · rw [flagged_shutDown hq]
      by_cases hi : i' = i
      · subst hi
        simp only [State.setUser, Function.update_self, UserThread.join.injEq] at hj
        exact .inl hj.symm
      · simp only [State.setUser, Function.update_of_ne hi] at hj
        exact .inr (h.joining i' k' hj)
    · rw [flagged_shutDown hq]
      exact .inr (h.exited k' ((threadAt_shutDown hq k').symm.trans ht))
    · rcases (flagged_shutDown hq).mp hflag with rfl | hflag
      · exact ⟨i, by simp [State.setUser, Past]⟩
      · obtain ⟨i', hpast⟩ := h.reached k' hflag
        refine ⟨i', ?_⟩
        by_cases hi : i' = i
        · subst hi
          rw [hu] at hpast
          simpa [State.setUser, Past] using Nat.le_of_lt hpast
        · simpa [State.setUser, hi] using hpast
  | @cleared i k hu hk =>
    refine ⟨fun i' k' hj => ?_, ?_, ?_⟩
    · by_cases hi : i' = i
      · subst hi
        simp [State.setUser] at hj
      · simp only [State.setUser, Function.update_of_ne hi] at hj
        have h1 := hl.holder i k (by rw [hu]; rfl)
        have h2 := hl.holder i' k' (by rw [hj]; rfl)
        rw [h1] at h2
        exact absurd (Option.some.inj h2).symm hi
    · rintro k' ⟨⟩
    · rintro k' ⟨q, ⟨⟩, -⟩
  | @joined i k hu =>
    refine h.setUser (by simp) (fun k' hk' => ?_) rfl rfl
    rw [hu] at hk'
    exact Nat.lt_succ_of_le hk'
  | completed ht => exact h.setThread _ ht fun hx => absurd (congrArg spotOf hx) (spotOf_thread_ne _ _)
  | exited ht hq hflag => exact h.setThread s.clients ht fun _ => ⟨_, hq, hflag⟩
  | entered ht => exact h.setThread s.clients ht (by simp)
  | @callbackConstructed k j _ _ c' s1 ht hc =>
    have hseen := (constructed_view hsound (x := .inr k) (calls_thread ht) hc).2 k _ ht
    exact (h.constructed hl hsound hc).setThread s1.clients hseen (by simp)
  | callbackWrote => exact ⟨h.joining, h.exited, h.reached⟩
  | returned ht => exact h.setThread _ ht fun hx => absurd (congrArg spotOf hx) (spotOf_thread_ne _ _)

theorem marked_of_reachable (hs : Reachable (clientSide ρ) s) : Marked s := by
  have hinv := inv_of_reachable (I := fun s => Reachable (clientSide ρ) s ∧ Marked s) ?_ ?_ hs
  · exact hinv.2
  · refine ⟨Run.init.reachable, ?_, ?_, ?_⟩
    · rintro i k ⟨⟩
    · rintro k ⟨⟩
    · rintro k ⟨q, ⟨⟩, -⟩
  · rintro s a s' ⟨hr, h⟩ hstep
    exact ⟨hr.step hstep,
      h.stepped (locked_of_reachable hr) (sound_of_reachable hr) (stepped_of_step hstep)⟩

/-! ### A closed queue stays closed -/

omit [Inhabited ρ] in
theorem open_congr (h : s'.pool.completionQueues = s.pool.completionQueues) {address : ℕ} :
    Open s' address ↔ Open s address := by
  unfold Open
  simp only [flagged_congr h]
  rw [addresses, addresses, h]

end Steps

end AsyncGrpc.Client.ClosedQueues
