import AsyncGrpc.Model.CompletionQueuePool

/-! # Which queue `GetCompletionQueue` returns

The sections under `mutex_` leave a sound pool: it is initialised exactly when it has queues, and all
of them are started (`Sound`). So no `CHECK` of `CompletionQueue` fails. But `GetCompletionQueue` looks
at the queues after `Initialize` has released `mutex_`, and then a `Shutdown` may have cleared them:
`selection_safe` says what holds as long as none comes between. -/

namespace AsyncGrpc.Client.Pool

open AsyncGrpc.Lib.Runs AsyncGrpc.Model.CompletionQueuePool

variable {τ ι : Type} {p p' : Pool τ}

/-! ### The sections under the mutex -/

/-- Between the sections the pool has queues exactly when it is initialised, and they all run. -/
structure Sound (p : Pool τ) : Prop where
  positive : 0 < p.numberCompletionQueues
  empty : p.initialized = false → p.completionQueues = []
  filled : p.initialized = true → p.completionQueues ≠ []
  running : ∀ q ∈ p.completionQueues, q.thread.isSome = true ∧ q.shutDown = false

theorem sound_construct : Sound (Pool.construct : Pool τ) :=
  ⟨Nat.two_pos, fun _ => rfl, by simp [Pool.construct], by simp [Pool.construct]⟩

theorem sound_setNumber (h : Sound p) {number : ℕ} (hn : 0 < number) : Sound (p.setNumber number) :=
  ⟨hn, h.empty, h.filled, h.running⟩

theorem sound_clear (h : Sound p) : Sound p.clear :=
  ⟨h.positive, fun _ => rfl, by simp [Pool.clear], by simp [Pool.clear]⟩

theorem initializeQueues_initialized (h : p.initialized = true) (t : τ) :
    p.initializeQueues t = .ok p := by
  simp [Pool.initializeQueues, h]
  rfl

/-- `Initialize` of a pool without queues constructs and starts them. -/
theorem initializeQueues_empty (h : p.initialized = false) (hq : p.completionQueues = []) (t : τ) :
    p.initializeQueues t = .ok { p with
      completionQueues := (List.range p.numberCompletionQueues).map fun k =>
        ⟨p.constructed + k, some t, false⟩
      constructed := p.constructed + p.numberCompletionQueues
      initialized := true } := by
  have hresize : p.resize.completionQueues =
      (List.range p.numberCompletionQueues).map fun k => ⟨p.constructed + k, none, false⟩ := by
    simp [Pool.resize, hq]
  have hstart := mapM_ok (f := CompletionQueue.start t)
    (g := fun q => { q with thread := some t }) (l := p.resize.completionQueues) (by
      intro q hmem
      rw [hresize] at hmem
      obtain ⟨k, -, rfl⟩ := List.mem_map.mp hmem
      rfl)
  simp only [Pool.initializeQueues, h]
  rw [if_neg (by simp), hstart, hresize, List.map_map]
  simp only [Pool.resize, hq]
  rfl

/-- `Initialize` leaves an initialised pool as it is, and starts the queues of another. -/
theorem initializeQueues_ok (h : Sound p) (t : τ) :
    ∃ p', p.initializeQueues t = .ok p' ∧ Sound p' ∧ p'.initialized = true ∧
      (p.initialized = true → p' = p) := by
  rcases hi : p.initialized with _ | _
  · refine ⟨_, initializeQueues_empty hi (h.empty hi) t, ⟨h.positive, ?_, ?_, ?_⟩, rfl, ?_⟩
    · rintro ⟨⟩
    · intro _ hnil
      have hpos := h.positive
      have hlen := congrArg List.length hnil
      simp only [List.length_map, List.length_range, List.length_nil] at hlen
      omega
    · intro q hq
      obtain ⟨k, -, rfl⟩ := List.mem_map.mp hq
      exact ⟨rfl, rfl⟩
    · rintro ⟨⟩
  · exact ⟨p, initializeQueues_initialized hi t, h, hi, fun _ => rfl⟩

/-- `Shutdown` clears the pool. -/
theorem shutdown_ok (h : Sound p) : p.shutdown = .ok p.clear := by
  have hall := mapM_ok (f := CompletionQueue.shutdown) (g := fun q => { q with shutDown := true })
    (l := p.completionQueues) (fun q hq => by simp [CompletionQueue.shutdown, (h.running q hq).1])
  unfold Pool.shutdown
  rw [hall]
  rfl

/-! ### Steps -/

section Steps
variable [DecidableEq ι] {s s' : PoolState ι} {a : PoolAction ι}

/-- The pool is sound, and only positive numbers are about to be assigned. -/
structure Steady (s : PoolState ι) : Prop where
  sound : Sound s.pool
  number : ∀ i number, s.calls i = .setNumber number → 0 < number

/-- What a step of the pool does. -/
inductive Called (s : PoolState ι) : PoolAction ι → PoolState ι → Prop
  | start {i : ι} {p : Pool Unit} (hc : s.calls i = .idle)
      (hp : s.pool.initializeQueues () = .ok p) : Called s (.start i) (s.proceed i .idle p)
  | getInitialize {i : ι} {p : Pool Unit} (hc : s.calls i = .idle)
      (hp : s.pool.initializeQueues () = .ok p) :
      Called s (.getInitialize i) (s.proceed i .getSize p)
  | getSize {i : ι} {rand : ℕ} (hc : s.calls i = .getSize) (hs : s.pool.completionQueues.length ≠ 0) :
      Called s (.getSize i rand)
        (s.proceed i (.getAt (rand % s.pool.completionQueues.length)) s.pool)
  | getAt {i : ι} {qid : ℕ} (hc : s.calls i = .getAt qid) :
      Called s (.getAt i) (s.proceed i .idle s.pool)
  | checkSetNumber {i : ι} {number : ℕ} (hc : s.calls i = .idle) (hn : 0 < number) :
      Called s (.checkSetNumber i number) (s.proceed i (.setNumber number) s.pool)
  | setNumber {i : ι} {number : ℕ} (hc : s.calls i = .setNumber number) :
      Called s (.setNumber i) (s.proceed i .idle (s.pool.setNumber number))
  | shutdown {i : ι} (hc : s.calls i = .idle) :
      Called s (.shutdown i) (s.proceed i .idle s.pool.clear)

theorem called_of_step (hsound : Sound s.pool) (h : (poolMachine ι).Step s a s') : Called s a s' := by
  replace h : stepPool s a = some (.ok s') := h
  unfold stepPool at h
  cases a with
  | start i =>
    dsimp only at h
    split_ifs at h with hc
    obtain ⟨p, hp, rfl⟩ := map_eq_ok.mp (Option.some.inj h)
    exact .start hc hp
  | getInitialize i =>
    dsimp only at h
    split_ifs at h with hc
    obtain ⟨p, hp, rfl⟩ := map_eq_ok.mp (Option.some.inj h)
    exact .getInitialize hc hp
  | getSize i rand =>
    dsimp only at h
    split_ifs at h with hc
    obtain ⟨qid, hq, rfl⟩ := map_eq_ok.mp (Option.some.inj h)
    unfold Pool.selectQueue at hq
    split_ifs at hq with hsize
    cases hq
    exact .getSize hc hsize
  | getAt i =>
    dsimp only at h
    split at h
    · next qid hc =>
      obtain ⟨_, -, rfl⟩ := map_eq_ok.mp (Option.some.inj h)
      exact .getAt hc
    · cases h
  | checkSetNumber i number =>
    dsimp only at h
    split_ifs at h with hc
    obtain ⟨_, hn, rfl⟩ := map_eq_ok.mp (Option.some.inj h)
    unfold Pool.checkSetNumber at hn
    split_ifs at hn with hi hz
    exact .checkSetNumber hc (Nat.pos_of_ne_zero hz)
  | setNumber i =>
    dsimp only at h
    split at h
    · next number hc =>
      cases h
      exact .setNumber hc
    · cases h
  | shutdown i =>
    dsimp only at h
    split_ifs at h with hc
    obtain ⟨p, hp, rfl⟩ := map_eq_ok.mp (Option.some.inj h)
    rw [shutdown_ok hsound] at hp
    cases hp
    exact .shutdown hc

/-- Where the thread `i'` stands after a step of `i`. -/
theorem calls_proceed {i i' : ι} {call call' : PoolCall} {p : Pool Unit}
    (h : (s.proceed i call p).calls i' = call') :
    i' = i ∧ call = call' ∨ s.calls i' = call' := by
  by_cases hi : i' = i
  · subst hi
    exact Or.inl ⟨rfl, by simpa [PoolState.proceed] using h⟩
  · exact Or.inr (by simpa [PoolState.proceed, Function.update_of_ne hi] using h)

theorem sound_called (h : Steady s) (hc : Called s a s') : Sound s'.pool := by
  cases hc with
  | start _ hp =>
    obtain ⟨p', hp', hs, -⟩ := initializeQueues_ok h.sound ()
    cases hp.symm.trans hp'
    exact hs
  | getInitialize _ hp =>
    obtain ⟨p', hp', hs, -⟩ := initializeQueues_ok h.sound ()
    cases hp.symm.trans hp'
    exact hs
  | setNumber hc => exact sound_setNumber h.sound (h.number _ _ hc)
  | shutdown => exact sound_clear h.sound
  | _ => exact h.sound

theorem Steady.called (h : Steady s) (hc : Called s a s') : Steady s' := by
  refine ⟨sound_called h hc, fun i' number hi' => ?_⟩
  cases hc with
  | checkSetNumber _ hn =>
    rcases calls_proceed hi' with ⟨-, he⟩ | hold
    · cases he
      exact hn
    · exact h.number _ _ hold
  | _ =>
    rcases calls_proceed hi' with ⟨-, he⟩ | hold
    · cases he
    · exact h.number _ _ hold

theorem steady_of_reachable (hs : Reachable (poolMachine ι) s) : Steady s :=
  inv_of_reachable ⟨sound_construct, fun _ _ h => by cases h⟩
    (fun _ _ _ h hstep => h.called (called_of_step h.sound hstep)) hs

/-! ### Selection -/

/-- The thread is in `GetCompletionQueue`, behind `Initialize`. -/
def selecting : PoolCall → Bool
  | .getSize | .getAt _ => true
  | .idle | .setNumber _ => false

/-- `Shutdown` comes only when no thread is in `GetCompletionQueue` behind `Initialize`. -/
def NoneSelecting (s : PoolState ι) : PoolAction ι → Prop
  | .shutdown _ => ∀ i, selecting (s.calls i) = false
  | _ => True

/-- What the thread `i` relies on in `GetCompletionQueue`. -/
structure Selectable (s : PoolState ι) (i : ι) : Prop where
  size : s.calls i = .getSize → s.pool.initialized = true
  index : ∀ qid, s.calls i = .getAt qid → qid < s.pool.completionQueues.length

omit [DecidableEq ι] in
theorem selectable_of_not_selecting {i : ι} (h : selecting (s.calls i) = false) : Selectable s i :=
  ⟨fun hi => (by rw [hi] at h; cases h), fun qid hi => (by rw [hi] at h; cases h)⟩

/-- `Initialize` takes nothing from a thread that selects. -/
theorem selectable_initialized {i i' : ι} {call : PoolCall} {p : Pool Unit} (h : Selectable s i')
    (hsound : Sound s.pool) (hp : s.pool.initializeQueues () = .ok p)
    (hcall : ∀ qid, call ≠ .getAt qid) : Selectable (s.proceed i call p) i' := by
  obtain ⟨p', hp', -, hinit, hsame⟩ := initializeQueues_ok hsound ()
  cases hp.symm.trans hp'
  refine ⟨fun _ => hinit, fun qid hi' => ?_⟩
  rcases calls_proceed hi' with ⟨-, he⟩ | hold
  · exact absurd he (hcall qid)
  · have hlt := h.index qid hold
    by_cases hi : s.pool.initialized = true
    · rw [show (s.proceed i call p).pool = s.pool from hsame hi]
      exact hlt
    · rw [hsound.empty (Bool.eq_false_iff.mpr hi)] at hlt
      cases hlt

/-- A thread that moves on outside a selection takes nothing from one that selects, either. -/
theorem selectable_proceed {i i' : ι} {call : PoolCall} {p : Pool Unit} (h : Selectable s i')
    (hcall : selecting call = false) (hinit : p.initialized = s.pool.initialized)
    (hqueues : p.completionQueues = s.pool.completionQueues) :
    Selectable (s.proceed i call p) i' := by
  refine ⟨fun hi' => ?_, fun qid hi' => ?_⟩
  · rcases calls_proceed hi' with ⟨-, rfl⟩ | hold
    · cases hcall
    · exact hinit.trans (h.size hold)
  · rcases calls_proceed hi' with ⟨-, rfl⟩ | hold
    · cases hcall
    · exact lt_of_lt_of_eq (h.index qid hold) (congrArg List.length hqueues).symm

theorem Selectable.called {i : ι} (h : Selectable s i) (hsteady : Steady s) (hc : Called s a s')
    (hn : ∀ j, a = .shutdown j → selecting (s.calls i) = false) : Selectable s' i := by
  cases hc with
  | start _ hp => exact selectable_initialized h hsteady.sound hp (by simp)
  | getInitialize _ hp => exact selectable_initialized h hsteady.sound hp (by simp)
  | getSize _ hsize =>
    refine ⟨fun hi' => ?_, fun qid hi' => ?_⟩
    · rcases calls_proceed hi' with ⟨-, he⟩ | hold
      · cases he
      · exact h.size hold
    · rcases calls_proceed hi' with ⟨-, he⟩ | hold
      · cases he
        exact Nat.mod_lt _ (Nat.pos_of_ne_zero hsize)
      · exact h.index qid hold
  | getAt => exact selectable_proceed h rfl rfl rfl
  | checkSetNumber => exact selectable_proceed h rfl rfl rfl
  | setNumber => exact selectable_proceed h rfl rfl rfl
  | @shutdown j hj =>
    apply selectable_of_not_selecting
    by_cases hi : i = j
    · simp [PoolState.proceed, hi, selecting]
    · simpa [PoolState.proceed, Function.update_of_ne hi] using hn j rfl

theorem selectable_of_run {as : List (PoolAction ι)} (hr : Run (poolMachine ι) as s)
    (ha : Along (poolMachine ι) NoneSelecting as) (i : ι) : Selectable s i := by
  induction hr with
  | init => exact selectable_of_not_selecting rfl
  | step hr hs ih =>
    obtain ⟨h1, h2⟩ := (along_snoc hr).mp ha
    have hsteady := steady_of_reachable hr.reachable
    refine (ih h1).called hsteady (called_of_step hsteady.sound hs) ?_
    rintro j rfl
    exact h2 i

/-- Why a step of a sound pool aborts. -/
theorem aborts_of_sound {f : PoolFatal} (hsound : Sound s.pool) (h : (poolMachine ι).Aborts s a f) :
    (f = .moduloByZero ∧ s.pool.completionQueues.length = 0 ∧ ∃ i, s.calls i = .getSize) ∨
      (f = .outOfRange ∧ ∃ i qid, s.calls i = .getAt qid ∧ s.pool.completionQueues[qid]? = none) ∨
      f = .afterInitialization ∨ f = .notPositive := by
  replace h : stepPool s a = some (.error f) := h
  unfold stepPool at h
  have hinit : s.pool.initializeQueues () ≠ .error f := by
    obtain ⟨p', hp', -⟩ := initializeQueues_ok hsound ()
    rw [hp']
    simp
  cases a with
  | start i =>
    dsimp only at h
    split_ifs at h
    exact absurd (map_eq_error.mp (Option.some.inj h)) hinit
  | getInitialize i =>
    dsimp only at h
    split_ifs at h
    exact absurd (map_eq_error.mp (Option.some.inj h)) hinit
  | getSize i rand =>
    dsimp only at h
    split_ifs at h with hc
    have hq := map_eq_error.mp (Option.some.inj h)
    unfold Pool.selectQueue at hq
    split_ifs at hq with hsize
    cases hq
    exact Or.inl ⟨rfl, hsize, i, hc⟩
  | getAt i =>
    dsimp only at h
    split at h
    · next qid hc =>
      have hq := map_eq_error.mp (Option.some.inj h)
      unfold Pool.queueAt at hq
      split at hq
      · cases hq
      · next hnone =>
        cases hq
        exact Or.inr (Or.inl ⟨rfl, i, qid, hc, hnone⟩)
    · cases h
  | checkSetNumber i number =>
    dsimp only at h
    split_ifs at h
    have hn := map_eq_error.mp (Option.some.inj h)
    unfold Pool.checkSetNumber at hn
    split_ifs at hn <;> cases hn
    · exact Or.inr (Or.inr (Or.inl rfl))
    · exact Or.inr (Or.inr (Or.inr rfl))
  | setNumber i =>
    dsimp only at h
    split at h <;> cases h
  | shutdown i =>
    dsimp only at h
    split_ifs at h
    have hp := map_eq_error.mp (Option.some.inj h)
    rw [shutdown_ok hsound] at hp
    cases hp

/-- **The pool hands out running queues, unless `Shutdown` comes into a selection.** The `CHECK`s of
`CompletionQueue::Start` and `Shutdown` never fail. And when every `Shutdown` comes while no thread is
in `GetCompletionQueue` behind `Initialize`, there are queues whenever one is selected, and the one
that `at` returns is in the pool, started and not shut down. -/
theorem selection_safe {as : List (PoolAction ι)} (hr : Run (poolMachine ι) as s) :
    (∀ a, ¬ (poolMachine ι).Aborts s a .alreadyStarted ∧
        ¬ (poolMachine ι).Aborts s a .notYetStarted) ∧
      (Along (poolMachine ι) NoneSelecting as →
        (∀ i, s.calls i = .getSize → s.pool.completionQueues.length ≠ 0) ∧
        (∀ i qid, s.calls i = .getAt qid → ∃ q, s.pool.completionQueues[qid]? = some q ∧
          s.pool.queueAt qid = .ok q.address ∧ q.thread.isSome = true ∧ q.shutDown = false) ∧
        ∀ a, ¬ (poolMachine ι).Aborts s a .moduloByZero ∧
          ¬ (poolMachine ι).Aborts s a .outOfRange) := by
  have hsound := (steady_of_reachable hr.reachable).sound
  refine ⟨fun a => ⟨fun h => ?_, fun h => ?_⟩, fun ha => ?_⟩
  · rcases aborts_of_sound hsound h with ⟨hf, -⟩ | ⟨hf, -⟩ | hf | hf <;> cases hf
  · rcases aborts_of_sound hsound h with ⟨hf, -⟩ | ⟨hf, -⟩ | hf | hf <;> cases hf
  have hsel := selectable_of_run hr ha
  have hsize : ∀ i, s.calls i = .getSize → s.pool.completionQueues.length ≠ 0 := by
    intro i hi hlen
    exact hsound.filled ((hsel i).size hi) (List.length_eq_zero_iff.mp hlen)
  have hat : ∀ i qid, s.calls i = .getAt qid → ∃ q, s.pool.completionQueues[qid]? = some q ∧
      s.pool.queueAt qid = .ok q.address ∧ q.thread.isSome = true ∧ q.shutDown = false := by
    intro i qid hi
    have hq := List.getElem?_eq_getElem ((hsel i).index qid hi)
    refine ⟨_, hq, ?_, hsound.running _ (List.mem_of_getElem? hq)⟩
    unfold Pool.queueAt
    rw [hq]
  refine ⟨hsize, hat, fun a => ⟨fun h => ?_, fun h => ?_⟩⟩
  · rcases aborts_of_sound hsound h with ⟨-, hlen, i, hi⟩ | ⟨hf, -⟩ | hf | hf
    · exact hsize i hi hlen
    all_goals cases hf
  · rcases aborts_of_sound hsound h with ⟨hf, -⟩ | ⟨-, i, qid, hi, hnone⟩ | hf | hf
    · cases hf
    · obtain ⟨q, hq, -⟩ := hat i qid hi
      cases hnone.symm.trans hq
    all_goals cases hf

end Steps

/-- The condition on a step as a check, for threads that can be listed. -/
def checkNoneSelecting (s : PoolState Bool) : PoolAction Bool → Bool
  | .shutdown _ => !(selecting (s.calls false) || selecting (s.calls true))
  | _ => true

theorem noneSelecting_of_check (s : PoolState Bool) (a : PoolAction Bool)
    (h : checkNoneSelecting s a = true) : NoneSelecting s a := by
  cases a with
  | shutdown i =>
    simp only [checkNoneSelecting, Bool.not_eq_true', Bool.or_eq_false_iff] at h
    rintro (_ | _)
    · exact h.1
    · exact h.2
  | _ => trivial

/-- The pool is shut down and started again, and the second queue is selected. -/
theorem selection_safe_restarted : ∃ (as : List (PoolAction Bool)) (s : PoolState Bool),
    Run (poolMachine Bool) as s ∧ s.calls true = .getAt 1 ∧
      ∃ q, s.pool.completionQueues[1]? = some q ∧ s.pool.queueAt 1 = .ok q.address ∧
        q.thread.isSome = true ∧ q.shutDown = false := by
  obtain ⟨s, hr, hp⟩ := exists_run (poolMachine Bool)
    [.start false, .shutdown false, .getInitialize true, .getSize true 7]
    (fun s : PoolState Bool => decide (s.calls true = .getAt 1)) (by decide)
  rw [decide_eq_true_eq] at hp
  have ha := along_of_check (M := poolMachine Bool) noneSelecting_of_check (show checkAlong _ _ _
    [.start false, .shutdown false, .getInitialize true, .getSize true 7] = true by decide)
  exact ⟨_, s, hr, hp, ((selection_safe hr).2 ha).2.1 true 1 hp⟩

/-- A `Shutdown` between `Initialize` and `size()`: the modulus is zero. -/
theorem selection_from_cleared_pool : ∃ s : PoolState ℕ,
    Run (poolMachine ℕ) [.getInitialize 0, .shutdown 1] s ∧ s.calls 0 = .getSize ∧
      s.pool.completionQueues.length = 0 ∧
      (poolMachine ℕ).Aborts s (.getSize 0 7) .moduloByZero := by
  obtain ⟨s, hr, hp⟩ := exists_run (poolMachine ℕ) [.getInitialize 0, .shutdown 1]
    (fun s : PoolState ℕ => decide (s.calls 0 = .getSize ∧ s.pool.completionQueues.length = 0))
    (by decide)
  rw [decide_eq_true_eq] at hp
  refine ⟨s, hr, hp.1, hp.2, ?_⟩
  show stepPool s (.getSize 0 7) = some (.error .moduloByZero)
  simp only [stepPool, hp.1, Pool.selectQueue, hp.2, if_true]
  rfl

end AsyncGrpc.Client.Pool
