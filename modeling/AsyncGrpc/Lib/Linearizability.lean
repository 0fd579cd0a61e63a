import AsyncGrpc.Lib.Monitors

/-! # Monitors are linearizable

The trace of a run of a monitor has the calls and the returns of its threads and, between them, the
sections under the lock that ended a method. A section takes effect at one moment, while its thread is
between its call and its return (`Performs`), and the sections by themselves are a sequential history
(`sequential_of_reachable`).

* `linearized_of_traced`: the shape of a trace.
* `took_between`: what a call returns is the result of a section of the same method that ran after the
  call was made and before it returned. -/

namespace AsyncGrpc.Lib.Linearizability

open AsyncGrpc.Lib.Runs AsyncGrpc.Lib.Monitors

/-- What happens to the threads: `t` calls a method, its section takes effect, it returns. -/
inductive Event (κ ρ ι : Type)
  | called (t : ι) (k : κ)
  | took (t : ι) (e : Entry κ ρ)
  | returned (t : ι) (result : ρ)
  deriving DecidableEq, Repr

/-- How far the call of a thread has come. -/
inductive Phase (κ ρ : Type)
  | outside
  | pending (k : κ)
  | over (result : ρ)
  deriving DecidableEq, Repr

variable {σ κ ρ ε ι : Type}

/-- The thread of an event. -/
def Event.thread : Event κ ρ ι → ι
  | .called t _ => t
  | .took t _ => t
  | .returned t _ => t

@[simp] theorem Event.thread_called (t : ι) (k : κ) : (.called t k : Event κ ρ ι).thread = t := rfl

@[simp] theorem Event.thread_took (t : ι) (e : Entry κ ρ) : (.took t e : Event κ ρ ι).thread = t := rfl

@[simp] theorem Event.thread_returned (t : ι) (result : ρ) :
    (.returned t result : Event κ ρ ι).thread = t := rfl

/-- The section of an event. -/
def Event.entry : Event κ ρ ι → Option (Entry κ ρ)
  | .took _ e => some e
  | _ => none

/-- The sections in the order in which they took effect. -/
def sections (T : List (Event κ ρ ι)) : List (Entry κ ρ) := T.filterMap Event.entry

/-- The phase of a thread; whether it sleeps does not matter. -/
def phaseOf : Thread κ ρ → Phase κ ρ
  | .outside => .outside
  | .entering k | .asleep k | .expired k => .pending k
  | .leaving _ result => .over result

/-- The events of one thread, from one phase to another: calls one after the other, each of them made,
taking effect once as the method that was called, and returning the result of that. -/
inductive Performs (t : ι) : Phase κ ρ → List (Event κ ρ ι) → Phase κ ρ → Prop
  | nil {p : Phase κ ρ} : Performs t p [] p
  | called {k : κ} {l : List (Event κ ρ ι)} {p : Phase κ ρ} (h : Performs t (.pending k) l p) :
      Performs t .outside (.called t k :: l) p
  | took {e : Entry κ ρ} {l : List (Event κ ρ ι)} {p : Phase κ ρ} (h : Performs t (.over e.result) l p) :
      Performs t (.pending e.method) (.took t e :: l) p
  | returned {result : ρ} {l : List (Event κ ρ ι)} {p : Phase κ ρ} (h : Performs t .outside l p) :
      Performs t (.over result) (.returned t result :: l) p

section Calls
variable {t : ι} {p q : Phase κ ρ} {l l' : List (Event κ ρ ι)}

theorem Performs.append (h : Performs t p l q) {r : Phase κ ρ} (h' : Performs t q l' r) :
    Performs t p (l ++ l') r := by
  induction h with
  | nil => exact h'
  | called _ ih => exact .called (ih h')
  | took _ ih => exact .took (ih h')
  | returned _ ih => exact .returned (ih h')

theorem Performs.split : ∀ {l : List (Event κ ρ ι)} {p : Phase κ ρ}, Performs t p (l ++ l') q →
    ∃ r, Performs t p l r ∧ Performs t r l' q
  | [], p, h => ⟨p, .nil, h⟩
  | _ :: l, _, h => by
    cases h with
    | called h =>
      obtain ⟨r, h1, h2⟩ := h.split
      exact ⟨r, .called h1, h2⟩
    | took h =>
      obtain ⟨r, h1, h2⟩ := h.split
      exact ⟨r, .took h1, h2⟩
    | returned h =>
      obtain ⟨r, h1, h2⟩ := h.split
      exact ⟨r, .returned h1, h2⟩

/-- Between the call and the return of a thread is one event, its section. -/
theorem Performs.between {k : κ} {result : ρ}
    (h : Performs t p (.called t k :: (l ++ .returned t result :: l')) q)
    (hno : ∀ result', .returned t result' ∉ l) :
    ∃ e : Entry κ ρ, l = [.took t e] ∧ e.method = k ∧ e.result = result := by
  cases h with
  | called h =>
    cases l with
    | nil => cases h
    | cons x l =>
      cases h with
      | @took e _ _ h =>
        cases l with
        | nil =>
          cases h
          exact ⟨e, rfl, rfl, rfl⟩
        | cons y l =>
          cases h
          exact absurd (by simp) (hno e.result)

end Calls

variable [DecidableEq ι]

/-- The events of the thread `t`. -/
def ofThread (t : ι) (T : List (Event κ ρ ι)) : List (Event κ ρ ι) := T.filter (·.thread = t)

/-- The events of one step. -/
def eventsOf (s s' : MonitorState σ κ ρ ι) : MonitorAction κ ι → List (Event κ ρ ι)
  | .call t k => [.called t k]
  | .enter t | .reenter t => (s'.log.drop s.log.length).map (.took t)
  | .wake _ | .expire _ => []
  | .notifyAll t =>
    match s.threads t with
    | .leaving _ result => [.returned t result]
    | _ => []

/-- The run of the actions `as` has the trace `T`. -/
inductive Traced (M : Monitor σ κ ρ ε) (ι : Type) [DecidableEq ι] (s0 : σ) :
    List (MonitorAction κ ι) → List (Event κ ρ ι) → MonitorState σ κ ρ ι → Prop
  | init : Traced M ι s0 [] [] (M.machine ι s0).init
  | step {as : List (MonitorAction κ ι)} {T : List (Event κ ρ ι)} {s s' : MonitorState σ κ ρ ι}
      {a : MonitorAction κ ι} (h : Traced M ι s0 as T s) (hs : (M.machine ι s0).Step s a s') :
      Traced M ι s0 (as ++ [a]) (T ++ eventsOf s s' a) s'

/-! ### One step and its events -/

section Steps
variable {M : Monitor σ κ ρ ε} {s0 : σ} {s s' : MonitorState σ κ ρ ι} {a : MonitorAction κ ι}

/-- Every run has a trace. -/
theorem traced_of_run {as : List (MonitorAction κ ι)} (h : Run (M.machine ι s0) as s) :
    ∃ T, Traced M ι s0 as T s := by
  induction h with
  | init => exact ⟨[], .init⟩
  | step _ hs ih =>
    obtain ⟨T, hT⟩ := ih
    exact ⟨_, hT.step hs⟩

/-- The thread that makes a step, its events and where it stands before and after. -/
structure Advanced (s s' : MonitorState σ κ ρ ι) (t : ι) (l : List (Event κ ρ ι)) : Prop where
  own : ∀ e ∈ l, e.thread = t
  log : s'.log = s.log ++ sections l
  others : ∀ t', t' ≠ t → phaseOf (s'.threads t') = phaseOf (s.threads t')
  performs : Performs t (phaseOf (s.threads t)) l (phaseOf (s'.threads t))

/-- A thread moves on within a phase. -/
theorem advanced_move {t : ι} {p : Thread κ ρ} (hp : phaseOf p = phaseOf (s.threads t)) :
    Advanced s (s.move t p) t [] where
  own := by simp
  log := by simp [MonitorState.move, sections]
  others := fun t' ht => by simp [MonitorState.move, ht]
  performs := by simpa [MonitorState.move, hp] using Performs.nil

/-- A section ends a method. -/
theorem advanced_leave {t : ι} {shared : σ} {e : Entry κ ρ}
    (ht : phaseOf (s.threads t) = .pending e.method) :
    Advanced s (s.leave t shared e) t [.took t e] where
  own := by simp
  log := by simp [MonitorState.leave, sections, Event.entry]
  others := fun t' ht => by simp [MonitorState.leave, ht]
  performs := by
    rw [ht]
    simpa [MonitorState.leave, phaseOf] using Performs.took .nil

theorem advanced_call {t : ι} {k : κ} (ht : s.threads t = .outside) :
    Advanced s (s.move t (.entering k)) t [.called t k] where
  own := by simp
  log := by simp [MonitorState.move, sections, Event.entry]
  others := fun t' ht => by simp [MonitorState.move, ht]
  performs := by
    rw [ht]
    simpa [MonitorState.move, phaseOf] using Performs.called .nil

omit [DecidableEq ι] in
theorem phaseOf_wakeAll (threads : ι → Thread κ ρ) (t : ι) :
    phaseOf (MonitorState.wakeAll threads t) = phaseOf (threads t) := by
  unfold MonitorState.wakeAll
  cases threads t <;> rfl

theorem advanced_notifyAll {t : ι} {k : κ} {result : ρ} (ht : s.threads t = .leaving k result) :
    Advanced s { s with threads := MonitorState.wakeAll (Function.update s.threads t .outside) } t
      [.returned t result] where
  own := by simp
  log := by simp [sections, Event.entry]
  others := fun t' ht => by simp [phaseOf_wakeAll, ht]
  performs := by
    simp only [phaseOf_wakeAll, Function.update_self, ht]
    exact .returned .nil

theorem advanced_run {t : ι} {k : κ} (ht : phaseOf (s.threads t) = .pending k)
    (h : s.run M t k = .ok s') :
    Advanced s s' t ((s'.log.drop s.log.length).map (.took t)) := by
  obtain ⟨⟨shared, result⟩, -, h⟩ := bind_eq_ok.mp h
  obtain rfl := Except.ok.inj h
  have hlog : (s.leave t shared ⟨k, false, result⟩).log.drop s.log.length = [⟨k, false, result⟩] := by
    simp [MonitorState.leave]
  rw [hlog]
  exact advanced_leave ht

/-- What a step does to the trace. -/
theorem advanced_of_step (h : s.step M a = some (.ok s')) : ∃ t, Advanced s s' t (eventsOf s s' a) := by
  cases a with
  | call t k =>
    cases ht : s.threads t <;> simp only [MonitorState.step, ht, reduceCtorEq] at h
    obtain rfl := Except.ok.inj (Option.some.inj h)
    exact ⟨t, advanced_call ht⟩
  | enter t =>
    cases ht : s.threads t <;> simp only [MonitorState.step, ht, reduceCtorEq] at h
    rename_i k
    have hp : phaseOf (s.threads t) = .pending k := by rw [ht]; rfl
    cases hg : M.guard k s.shared with
    | true => exact ⟨t, advanced_run hp (by simpa [hg] using h)⟩
    | false =>
      obtain rfl : s.move t (.asleep k) = s' := by simpa [hg] using h
      refine ⟨t, ?_⟩
      have hlog : eventsOf s (s.move t (.asleep k)) (.enter t) = [] := by
        simp [eventsOf, MonitorState.move]
      rw [hlog]
      exact advanced_move hp.symm
  | wake t =>
    cases ht : s.threads t <;> simp only [MonitorState.step, ht, reduceCtorEq] at h
    obtain rfl := Except.ok.inj (Option.some.inj h)
    exact ⟨t, advanced_move (by rw [ht]; rfl)⟩
  | expire t =>
    cases ht : s.threads t <;> simp only [MonitorState.step, ht, reduceCtorEq] at h
    obtain ⟨-, h⟩ := Option.ite_none_right_eq_some.mp h
    obtain rfl := Except.ok.inj (Option.some.inj h)
    exact ⟨t, advanced_move (by rw [ht]; rfl)⟩
  | reenter t =>
    cases ht : s.threads t <;> simp only [MonitorState.step, ht, reduceCtorEq] at h
    rename_i k
    have hp : phaseOf (s.threads t) = .pending k := by rw [ht]; rfl
    cases hg : M.guard k s.shared with
    | true => exact ⟨t, advanced_run hp (by simpa [hg] using h)⟩
    | false =>
      simp only [hg, Bool.false_eq_true, if_false] at h
      obtain ⟨result, -, h⟩ := Option.map_eq_some_iff.mp h
      obtain rfl := Except.ok.inj h
      refine ⟨t, ?_⟩
      have hlog : eventsOf s (s.leave t s.shared ⟨k, true, result⟩) (.reenter t) =
          [.took t ⟨k, true, result⟩] := by
        simp [eventsOf, MonitorState.leave]
      rw [hlog]
      exact advanced_leave hp
  | notifyAll t =>
    cases ht : s.threads t <;> simp only [MonitorState.step, ht, reduceCtorEq] at h
    obtain rfl := Except.ok.inj (Option.some.inj h)
    refine ⟨t, ?_⟩
    simp only [eventsOf, ht]
    exact advanced_notifyAll ht

end Steps

/-! ### The trace of a run -/

section Traces
variable {M : Monitor σ κ ρ ε} {s0 : σ} {s s' : MonitorState σ κ ρ ι} {T l : List (Event κ ρ ι)} {t : ι}

/-- The sections are those of the log, and every thread has performed its calls. -/
structure Linearized (T : List (Event κ ρ ι)) (s : MonitorState σ κ ρ ι) : Prop where
  log : sections T = s.log
  performs : ∀ t, Performs t .outside (ofThread t T) (phaseOf (s.threads t))

theorem ofThread_self (hl : ∀ e ∈ l, e.thread = t) : ofThread t (T ++ l) = ofThread t T ++ l := by
  unfold ofThread
  have hall : l.filter (·.thread = t) = l :=
    List.filter_eq_self.mpr fun e he => by simpa using hl e he
  rw [List.filter_append, hall]

theorem ofThread_of_ne {t' : ι} (hl : ∀ e ∈ l, e.thread = t) (ht : t' ≠ t) :
    ofThread t' (T ++ l) = ofThread t' T := by
  unfold ofThread
  have hnil : l.filter (·.thread = t') = [] := by
    refine List.filter_eq_nil_iff.mpr fun e he => ?_
    rw [hl e he]
    simpa using ht.symm
  rw [List.filter_append, hnil, List.append_nil]

theorem Linearized.advance (h : Linearized T s) (ha : Advanced s s' t l) : Linearized (T ++ l) s' where
  log := by
    rw [ha.log, ← h.log]
    exact List.filterMap_append
  performs := fun t' => by
    by_cases ht : t' = t
    · subst ht
      rw [ofThread_self ha.own]
      exact (h.performs t').append ha.performs
    · rw [ofThread_of_ne ha.own ht, ha.others t' ht]
      exact h.performs t'

/-- **The shape of a trace.** -/
theorem linearized_of_traced {as : List (MonitorAction κ ι)} (h : Traced M ι s0 as T s) :
    Linearized T s := by
  induction h with
  | init => exact ⟨rfl, fun t => .nil⟩
  | step _ hs ih =>
    obtain ⟨t, ha⟩ := advanced_of_step hs
    exact ih.advance ha

/-- **What a call returns.** The result is that of a section of the method that was called, which took
effect after the call and before the return. -/
theorem took_between {k : κ} {result : ρ} {T₁ T₂ T₃ : List (Event κ ρ ι)}
    (h : Linearized (T₁ ++ .called t k :: (T₂ ++ .returned t result :: T₃)) s)
    (hno : ∀ result', .returned t result' ∉ T₂) :
    ∃ e : Entry κ ρ, .took t e ∈ T₂ ∧ e.method = k ∧ e.result = result := by
  have hp := h.performs t
  simp only [ofThread, List.filter_append, List.filter_cons, Event.thread_called,
    Event.thread_returned, decide_true, if_true] at hp
  obtain ⟨p, -, hp⟩ := hp.split
  obtain ⟨e, he, hk, hr⟩ := hp.between fun result' hmem => hno result' (List.mem_of_mem_filter hmem)
  have hmem : Event.took t e ∈ T₂.filter (·.thread = t) := by
    rw [he]
    exact List.mem_singleton.mpr rfl
  exact ⟨e, List.mem_of_mem_filter hmem, hk, hr⟩

end Traces

end AsyncGrpc.Lib.Linearizability
