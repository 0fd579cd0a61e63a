import Mathlib.Logic.Relation
import Mathlib.Data.List.Basic

/-! # Machines that may abort, their runs and their components

A machine is a deterministic step function: an action is not enabled (`none`), aborts the process
(`some (.error e)`) or leads to the next state. Nondeterminism (the scheduler, the environment) is
the choice of the action.

* `Run M as s`: the actions `as` lead from the initial state to `s`; `Along M P as`: every step of
  that run meets the condition `P`.
* `Path M P s as s'`: the actions `as` lead from `s` to `s'` by steps that meet `P`.
* `inv_of_run`: a property that holds initially and is kept by the steps meeting `P` holds at the
  end of every run along `P`.
* `along_iff`: when a condition on the steps is exactly what a property needs.
* `Ends M s r`: some steps lead from `s` to the result `r` of a computation that may fail;
  `Ends.bind` puts such computations together, `Ends.map` takes them to a machine that follows.
* `Components`: a machine whose state is a family of components, created fresh and then moved by a
  step function of their own. `Components.walk`: in every run each component does a walk of its own,
  so that a property of one component is proved over its own steps only (`Walk.inv`). -/

namespace AsyncGrpc.Lib.Runs

/-- A machine over the states `σ` and the actions `α` that aborts with a reason in `ε`. -/
structure Machine (σ α ε : Type) where
  init : σ
  step : σ → α → Option (Except ε σ)

variable {σ α ε : Type} {M : Machine σ α ε}

/-- The action `a` leads from `s` to `s'`. -/
def Machine.Step (M : Machine σ α ε) (s : σ) (a : α) (s' : σ) : Prop := M.step s a = some (.ok s')

/-- The action `a` aborts the machine in `s`. -/
def Machine.Aborts (M : Machine σ α ε) (s : σ) (a : α) (e : ε) : Prop :=
  M.step s a = some (.error e)

/-- The actions `as` lead from the initial state to `s`. -/
inductive Run (M : Machine σ α ε) : List α → σ → Prop
  | init : Run M [] M.init
  | step {as : List α} {s s' : σ} {a : α} (h : Run M as s) (hs : M.Step s a s') :
      Run M (as ++ [a]) s'

/-- Some run ends in `s`. -/
def Reachable (M : Machine σ α ε) (s : σ) : Prop := ∃ as, Run M as s

/-- Every step of the run `as` meets the condition `P`. -/
def Along (M : Machine σ α ε) (P : σ → α → Prop) (as : List α) : Prop :=
  ∀ pre a post s, as = pre ++ a :: post → Run M pre s → P s a

/-- `s'` comes after `s` in some continuation of a run. -/
def Later (M : Machine σ α ε) : σ → σ → Prop :=
  Relation.ReflTransGen fun s s' => ∃ a, M.Step s a s'

/-- The actions `as` lead from `s` to `s'`, every one of them by a step that meets `P`. -/
inductive Path (M : Machine σ α ε) (P : σ → α → Prop) : σ → List α → σ → Prop
  | nil {s : σ} : Path M P s [] s
  | cons {s s1 s' : σ} {a : α} {as : List α} (hp : P s a) (hs : M.Step s a s1) (h : Path M P s1 as s') :
      Path M P s (a :: as) s'

/-! ### Runs -/

theorem Step.det {s s1 s2 : σ} {a : α} (h1 : M.Step s a s1) (h2 : M.Step s a s2) : s1 = s2 := by
  unfold Machine.Step at h1 h2
  rw [h1] at h2
  exact Except.ok.inj (Option.some.inj h2)

theorem Run.inv_snoc {as : List α} {a : α} {s' : σ} (h : Run M (as ++ [a]) s') :
    ∃ s, Run M as s ∧ M.Step s a s' := by
  generalize hl : as ++ [a] = l at h
  cases h with
  | init => simp at hl
  | step h hs =>
    obtain ⟨h1, h2⟩ := List.append_inj' hl rfl
    cases h2
    subst h1
    exact ⟨_, h, hs⟩

theorem Run.det {as : List α} {s1 : σ} (h1 : Run M as s1) : ∀ {s2 : σ}, Run M as s2 → s1 = s2 := by
  induction h1 with
  | init =>
    intro s2 h2
    generalize hl : ([] : List α) = l at h2
    cases h2 with
    | init => rfl
    | step => simp at hl
  | step h hs ih =>
    intro s2 h2
    obtain ⟨s, hr, hs'⟩ := h2.inv_snoc
    rw [← ih hr] at hs'
    exact Step.det hs hs'

theorem Run.reachable {as : List α} {s : σ} (h : Run M as s) : Reachable M s := ⟨as, h⟩

theorem Reachable.step {s s' : σ} {a : α} (h : Reachable M s) (hs : M.Step s a s') :
    Reachable M s' := by
  obtain ⟨as, hr⟩ := h
  exact ⟨_, hr.step hs⟩

theorem Reachable.later {s s' : σ} (h : Reachable M s) (hl : Later M s s') : Reachable M s' := by
  induction hl with
  | refl => exact h
  | tail _ hs ih =>
    obtain ⟨a, ha⟩ := hs
    exact ih.step ha

/-- The end of a run is later than every state on its way. -/
theorem Run.later {pre as : List α} {s s' : σ} (h : Run M pre s) (h' : Run M (pre ++ as) s') :
    Later M s s' := by
  generalize hl : pre ++ as = l at h'
  induction h' generalizing as with
  | init =>
    obtain ⟨rfl, -⟩ := List.append_eq_nil_iff.mp hl
    rw [h.det Run.init]
    exact .refl
  | @step bs s1 s' a h1 hs ih =>
    rcases List.eq_nil_or_concat as with rfl | ⟨cs, b, rfl⟩
    · rw [List.append_nil] at hl
      rw [h.det (hl ▸ h1.step hs)]
      exact .refl
    · rw [List.concat_eq_append, ← List.append_assoc] at hl
      exact (ih (List.append_inj' hl rfl).1).tail ⟨a, hs⟩

section Paths
variable {P P' : σ → α → Prop} {s s1 s' : σ} {pre as bs : List α}

theorem Path.append (h : Path M P s as s1) (h' : Path M P s1 bs s') : Path M P s (as ++ bs) s' := by
  induction h with
  | nil => exact h'
  | cons hp hs _ ih => exact .cons hp hs (ih h')

theorem Path.mono (hP : ∀ s a, P s a → P' s a) (h : Path M P s as s') : Path M P' s as s' := by
  induction h with
  | nil => exact .nil
  | cons hp hs _ ih => exact .cons (hP _ _ hp) hs ih

/-- A path from the end of a run continues it. -/
theorem Path.run (h : Path M P s as s') (hr : Run M pre s) : Run M (pre ++ as) s' := by
  induction h generalizing pre with
  | nil => rwa [List.append_nil]
  | @cons s s1 s' a as hp hs _ ih =>
    have hnext := ih (hr.step hs)
    rwa [List.append_assoc] at hnext

theorem Path.reachable (h : Path M P s as s') (hs : Reachable M s) : Reachable M s' := by
  obtain ⟨pre, hr⟩ := hs
  exact (h.run hr).reachable

end Paths

theorem along_nil (P : σ → α → Prop) : Along M P [] := by
  intro pre a post s h
  simp at h

/-- A run extended by one step meets `P` iff the run and the step do. -/
theorem along_snoc {P : σ → α → Prop} {as : List α} {s : σ} {a : α} (hr : Run M as s) :
    Along M P (as ++ [a]) ↔ Along M P as ∧ P s a := by
  constructor
  · intro h
    refine ⟨fun pre b post t he ht => ?_, h as a [] s rfl hr⟩
    exact h pre b (post ++ [a]) t (by simp [he]) ht
  · rintro ⟨h, hP⟩ pre b post t he ht
    rcases List.eq_nil_or_concat post with rfl | ⟨post', c, rfl⟩
    · obtain ⟨h1, h2⟩ := List.append_inj' he rfl
      cases h2
      subst h1
      rw [← Run.det hr ht]
      exact hP
    · refine h pre b post' t ?_ ht
      rw [List.concat_eq_append, ← List.cons_append, ← List.append_assoc] at he
      exact (List.append_inj' he rfl).1

/-- A condition met by every step a reachable state can take is met along every run. -/
theorem along_of_forall {P : σ → α → Prop} (h : ∀ s a, P s a) (as : List α) : Along M P as :=
  fun _ a _ s _ _ => h s a

/-- A condition on the actions alone. -/
theorem along_of_mem {P : α → Prop} {as : List α} (h : ∀ a ∈ as, P a) :
    Along M (fun _ a => P a) as := by
  rintro pre a post s rfl -
  exact h a (by simp)

theorem along_and {P P' : σ → α → Prop} {as : List α} :
    Along M (fun s a => P s a ∧ P' s a) as ↔ Along M P as ∧ Along M P' as :=
  ⟨fun h => ⟨fun pre a post s he hr => (h pre a post s he hr).1,
    fun pre a post s he hr => (h pre a post s he hr).2⟩,
    fun h pre a post s he hr => ⟨h.1 pre a post s he hr, h.2 pre a post s he hr⟩⟩

/-- **Invariants**: what holds initially and is kept by the steps that meet `P` holds at the end of
every run along `P`. -/
theorem inv_of_run {P : σ → α → Prop} {I : σ → Prop} (h0 : I M.init)
    (hstep : ∀ s a s', I s → P s a → M.Step s a s' → I s') {as : List α} {s : σ}
    (hr : Run M as s) (ha : Along M P as) : I s := by
  induction hr with
  | init => exact h0
  | step hr hs ih =>
    obtain ⟨h1, h2⟩ := (along_snoc hr).mp ha
    exact hstep _ _ _ (ih h1) h2 hs

/-- **Exact conditions**: when `G` holds initially, is never regained once lost, and a step from `G`
keeps it exactly when the step meets `P`, then the runs along `P` are those that end in `G`. -/
theorem along_iff {P : σ → α → Prop} {G : σ → Prop} (h0 : G M.init)
    (hback : ∀ s a s', Reachable M s → M.Step s a s' → G s' → G s)
    (hstep : ∀ s a s', Reachable M s → G s → M.Step s a s' → (G s' ↔ P s a)) {as : List α} {s : σ}
    (hr : Run M as s) : Along M P as ↔ G s := by
  induction hr with
  | init => exact ⟨fun _ => h0, fun _ => along_nil P⟩
  | step hr hs ih =>
    rw [along_snoc hr, ih]
    constructor
    · rintro ⟨hg, hp⟩
      exact (hstep _ _ _ hr.reachable hg hs).mpr hp
    · intro hg'
      have hg := hback _ _ _ hr.reachable hs hg'
      exact ⟨hg, (hstep _ _ _ hr.reachable hg hs).mp hg'⟩

theorem inv_of_reachable {I : σ → Prop} (h0 : I M.init)
    (hstep : ∀ s a s', I s → M.Step s a s' → I s') {s : σ} (hs : Reachable M s) : I s := by
  obtain ⟨as, hr⟩ := hs
  exact inv_of_run (P := fun _ _ => True) h0 (fun s a s' hi _ h => hstep s a s' hi h) hr
    (along_of_forall (fun _ _ => trivial) as)

/-- What is kept by every step is kept by every continuation. -/
theorem Later.inv {I : σ → Prop} (hstep : ∀ s a s', I s → M.Step s a s' → I s') {s s' : σ}
    (hl : Later M s s') (hs : I s) : I s' := by
  induction hl with
  | refl => exact hs
  | tail _ h ih =>
    obtain ⟨a, ha⟩ := h
    exact hstep _ _ _ ih ha

/-- **Refinement**: when every step of `M'` is, for what `f` shows of its state, a step of `M` or no
step at all, then `f` shows reachable states of `M`. -/
theorem reachable_of_refines {σ' α' : Type} {M' : Machine σ' α' ε} (f : σ' → σ)
    (h0 : f M'.init = M.init)
    (hstep : ∀ s a s', M'.Step s a s' → f s' = f s ∨ ∃ b, M.Step (f s) b (f s')) {s : σ'}
    (h : Reachable M' s) : Reachable M (f s) := by
  refine inv_of_reachable (I := fun s => Reachable M (f s)) ?_ (fun s a s' hi hs => ?_) h
  · rw [h0]
    exact Run.init.reachable
  · rcases hstep s a s' hs with he | ⟨b, hb⟩
    · rw [he]
      exact hi
    · exact hi.step hb

/-! ### Steps that make up a computation -/

/-- Some steps lead from `s` to the result `r`: to its state, or to the abort with its reason. -/
def Ends (M : Machine σ α ε) (s : σ) : Except ε σ → Prop
  | .ok s' => Later M s s'
  | .error e => ∃ s' a, Later M s s' ∧ M.Aborts s' a e

theorem Ends.refl (s : σ) : Ends M s (.ok s) := Relation.ReflTransGen.refl

theorem Ends.of_later {s s' : σ} {r : Except ε σ} (hl : Later M s s') (h : Ends M s' r) :
    Ends M s r := by
  cases r with
  | ok s1 => exact hl.trans h
  | error e =>
    obtain ⟨s1, a, h1, ha⟩ := h
    exact ⟨s1, a, hl.trans h1, ha⟩

theorem Ends.of_step {s : σ} {a : α} {r : Except ε σ} (h : M.step s a = some r) : Ends M s r := by
  cases r with
  | ok s' => exact .single ⟨a, h⟩
  | error e => exact ⟨s, a, .refl, h⟩

theorem Ends.step {s s' : σ} {a : α} {r : Except ε σ} (h : M.Step s a s') (hr : Ends M s' r) :
    Ends M s r :=
  .of_later (.single ⟨a, h⟩) hr

/-- The steps of a computation, and then those of the computation that goes on with its result. -/
theorem Ends.bind {β γ : Type} {s : σ} {f : β → σ} {h : γ → σ} {x : Except ε β}
    {g : β → Except ε γ} (hx : Ends M s (f <$> x)) (hg : ∀ b, Ends M (f b) (h <$> g b)) :
    Ends M s (h <$> (x >>= g)) := by
  cases x with
  | error e => exact hx
  | ok b => exact .of_later hx (hg b)

/-- A machine that follows the steps of another, as long as these keep `I`, comes to the same results. -/
theorem Ends.map {τ β : Type} {N : Machine τ β ε} {f : σ → τ} {I : σ → Prop} {s : σ} {r : Except ε σ}
    (hI : ∀ s a s', I s → M.Step s a s' → I s')
    (hsim : ∀ s a x, I s → M.step s a = some x → ∃ b, N.step (f s) b = some (f <$> x))
    (h : Ends M s r) (hs : I s) : Ends N (f s) (f <$> r) := by
  have hlater (s' : σ) (hl : Later M s s') : Later N (f s) (f s') ∧ I s' := by
    induction hl with
    | refl => exact ⟨.refl, hs⟩
    | @tail s1 s2 _ hstep ih =>
      obtain ⟨a, ha⟩ := hstep
      obtain ⟨b, hb⟩ := hsim s1 a _ ih.2 ha
      exact ⟨ih.1.tail ⟨b, hb⟩, hI s1 a s2 ih.2 ha⟩
  cases r with
  | ok s' => exact (hlater s' h).1
  | error e =>
    obtain ⟨s', a, hl, ha⟩ := h
    obtain ⟨b, hb⟩ := hsim s' a _ (hlater s' hl).2 ha
    exact ⟨f s', b, (hlater s' hl).1, hb⟩

/-! ### Executing a list of actions -/

/-- The state after the actions `as` from `s`, if all of them can be taken. -/
def exec (M : Machine σ α ε) : σ → List α → Option σ
  | s, [] => some s
  | s, a :: as =>
    match M.step s a with
    | some (.ok s') => exec M s' as
    | _ => none

theorem run_of_exec_append : ∀ {as pre : List α} {s s' : σ}, Run M pre s →
    exec M s as = some s' → Run M (pre ++ as) s'
  | [], pre, s, s', hr, h => by
    simp only [exec, Option.some.injEq] at h
    subst h
    simpa using hr
  | a :: as, pre, s, s', hr, h => by
    unfold exec at h
    split at h
    · next s1 hs =>
      have := run_of_exec_append (hr.step hs) h
      simpa using this
    · simp at h

/-- **A schedule that can be executed is a run.** -/
theorem run_of_exec {as : List α} {s : σ} (h : exec M M.init as = some s) : Run M as s := by
  simpa using run_of_exec_append Run.init h

theorem exec_of_run {as : List α} {s : σ} (h : Run M as s) : exec M M.init as = some s := by
  have hsnoc : ∀ (as : List α) (s0 s s' : σ) (a : α), exec M s0 as = some s → M.Step s a s' →
      exec M s0 (as ++ [a]) = some s' := by
    intro as
    induction as with
    | nil =>
      intro s0 s s' a h hs
      cases h
      replace hs : M.step s0 a = some (.ok s') := hs
      simp [exec, hs]
    | cons b as ih =>
      intro s0 s s' a h hs
      unfold exec at h
      split at h
      · next s1 h1 =>
        simp only [List.cons_append, exec, h1]
        exact ih s1 s s' a h hs
      · cases h
  induction h with
  | init => rfl
  | step _ hs ih => exact hsnoc _ _ _ _ _ ih hs

/-- The steps of the actions `as` from `s` meet `p`, as long as they can be taken. -/
def checkAlong (M : Machine σ α ε) (p : σ → α → Bool) : σ → List α → Bool
  | _, [] => true
  | s, a :: as =>
    p s a &&
      match M.step s a with
      | some (.ok s') => checkAlong M p s' as
      | _ => true

/-- A condition on the steps of a run that `p` decides can be checked. -/
theorem along_of_check {P : σ → α → Prop} {p : σ → α → Bool} (hp : ∀ s a, p s a = true → P s a)
    {as : List α} (h : checkAlong M p M.init as = true) : Along M P as := by
  have hexec : ∀ (pre : List α) (s0 s : σ) (a : α) (post : List α),
      checkAlong M p s0 (pre ++ a :: post) = true → exec M s0 pre = some s → p s a = true := by
    intro pre
    induction pre with
    | nil =>
      intro s0 s a post h hs
      cases hs
      simp only [List.nil_append, checkAlong, Bool.and_eq_true] at h
      exact h.1
    | cons b pre ih =>
      intro s0 s a post h hs
      unfold exec at hs
      split at hs
      · next s1 h1 =>
        simp only [List.cons_append, checkAlong, h1, Bool.and_eq_true] at h
        exact ih s1 s a post h.2 hs
      · cases hs
  rintro pre a post s rfl hr
  exact hp s a (hexec pre M.init s a post h (exec_of_run hr))

/-- What `f` shows of the steps of the actions `as` from `s`, in their order. -/
def observe {β : Type} (M : Machine σ α ε) (f : σ → α → List β) : σ → List α → List β
  | _, [] => []
  | s, a :: as =>
    f s a ++
      match M.step s a with
      | some (.ok s') => observe M f s' as
      | _ => []

/-- A step adds what `f` shows of it. -/
theorem observe_snoc {β : Type} {f : σ → α → List β} {as : List α} {s : σ} (h : Run M as s)
    (a : α) : observe M f M.init (as ++ [a]) = observe M f M.init as ++ f s a := by
  have hexec : ∀ (as : List α) (s0 s : σ), exec M s0 as = some s →
      observe M f s0 (as ++ [a]) = observe M f s0 as ++ f s a := by
    intro as
    induction as with
    | nil =>
      intro s0 s h
      cases h
      simp only [List.nil_append, observe]
      split <;> simp
    | cons b as ih =>
      intro s0 s h
      unfold exec at h
      split at h
      · next s1 h1 =>
        simp only [List.cons_append, observe, h1, List.append_assoc]
        rw [ih s1 s h]
      · cases h
  exact hexec as M.init s (exec_of_run h)

/-- A schedule that ends where the decidable property `p` holds gives a run to such a state. -/
theorem exists_run (M : Machine σ α ε) (as : List α) (p : σ → Bool)
    (h : (exec M M.init as).map p = some true) : ∃ s, Run M as s ∧ p s = true := by
  rcases hs : exec M M.init as with _ | s
  · rw [hs] at h; simp at h
  · rw [hs] at h
    exact ⟨s, run_of_exec hs, by simpa using h⟩

/-- The same for a schedule and one more step. -/
theorem exists_step (M : Machine σ α ε) (as : List α) (a : α) (p : σ → σ → Bool)
    (h : ((exec M M.init as).bind fun s => (exec M s [a]).map (p s)) = some true) :
    ∃ s s', Run M as s ∧ M.Step s a s' ∧ p s s' = true := by
  obtain ⟨s, hs, h1⟩ := Option.bind_eq_some_iff.mp h
  obtain ⟨s', hs', h2⟩ := Option.map_eq_some_iff.mp h1
  refine ⟨s, s', run_of_exec hs, ?_, h2⟩
  unfold exec at hs'
  split at hs'
  · next s1 h3 =>
    cases hs'
    exact h3
  · cases hs'

/-- The result of a step is the abort with the reason `e`. -/
def abortsWith [DecidableEq ε] (e : ε) : Option (Except ε σ) → Bool
  | some (.error e') => e' = e
  | _ => false

/-- A schedule after which the action `a` aborts. -/
theorem exists_abort [DecidableEq ε] (M : Machine σ α ε) (as : List α) (a : α) (e : ε)
    (h : (exec M M.init as).map (fun s => abortsWith e (M.step s a)) = some true) :
    ∃ s, Run M as s ∧ M.Aborts s a e := by
  obtain ⟨s, hr, hp⟩ := exists_run M as (fun s => abortsWith e (M.step s a)) h
  refine ⟨s, hr, ?_⟩
  unfold abortsWith at hp
  split at hp
  · next e' he =>
    rw [decide_eq_true_eq] at hp
    rw [hp] at he
    exact he
  · cases hp

/-! ### Computations that may fail -/

theorem bind_eq_ok {ε α β : Type} {x : Except ε α} {f : α → Except ε β} {b : β} :
    (x >>= f) = .ok b ↔ ∃ a, x = .ok a ∧ f a = .ok b := by
  cases x with
  | error e => exact ⟨fun h => (nomatch h), fun ⟨_, h, _⟩ => (nomatch h)⟩
  | ok a => exact ⟨fun h => ⟨a, rfl, h⟩, fun ⟨_, h, hf⟩ => by cases h; exact hf⟩

theorem map_eq_ok {ε α β : Type} {x : Except ε α} {f : α → β} {b : β} :
    f <$> x = .ok b ↔ ∃ a, x = .ok a ∧ f a = b := by
  cases x with
  | error e => exact ⟨fun h => (nomatch h), fun ⟨_, h, _⟩ => (nomatch h)⟩
  | ok a =>
    exact ⟨fun h => ⟨a, rfl, Except.ok.inj h⟩, fun ⟨_, h, hf⟩ => by cases h; rw [← hf]; rfl⟩

theorem bind_eq_error {ε α β : Type} {x : Except ε α} {f : α → Except ε β} {e : ε} :
    (x >>= f) = .error e ↔ x = .error e ∨ ∃ a, x = .ok a ∧ f a = .error e := by
  cases x with
  | error e' =>
    refine ⟨fun h => Or.inl (by cases h; rfl), fun h => ?_⟩
    rcases h with h | ⟨_, h, _⟩
    · cases h; rfl
    · cases h
  | ok a =>
    refine ⟨fun h => Or.inr ⟨a, rfl, h⟩, fun h => ?_⟩
    rcases h with h | ⟨_, h, hf⟩
    · cases h
    · cases h; exact hf

theorem map_eq_error {ε α β : Type} {x : Except ε α} {f : α → β} {e : ε} :
    f <$> x = .error e ↔ x = .error e := by
  cases x with
  | error e' => exact ⟨fun h => by cases h; rfl, fun h => by cases h; rfl⟩
  | ok a => exact ⟨fun h => (nomatch h), fun h => (nomatch h)⟩

theorem mapError_eq_ok {ε ε' α : Type} {x : Except ε α} {f : ε → ε'} {a : α} :
    x.mapError f = .ok a ↔ x = .ok a := by
  cases x <;> simp [Except.mapError]

/-- What every round of a loop keeps holds after the loop. -/
theorem foldlM_inv {ε α β : Type} {f : β → α → Except ε β} {P : β → Prop}
    (hf : ∀ b a b', P b → f b a = .ok b' → P b') :
    ∀ {l : List α} {b b' : β}, P b → l.foldlM f b = .ok b' → P b'
  | [], b, b', hb, h => by cases h; exact hb
  | a :: l, b, b', hb, h => by
    rw [List.foldlM_cons] at h
    obtain ⟨b1, h1, h2⟩ := bind_eq_ok.mp h
    exact foldlM_inv hf (hf b a b1 hb h1) h2

/-- A loop whose rounds do not fail does not fail. -/
theorem foldlM_ok {ε α β : Type} {f : β → α → Except ε β} (hf : ∀ b a, ∃ b', f b a = .ok b') :
    ∀ (l : List α) (b : β), ∃ b', l.foldlM f b = .ok b'
  | [], b => ⟨b, rfl⟩
  | a :: l, b => by
    obtain ⟨b1, h1⟩ := hf b a
    obtain ⟨b2, h2⟩ := foldlM_ok hf l b1
    exact ⟨b2, by rw [List.foldlM_cons, h1]; exact h2⟩

/-- A function that succeeds on every element of a list. -/
theorem mapM_ok {ε α β : Type} {f : α → Except ε β} {g : α → β} :
    ∀ {l : List α}, (∀ a ∈ l, f a = .ok (g a)) → l.mapM f = .ok (l.map g)
  | [], _ => rfl
  | a :: l, h => by
    have hl : l.mapM f = .ok (l.map g) := mapM_ok fun b hb => h b (List.mem_cons_of_mem _ hb)
    rw [List.mapM_cons, h a (List.mem_cons_self ..), hl]
    rfl

/-- A loop whose rounds each append to a list appends the parts in their order. -/
theorem foldlM_append {ε α β γ : Type} {f : β → α → Except ε β} {g : β → List γ} {h : α → List γ}
    (hf : ∀ b a b', f b a = .ok b' → g b' = g b ++ h a) :
    ∀ {l : List α} {b b' : β}, l.foldlM f b = .ok b' → g b' = g b ++ l.flatMap h
  | [], b, b', hb => by cases hb; simp
  | a :: l, b, b', hb => by
    rw [List.foldlM_cons] at hb
    obtain ⟨b1, h1, h2⟩ := bind_eq_ok.mp hb
    rw [foldlM_append hf h2, hf b a b1 h1, List.flatMap_cons, List.append_assoc]

/-! ### Shared queues

A queue that holds messages of several receivers, read as the queue of one of them. -/

/-- The messages of the receiver `i`, in their order. -/
def pick {ι β : Type} [DecidableEq ι] (i : ι) (q : List (ι × β)) : List β :=
  q.filterMap fun p => if p.1 = i then some p.2 else none

section Pick
variable {ι β : Type} [DecidableEq ι]

@[simp] theorem pick_nil (i : ι) : pick i ([] : List (ι × β)) = [] := rfl

@[simp] theorem pick_append (i : ι) (q q' : List (ι × β)) :
    pick i (q ++ q') = pick i q ++ pick i q' := by simp [pick]

theorem pick_cons_self (i : ι) (b : β) (q : List (ι × β)) : pick i ((i, b) :: q) = b :: pick i q := by
  simp [pick]

theorem pick_cons_of_ne {i j : ι} (h : j ≠ i) (b : β) (q : List (ι × β)) :
    pick i ((j, b) :: q) = pick i q := by
  simp [pick, h]

@[simp] theorem pick_map_self (i : ι) (l : List β) : pick i (l.map (i, ·)) = l := by
  induction l with
  | nil => rfl
  | cons b l ih => rw [List.map_cons, pick_cons_self, ih]

theorem pick_map_of_ne {i j : ι} (h : j ≠ i) (l : List β) : pick i (l.map (j, ·)) = [] := by
  induction l with
  | nil => rfl
  | cons b l ih => rw [List.map_cons, pick_cons_of_ne h, ih]

theorem mem_pick {i : ι} {b : β} {q : List (ι × β)} : b ∈ pick i q ↔ (i, b) ∈ q := by
  unfold pick
  rw [List.mem_filterMap]
  constructor
  · rintro ⟨⟨j, b'⟩, hm, h⟩
    split_ifs at h with hj
    cases hj
    cases h
    exact hm
  · intro hm
    exact ⟨(i, b), hm, if_pos rfl⟩

theorem count_pick [DecidableEq β] (i : ι) (b : β) (q : List (ι × β)) :
    (pick i q).count b = q.count (i, b) := by
  induction q with
  | nil => rfl
  | cons p q ih =>
    obtain ⟨j, b'⟩ := p
    by_cases h : j = i
    · subst h
      rw [pick_cons_self, List.count_cons, List.count_cons, ih]
      by_cases hb : b' = b <;> simp [hb]
    · rw [pick_cons_of_ne h, ih, List.count_cons_of_ne]
      simp [h]

end Pick

/-! ### Components -/

/-- The states a component can be in: fresh ones, and those its own steps lead to, every step
meeting the condition `Q`. -/
inductive Walk {τ β : Type} (Fresh : τ → Prop) (lstep : τ → β → Option (Except ε τ))
    (Q : τ → β → Prop) : τ → Prop
  | fresh {t : τ} (h : Fresh t) : Walk Fresh lstep Q t
  | step {t t' : τ} {b : β} (h : Walk Fresh lstep Q t) (hq : Q t b)
      (hs : lstep t b = some (.ok t')) : Walk Fresh lstep Q t'

/-- What fresh components have and the steps of a component keep holds on every walk. -/
theorem Walk.inv {τ β : Type} {Fresh : τ → Prop} {lstep : τ → β → Option (Except ε τ)}
    {Q : τ → β → Prop} {I : τ → Prop} (h0 : ∀ t, Fresh t → I t)
    (hstep : ∀ t b t', I t → Q t b → lstep t b = some (.ok t') → I t') {t : τ}
    (h : Walk Fresh lstep Q t) : I t := by
  induction h with
  | fresh hf => exact h0 _ hf
  | step _ hq hs ih => exact hstep _ _ _ ih hq hs

/-- The component `t` becomes `t'` when the action is `b` for it, and stays when it is nothing. -/
def Follows {τ β : Type} (lstep : τ → β → Option (Except ε τ)) (t : τ) : Option β → τ → Prop
  | none, t' => t' = t
  | some b, t' => lstep t b = some (.ok t')

/-- A machine seen as a family of components: `proj s i` is the component `i` of `s`, if it exists
yet, and `act s a i` what the action `a` of the machine is for it, if anything. -/
structure Components (M : Machine σ α ε) (ι τ β : Type) where
  Fresh : τ → Prop
  lstep : τ → β → Option (Except ε τ)
  proj : σ → ι → Option τ
  act : σ → α → ι → Option β
  init_fresh : ∀ i t, proj M.init i = some t → Fresh t
  step_new : ∀ s a s', Reachable M s → M.Step s a s' → ∀ i, proj s i = none →
    ∀ t', proj s' i = some t' → Fresh t'
  step_old : ∀ s a s', Reachable M s → M.Step s a s' → ∀ i t, proj s i = some t →
    ∃ t', proj s' i = some t' ∧ Follows lstep t (act s a i) t'

/-- **Every component walks**: in a run along `P` each component has done a walk of its own along
`Q`, when `P` gives `Q` for what the step is to the component. -/
theorem Components.walk {ι τ β : Type} (C : Components M ι τ β) {P : σ → α → Prop}
    {Q : τ → β → Prop}
    (hPQ : ∀ s a i t b, P s a → C.proj s i = some t → C.act s a i = some b → Q t b)
    {as : List α} {s : σ} (hr : Run M as s) (ha : Along M P as) {i : ι} {t : τ}
    (ht : C.proj s i = some t) : Walk C.Fresh C.lstep Q t := by
  induction hr generalizing t with
  | init => exact .fresh (C.init_fresh i t ht)
  | @step as s s' a hr hs ih =>
    obtain ⟨h1, h2⟩ := (along_snoc hr).mp ha
    rcases hp : C.proj s i with _ | t0
    · exact .fresh (C.step_new s a s' hr.reachable hs i hp t ht)
    · obtain ⟨t', ht', hact⟩ := C.step_old s a s' hr.reachable hs i t0 hp
      rw [ht] at ht'
      cases ht'
      rcases hb : C.act s a i with _ | b
      · rw [hb] at hact
        cases hact
        exact ih h1 hp
      · rw [hb] at hact
        exact (ih h1 hp).step (hPQ s a i t0 b h2 hp hb) hact

theorem Components.walk_of_reachable {ι τ β : Type} (C : Components M ι τ β) {s : σ}
    (hs : Reachable M s) {i : ι} {t : τ} (ht : C.proj s i = some t) :
    Walk C.Fresh C.lstep (fun _ _ => True) t := by
  obtain ⟨as, hr⟩ := hs
  exact C.walk (P := fun _ _ => True) (fun _ _ _ _ _ _ _ _ => trivial) hr
    (along_of_forall (fun _ _ => trivial) as) ht

/-- What the step is to every component meets the condition `Q`. -/
def Components.Each {ι τ β : Type} (C : Components M ι τ β) (Q : τ → β → Prop) (s : σ) (a : α) :
    Prop :=
  ∀ i t b, C.proj s i = some t → C.act s a i = some b → Q t b

/-- **Exact conditions for components**: when fresh components have the property `G`, it is never
regained once lost, and a step of a component keeps it exactly when it meets `Q`, then the runs all of
whose steps meet `Q` are those that end with `G` for every component. -/
theorem Components.along_iff {ι τ β : Type} (C : Components M ι τ β) {Q : τ → β → Prop}
    {G : τ → Prop} (h0 : ∀ t, C.Fresh t → G t)
    (hback : ∀ t b t', Walk C.Fresh C.lstep (fun _ _ => True) t → C.lstep t b = some (.ok t') →
      G t' → G t)
    (hstep : ∀ t b t', Walk C.Fresh C.lstep (fun _ _ => True) t → G t →
      C.lstep t b = some (.ok t') → (G t' ↔ Q t b)) {as : List α} {s : σ} (hr : Run M as s) :
    Along M (C.Each Q) as ↔ ∀ i t, C.proj s i = some t → G t := by
  refine Runs.along_iff (G := fun s => ∀ i t, C.proj s i = some t → G t)
    (fun i t ht => h0 t (C.init_fresh i t ht)) ?_ ?_ hr
  · intro s a s' hs hst hg i t ht
    obtain ⟨t', ht', hf⟩ := C.step_old s a s' hs hst i t ht
    rcases hb : C.act s a i with _ | b
    · rw [hb] at hf
      cases hf
      exact hg i _ ht'
    · rw [hb] at hf
      exact hback t b t' (C.walk_of_reachable hs ht) hf (hg i t' ht')
  · intro s a s' hs hg hst
    constructor
    · intro hg' i t b ht hb
      obtain ⟨t', ht', hf⟩ := C.step_old s a s' hs hst i t ht
      rw [hb] at hf
      exact (hstep t b t' (C.walk_of_reachable hs ht) (hg i t ht) hf).mp (hg' i t' ht')
    · intro hq i t' ht'
      rcases hp : C.proj s i with _ | t
      · exact h0 t' (C.step_new s a s' hs hst i hp t' ht')
      · obtain ⟨t1, ht1, hf⟩ := C.step_old s a s' hs hst i t hp
        rw [ht'] at ht1
        cases ht1
        rcases hb : C.act s a i with _ | b
        · rw [hb] at hf
          cases hf
          exact hg i _ hp
        · rw [hb] at hf
          exact (hstep t b t' (C.walk_of_reachable hs hp) (hg i t hp) hf).mpr (hq i t b hp hb)

end AsyncGrpc.Lib.Runs
