import AsyncGrpc.Single.Threads

/-! # Handling events in one go, and with event threads

`Model.Server` handles an event in one step, `Server.EventThreads` task by task, with all event threads
at work. `handling_refined`: the first is a part of the second. Whatever a server comes to when its events
are handled in one go, it can come to with its event threads, when each of them is left alone from the
time it takes up an event until it has handled it; and so for every way to fail.

`attempt` is the state of the server while one thread works alone. `attempt_step` says that the server
follows the steps of the thread, which ends as in `Single.Interleaving`. -/

namespace AsyncGrpc.Service.Refinement

open AsyncGrpc.Lib.Runs AsyncGrpc.Model.Types AsyncGrpc.Model.Rpc AsyncGrpc.Model.Service
open AsyncGrpc.Model.Server AsyncGrpc.Server.EventThreads
open AsyncGrpc.Single.Machine AsyncGrpc.Single.Moves AsyncGrpc.Single.EventThread
open AsyncGrpc.Single.Interleaving AsyncGrpc.Single.Tasks AsyncGrpc.Single.Threads
open AsyncGrpc.Single.Project (relistener handle_new_eq handle_new listen_newRpc conn_head
  routed_of_reachable)

variable {μ : Type} {cfg : Config} {s : State μ} {threads : ℕ → EventThread} {q r : ℕ}

/-! ### One thread alone -/

/-- Where the task of `Clone` is among those that are left, if the `Rpc` is to be cloned at all. -/
def Cloning (clones : Bool) (b : Busy μ) : Prop :=
  if clones then (b.todo = [] ∧ b.inside = none) ∨
    ∃ before, b.todo = before ++ [.use .clone] ∧ .use .clone ∉ before
  else .use .clone ∉ b.todo

/-- The state of the server when the thread of `q`, which handles an event of `r` for the server in the
state `s`, has got to `b`. The clone is there when the thread has nothing left to do. -/
def attempt (cfg : Config) (s : State μ) (threads : ℕ → EventThread) (q r : ℕ) (clones : Bool)
    (b : Busy μ) : Threaded μ :=
  let state := s.store r b.ctx
  ⟨if clones = true ∧ b.todo = [] ∧ b.inside = none then
      { state with
        selections := s.selections + 1
        cells := state.cells ++ [relistener (cfg.eventQueueSelector s.selections) b.ctx.rpc] }
    else state, Function.update threads q ⟨r, b.todo, b.inside⟩⟩

theorem store_store {c c' : Ctx μ} (h : c'.rpc.eventQueue = c.rpc.eventQueue) :
    (s.store r c).store r c' = s.store r (behind c.outbox c') := by
  unfold State.store behind
  simp [h]

/-- The steps of the thread. -/
def stepFor (q : ℕ) : BusyStep μ → ThreadStep μ
  | .call k => .call q k
  | _ => .goOn q

section Alone
variable {clones : Bool} {b b' s0 : Busy μ} {a : BusyStep μ}

/-- No task puts that of `Clone` before the others. -/
theorem clone_not_mem {c c' : Ctx μ} {task : Task} {new : List Task} {inside : Option Inside}
    (h : Performed c task c' new inside) : .use .clone ∉ new := by
  cases h with
  | unary => decide
  | _ => exact List.not_mem_nil

/-- The task of `Clone` stays the last one, and the thread is done when it has performed it. -/
theorem Cloning.stepped (h : Cloning clones b) (hs : Stepped b a b')
    (ha : workOf (stepFor q a) = some (q, a)) :
    Cloning clones b' ∧ ((⟨r, b.todo, b.inside⟩ : EventThread).next = some (.use .clone) ↔
      clones = true ∧ b'.todo = [] ∧ b'.inside = none) := by
  -- A step that leaves the tasks alone is made inside a callback.
  have hinside {p : Inside} (hin : b.inside = some p) (htodo : b'.todo = b.todo) :
      Cloning clones b' ∧ ((⟨r, b.todo, b.inside⟩ : EventThread).next = some (.use .clone) ↔
        clones = true ∧ b'.todo = [] ∧ b'.inside = none) := by
    have hnext : (⟨r, b.todo, b.inside⟩ : EventThread).next = none := by simp [EventThread.next, hin]
    cases clones with
    | false => exact ⟨fun hm => h (htodo ▸ hm), by simp [hnext]⟩
    | true =>
      rcases h with ⟨-, hno⟩ | ⟨before, hb, hnot⟩
      · cases hno.symm.trans hin
      · refine ⟨.inr ⟨before, htodo.trans hb, hnot⟩, ?_⟩
        rw [hnext]
        simp [htodo, hb]
  cases hs with
  | takenUp => cases ha
  | other hb =>
    cases a with
    | goOn => cases hb
    | call => cases hb
    | takeUp => cases hb
    | deliver => cases ha
    | lockWriter => cases ha
    | stepWriter => cases ha
  | left hin => exact hinside hin (by unfold leave; split <;> rfl)
  | called hin => exact hinside hin rfl
  | @performed task todo new inside c' htodo hin hp =>
    have hnew := clone_not_mem hp
    have hnext : (⟨r, b.todo, b.inside⟩ : EventThread).next = some task := by
      simp [EventThread.next, hin, htodo]
    rw [hnext]
    cases clones with
    | false =>
      have hnot : .use .clone ∉ task :: todo := htodo ▸ h
      have hne : task ≠ .use .clone := fun heq => hnot (heq ▸ List.mem_cons_self)
      refine ⟨fun hm => ?_, by simp [hne]⟩
      rcases List.mem_append.mp hm with hm | hm
      · exact hnew hm
      · exact hnot (List.mem_cons_of_mem _ hm)
    | true =>
      rcases h with ⟨hnil, -⟩ | ⟨before, hb, hnot⟩
      · cases hnil.symm.trans htodo
      · rw [htodo] at hb
        cases before with
        | nil =>
          obtain ⟨rfl, rfl⟩ := List.cons.inj hb
          cases hp with
          | used => exact ⟨.inl ⟨rfl, rfl⟩, by simp⟩
          | entered hcb => cases hcb
        | cons t before =>
          obtain ⟨rfl, rfl⟩ := List.cons.inj hb
          have hne : task ≠ .use .clone := fun heq => hnot (heq ▸ List.mem_cons_self)
          refine ⟨.inr ⟨new ++ before, (List.append_assoc _ _ _).symm, fun hm => ?_⟩, by simp [hne]⟩
          rcases List.mem_append.mp hm with hm | hm
          · exact hnew hm
          · exact hnot (List.mem_cons_of_mem _ hm)

theorem alone_work (h : ∃ x, (alone s0).step b a = some x) :
    workOf (stepFor q a) = some (q, a) ∧ (alone s0).step b a = b.step a ∧
      ¬ (b.todo = [] ∧ b.inside = none) := by
  obtain ⟨c, todo, inside⟩ := b
  obtain ⟨x, hx⟩ := h
  cases a with
  | goOn =>
    refine ⟨rfl, rfl, ?_⟩
    rintro ⟨rfl, rfl⟩
    cases hx
  | call =>
    refine ⟨rfl, rfl, ?_⟩
    rintro ⟨-, rfl⟩
    cases hx
  | takeUp => cases hx
  | deliver => cases hx
  | lockWriter => cases hx
  | stepWriter => cases hx

/-- What the thread has done since it took up the event, and what it does next. -/
theorem worked_eq (hc : Cloning clones b) (ha : workOf (stepFor q a) = some (q, a))
    (hb : b.step a = some (.ok (withFront b.ctx.outbox b'))) :
    worked cfg ⟨s.store r b.ctx, Function.update threads q ⟨r, b.todo, b.inside⟩⟩ q b' =
      attempt cfg s threads q r clones (withFront b.ctx.outbox b') := by
  have hq : (withFront b.ctx.outbox b').ctx.rpc.eventQueue = b.ctx.rpc.eventQueue := eventQueue_of_step hb
  replace hq : b'.ctx.rpc.eventQueue = b.ctx.rpc.eventQueue := hq
  have hnext := (hc.stepped (r := r) (stepped_of_step hb) ha).2
  unfold worked attempt
  simp only [Function.update_self, store_store hq, Function.update_idem, hnext]
  rfl

/-- The server follows the steps of a thread that works alone. -/
theorem attempt_step (hr : r < s.cells.length) (hc : Cloning clones b) {x : Except Fatal (Busy μ)}
    (h : (alone s0).step b a = some x) :
    (threaded μ cfg).step (attempt cfg s threads q r clones b) (stepFor q a) =
      some (attempt cfg s threads q r clones <$> x) := by
  obtain ⟨ha, hstep, hnot⟩ := alone_work (q := q) ⟨x, h⟩
  rw [hstep] at h
  let t : Threaded μ := ⟨s.store r b.ctx, Function.update threads q ⟨r, b.todo, b.inside⟩⟩
  have hstate : attempt cfg s threads q r clones b = t := by
    unfold attempt
    dsimp only
    rw [if_neg fun hdone => hnot hdone.2]
  have hthread : t.threads q = ⟨r, b.todo, b.inside⟩ := Function.update_self ..
  have hcell : t.state.cells[(t.threads q).rpc]? = some b.ctx.toCell := by
    rw [hthread]
    exact List.getElem?_set_self hr
  have hwork : (threaded μ cfg).step t (stepFor q a) = t.work cfg q a := by
    cases a with
    | goOn => rfl
    | call => rfl
    | takeUp => cases ha
    | deliver => cases ha
    | lockWriter => cases ha
    | stepWriter => cases ha
  have hfront := step_withFront ha b.ctx.outbox ⟨⟨b.ctx.toCell, []⟩, b.todo, b.inside⟩
  have hb : withFront b.ctx.outbox ⟨⟨b.ctx.toCell, []⟩, b.todo, b.inside⟩ = b := by
    simp [withFront, working, behind]
  rw [hb, h] at hfront
  obtain ⟨y, hy, rfl⟩ := Option.map_eq_some_iff.mp hfront.symm
  rw [hstate, hwork, work_eq hcell, hthread, hy]
  cases y with
  | error f => rfl
  | ok b1 => exact congrArg (some ∘ Except.ok) (worked_eq hc ha h)

end Alone

/-! ### The handling of an event -/

section Handling
variable {sd : Bool} {e : RpcEvent} {rest : List (ℕ × RpcEvent)} {script : Script μ} {c : Cell μ}

/-- `HandleNewConnection` clones the `Rpc` unless the service shuts down. -/
def clonesFor (sd : Bool) (e : RpcEvent) : Bool := decide (sd = false ∧ e = .completion .newConnection)

theorem cloning_takeUp (c : Ctx μ) :
    Cloning (clonesFor sd e) (working [] (takeUp sd e c).2 none (takeUp sd e c).1) := by
  have hother (hne : e ≠ .completion .newConnection) (hmem : .use .clone ∉ (takeUp sd e c).2) :
      Cloning (clonesFor sd e) (working [] (takeUp sd e c).2 none (takeUp sd e c).1) := by
    have hclones : clonesFor sd e = false := by simp [clonesFor, hne]
    rw [hclones]
    exact hmem
  cases e with
  | completion t =>
    rw [takeUp_completion] at hother ⊢
    generalize (c.rpc.events t).ok = ok at hother ⊢
    cases t with
    | newConnection =>
      cases sd with
      | true => exact List.not_mem_nil
      | false =>
        cases ok with
        | true =>
          exact .inr ⟨[.use .onConnection, .onConnection, .requestStreamingReadIfNeeded], rfl, by decide⟩
        | false => exact .inr ⟨[], rfl, List.not_mem_nil⟩
    | read => exact hother (by simp) (by cases ok <;> simp [completionTasks])
    | write => exact hother (by simp) (by simp [completionTasks, writeTasks])
    | finish => exact hother (by simp) (by simp [completionTasks])
    | done => exact hother (by simp) (by simp [completionTasks])
  | writeNeeded =>
    refine hother (by simp) ?_
    unfold takeUp
    dsimp only
    split_ifs <;> simp [writeTasks]

theorem takeUp_ne_nil (h : clonesFor sd e = true) (c : Ctx μ) : (takeUp sd e c).2 ≠ [] := by
  obtain ⟨rfl, rfl⟩ := of_decide_eq_true h
  rw [takeUp_completion]
  cases (c.rpc.events .newConnection).ok <;> simp [completionTasks]

/-- The result of handling an event is what the thread that works alone comes to. -/
theorem handleNext_eq (threads : ℕ → EventThread) :
    handleNext cfg q r e rest script c s =
      (fun p => (attempt cfg { s with eventQueues := Function.update s.eventQueues q rest } threads q r
        (clonesFor (s.shuttingDown c.rpc.service) e) (working [] [] none p.1)).state) <$>
          handle (s.shuttingDown c.rpc.service) e script ⟨c, []⟩ := by
  unfold handleNext
  rcases hh : handle (s.shuttingDown c.rpc.service) e script ⟨c, []⟩ with f | ⟨c', new⟩
  · rfl
  · have hnew := handle_new_eq hh
    by_cases hc : s.shuttingDown c.rpc.service = false ∧ e = .completion .newConnection
    · rw [if_pos hc] at hnew
      subst hnew
      have hclones : clonesFor (s.shuttingDown c.rpc.service) e = true := decide_eq_true hc
      rw [hclones]
      exact relisten_eq c'.rpc _
    · rw [if_neg hc] at hnew
      subst hnew
      have hclones : clonesFor (s.shuttingDown c.rpc.service) e = false := decide_eq_false hc
      rw [hclones]
      rfl

theorem handle_cases {x : Except Fatal (State μ)}
    (h : (server μ cfg).step s (.handle q script) = some x) :
    ∃ r e rest c, s.eventQueues q = (r, e) :: rest ∧ s.cells[r]? = some c ∧
      x = handleNext cfg q r e rest script c s := by
  replace h : step cfg s (.handle q script) = some x := h
  unfold step at h
  dsimp only at h
  split at h
  · cases h
  · next r e rest hq =>
    split at h
    · next c hc => exact ⟨r, e, rest, c, hq, hc, (Option.some.inj h).symm⟩
    · cases h

/-- The thread of `q` handles an event alone. -/
theorem ends_of_handle (hw : (threads q).waits = true) (hq : s.eventQueues q = (r, e) :: rest)
    (hc : s.cells[r]? = some c) (script : Script μ) :
    Ends (threaded μ cfg) ⟨s, threads⟩ ((⟨·, Function.update threads q ⟨r, [], none⟩⟩) <$>
      handleNext cfg q r e rest script c s) := by
  let s1 := { s with eventQueues := Function.update s.eventQueues q rest }
  let sd := s.shuttingDown c.rpc.service
  let b := working [] (takeUp sd e ⟨c, []⟩).2 none (takeUp sd e ⟨c, []⟩).1
  have hr : r < s1.cells.length := (List.getElem?_eq_some_iff.mp hc).1
  have hcl : Cloning (clonesFor sd e) b := cloning_takeUp _
  have htake : (threaded μ cfg).Step ⟨s, threads⟩ (.takeUp q)
      (attempt cfg s1 threads q r (clonesFor sd e) b) := by
    have hnot : ¬ (clonesFor sd e = true ∧ b.todo = [] ∧ b.inside = none) :=
      fun h => takeUp_ne_nil h.1 _ h.2.1
    show (Threaded.takeUp q ⟨s, threads⟩).map Except.ok = _
    simp only [Threaded.takeUp, hq, hc, hw, if_true, attempt, if_neg hnot]
    rfl
  have hends : Ends (threaded μ cfg) (attempt cfg s1 threads q r (clonesFor sd e) b)
      (attempt cfg s1 threads q r (clonesFor sd e) <$>
        ((fun p => working [] [] none p.1) <$> handle sd e script ⟨c, []⟩)) := by
    have halone : Ends (alone b) b ((fun p => working [] [] none p.1) <$> handle sd e script ⟨c, []⟩) :=
      ends_handle sd e script ⟨c, []⟩
    refine halone.map (I := Cloning (clonesFor sd e)) (fun b a b' hi hs => ?_) (fun b a x hi hx => ?_) hcl
    · obtain ⟨ha, hstep, -⟩ := alone_work (q := q) ⟨_, hs⟩
      exact (hi.stepped (r := r) (stepped_of_step (hstep.symm.trans hs)) ha).1
    · exact ⟨stepFor q a, attempt_step hr hi hx⟩
  refine .step htake ?_
  rw [handleNext_eq threads]
  have heq (x : Except Fatal (Ctx μ × Option (Rpc μ))) :
      ((⟨·, Function.update threads q ⟨r, [], none⟩⟩) <$>
        ((fun p => (attempt cfg s1 threads q r (clonesFor sd e) (working [] [] none p.1)).state) <$> x)) =
      attempt cfg s1 threads q r (clonesFor sd e) <$> ((fun p => working [] [] none p.1) <$> x) := by
    cases x <;> rfl
  exact (congrArg _ (heq _)).mpr hends

/-- What a step of the server does, it can do with its event threads, if all of them wait. -/
theorem ends_of_waiting (hw : ∀ q, (threads q).waits = true) {a : Action μ} {x : Except Fatal (State μ)}
    (h : (server μ cfg).step s a = some x) :
    ∃ threads', (∀ q, (threads' q).waits = true) ∧
      Ends (threaded μ cfg) ⟨s, threads⟩ ((⟨·, threads'⟩) <$> x) := by
  have hother (hstep : (threaded μ cfg).step ⟨s, threads⟩ (.other a) =
      ((server μ cfg).step s a).map fun x => (⟨·, threads⟩) <$> x) :
      ∃ threads', (∀ q, (threads' q).waits = true) ∧
        Ends (threaded μ cfg) ⟨s, threads⟩ ((⟨·, threads'⟩) <$> x) := by
    rw [h] at hstep
    exact ⟨threads, hw, .of_step hstep⟩
  cases a with
  | handle q script =>
    obtain ⟨r, e, rest, c, hq, hc, rfl⟩ := handle_cases h
    refine ⟨_, fun p => ?_, ends_of_handle (hw q) hq hc script⟩
    by_cases hp : p = q
    · subst hp
      rw [Function.update_self]
      rfl
    · rw [Function.update_of_ne hp]
      exact hw p
  | deliver => exact hother rfl
  | lockWriter => exact hother rfl
  | stepWriter => exact hother rfl
  | stopServing => exact hother rfl

end Handling

/-- **The handling of events in one go is refined by the event threads.** Every state that a server comes
to when its events are handled in one go is one that it can come to with its event threads, all of them
waiting again; and whatever the server does next in one go, its event threads can do task by task, with
the same result or the same failure. -/
theorem handling_refined (hs : Reachable (server μ cfg) s) :
    ∃ threads, (∀ q, (threads q).waits = true) ∧ Reachable (threaded μ cfg) ⟨s, threads⟩ ∧
      ∀ a x, (server μ cfg).step s a = some x → ∃ threads', (∀ q, (threads' q).waits = true) ∧
        Ends (threaded μ cfg) ⟨s, threads⟩ ((⟨·, threads'⟩) <$> x) := by
  have hreach : ∃ threads, (∀ q, (threads q).waits = true) ∧ Reachable (threaded μ cfg) ⟨s, threads⟩ := by
    obtain ⟨as, hr⟩ := hs
    induction hr with
    | init => exact ⟨fun _ => ⟨0, [], none⟩, fun _ => rfl, Run.init.reachable⟩
    | step _ hstep ih =>
      obtain ⟨threads, hw, hr⟩ := ih
      obtain ⟨threads', hw', hends⟩ := ends_of_waiting hw hstep
      exact ⟨threads', hw', hr.later hends⟩
  obtain ⟨threads, hw, hr⟩ := hreach
  exact ⟨threads, hw, hr, fun a x hx => ends_of_waiting hw hx⟩

/-- A request of a stream has been answered, and the listener has been replaced. -/
theorem handling_refined_answered : ∃ (s : State ℕ) (threads : ℕ → EventThread),
    s.cells.map (fun c => (c.ops .write, c.ops .read, c.ops .newConnection)) = [(1, 1, 0), (0, 0, 1)] ∧
      (∀ q, (threads q).waits = true) ∧ Reachable (threaded ℕ (.single .bidiStreaming)) ⟨s, threads⟩ := by
  obtain ⟨s, hr, hp⟩ := exists_run (server ℕ (.single .bidiStreaming))
    [.deliver 0 .newConnection true 0, .handle 0 {}, .deliver 0 .read true 5,
      .handle 0 { onRequest := [.send (some 6)] }, .handle 0 {}]
    (fun s => decide (s.cells.map (fun c => (c.ops .write, c.ops .read, c.ops .newConnection)) =
      [(1, 1, 0), (0, 0, 1)])) (by decide)
  obtain ⟨threads, hw, hr', -⟩ := handling_refined hr.reachable
  exact ⟨s, threads, of_decide_eq_true hp, hw, hr'⟩

end AsyncGrpc.Service.Refinement
