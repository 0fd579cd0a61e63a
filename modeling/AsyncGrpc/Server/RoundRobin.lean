import AsyncGrpc.Model.RoundRobin
import AsyncGrpc.Server.Threads
import Mathlib.Data.Int.CardIntervalMod
import Mathlib.Order.Interval.Finset.Nat

/-! # The event queues are selected in turn

After `m` calls `current_event_queue_id_` is `m` modulo the number of event threads, so the calls go
round the event queues, whoever makes them.

* `selected_eq`: the selections of every run, in the order in which the lock was held, are those that
  the server of `Model.Threads` works with.
* `assigned_of_reachable`: every selection is that of one `Rpc`.
* `event_queues_in_turn`: no selection fails or is out of range, any round of them has every event queue
  once, and the numbers of `Rpc`s of two event queues differ by at most one. -/

namespace AsyncGrpc.Server.RoundRobin

open AsyncGrpc.Lib.Runs AsyncGrpc.Lib.Monitors AsyncGrpc.Model.Types AsyncGrpc.Model.Rpc
open AsyncGrpc.Model.Service AsyncGrpc.Model.Retry AsyncGrpc.Model.RoundRobin
open AsyncGrpc.Model.Server AsyncGrpc.Single.Machine AsyncGrpc.Single.Moves AsyncGrpc.Single.Project
open AsyncGrpc.Model.Threads (Options ThreadState threads currentEventQueueId)

variable {μ ι : Type} [DecidableEq ι] {n q q' : ℕ}

/-! ### The turns -/

/-- The first `m` selections, as the server of `Model.Threads` has them. -/
def turns (n m : ℕ) : List ℕ :=
  (List.range m).map (Model.Threads.selectNextEventQueueRoundRobin n)

theorem currentEventQueueId_eq (n m : ℕ) : currentEventQueueId n m = m % n := by
  induction m with
  | zero => exact (Nat.zero_mod n).symm
  | succ m ih => rw [currentEventQueueId, ih, Nat.mod_add_mod]

theorem turns_eq (n m : ℕ) : turns n m = (List.range m).map fun i => (i + 1) % n :=
  List.map_congr_left fun i _ => currentEventQueueId_eq n (i + 1)

theorem turns_succ (n m : ℕ) :
    turns n (m + 1) = turns n m ++ [Model.Threads.selectNextEventQueueRoundRobin n m] := by
  unfold turns
  rw [List.range_succ, List.map_append, List.map_singleton]

theorem lt_of_mem_turns (hn : 0 < n) {m : ℕ} (h : q ∈ turns n m) : q < n := by
  rw [turns_eq] at h
  obtain ⟨i, -, rfl⟩ := List.mem_map.mp h
  exact Nat.mod_lt _ hn

/-- A part of the turns is the turns from some point on. -/
theorem window_eq {m : ℕ} {before window after : List ℕ}
    (h : turns n m = before ++ window ++ after) :
    ∃ i, window = (List.range' i window.length).map fun i => (i + 1) % n := by
  rw [turns_eq, List.range_eq_range', List.append_assoc] at h
  obtain ⟨l, l', hl, -, h'⟩ := List.map_eq_append_iff.mp h
  obtain ⟨k, -, -, rfl⟩ := List.range'_eq_append_iff.mp hl
  obtain ⟨w, l'', hw, rfl, -⟩ := List.map_eq_append_iff.mp h'
  obtain ⟨j, -, rfl, -⟩ := List.range'_eq_append_iff.mp hw
  exact ⟨0 + k * 1, by rw [List.length_map, List.length_range']⟩

/-- Any `n` turns in a row have every queue once. -/
theorem count_window {m : ℕ} {before window after : List ℕ}
    (h : turns n m = before ++ window ++ after) (hw : window.length = n) (hq : q < n) :
    window.count q = 1 := by
  obtain ⟨i, hi⟩ := window_eq h
  have hround : (window : Multiset ℕ) = Multiset.range n := by
    have hIco : Multiset.Ico (1 + i) (1 + i + n) = (List.range' (1 + i) n : Multiset ℕ) := by
      show ((List.range' (1 + i) (1 + i + n - (1 + i)) : List ℕ) : Multiset ℕ) = _
      rw [Nat.add_sub_cancel_left]
    rw [hi, hw, ← Nat.multiset_Ico_map_mod (1 + i) n, hIco, Multiset.map_coe,
      ← List.map_add_range', List.map_map]
    simp only [Function.comp_def, Nat.add_comm]
  rw [← Multiset.coe_count, hround]
  exact Multiset.count_eq_one_of_mem (Multiset.nodup_range n) (Multiset.mem_range.mpr hq)

/-- How often a queue has had its turn: once a round, where the queue `0` comes last in a round. -/
theorem count_turns (m : ℕ) (hq : q < n) :
    (turns n m).count q + (if q = 0 then 1 else 0) =
      (m + 1) / n + if q < (m + 1) % n then 1 else 0 := by
  have hcount : (turns n m).count q = m.count fun i => i + 1 ≡ q [MOD n] := by
    induction m with
    | zero => rfl
    | succ m ih =>
      have hmod : Model.Threads.selectNextEventQueueRoundRobin n m = q ↔ m + 1 ≡ q [MOD n] := by
        unfold Model.Threads.selectNextEventQueueRoundRobin Nat.ModEq
        rw [currentEventQueueId_eq, Nat.mod_eq_of_lt hq]
      rw [turns_succ, List.count_append, ih, Nat.count_succ, List.count_singleton]
      simp only [beq_iff_eq, hmod]
  have hzero : 0 ≡ q [MOD n] ↔ q = 0 := by
    unfold Nat.ModEq
    rw [Nat.zero_mod, Nat.mod_eq_of_lt hq, eq_comm]
  have hall := Nat.count_modEq_card (r := n) (b := m + 1) (by omega) q
  rw [Nat.count_succ', Nat.mod_eq_of_lt hq] at hall
  simp only [hzero] at hall
  rw [hcount]
  exact hall

theorem turns_balanced (m : ℕ) (hq : q < n) (hq' : q' < n) :
    (turns n m).count q ≤ (turns n m).count q' + 1 := by
  have h := count_turns m hq
  have h' := count_turns m hq'
  split_ifs at h h' <;> omega

/-! ### The calls -/

theorem toInt_eq {i : ℕ} (h : (i : ℤ) ≤ intMax) : toInt i = i := by
  unfold toInt intMax at *
  rw [Int.bmod_def]
  omega

theorem toSize_eq {i : ℕ} (h : (i : ℤ) ≤ intMax) : toSize i = i := by
  unfold toSize intMax at *
  omega

/-- A call does what the selector of `Model.Threads` does. -/
theorem select_eq (hn : 0 < n) (hint : (n : ℤ) ≤ intMax) (m : ℕ) :
    selectNextEventQueueRoundRobin n (currentEventQueueId n m) =
      .ok (currentEventQueueId n (m + 1), Model.Threads.selectNextEventQueueRoundRobin n m) := by
  have hid : currentEventQueueId n m < n := by
    rw [currentEventQueueId_eq]
    exact Nat.mod_lt m hn
  have hnext : currentEventQueueId n (m + 1) < n := by
    rw [currentEventQueueId_eq]
    exact Nat.mod_lt _ hn
  have hsize : toSize (currentEventQueueId n m + 1) % n = currentEventQueueId n (m + 1) := by
    have h1 : toSize ((currentEventQueueId n m + 1 : ℕ) : ℤ) = currentEventQueueId n m + 1 :=
      toSize_eq (by omega)
    rw [← Nat.cast_succ, h1]
    rfl
  unfold selectNextEventQueueRoundRobin
  rw [if_neg (by omega), if_neg (by omega), hsize, toInt_eq (by omega)]
  dsimp only
  rw [toSize_eq (by omega), eventQueueAt, if_pos hnext]
  rfl

/-- The event queues that were selected, in the order of the calls. -/
def selected (s : Model.RoundRobin.State ι) : List ℕ := s.log.map Entry.result

theorem sequential_turns (hn : 0 < n) (hint : (n : ℤ) ≤ intMax) {es : List (Entry ℕ ℕ)} {id : ℤ}
    (h : Sequential (methods n) 0 es id) :
    es.map Entry.result = turns n es.length ∧ id = currentEventQueueId n es.length := by
  induction h with
  | nil => exact ⟨rfl, rfl⟩
  | @ran es id id' k result h hg hb ih =>
    obtain ⟨ih1, rfl⟩ := ih
    have hs := (select_eq hn hint es.length).symm.trans hb
    simp only [Except.ok.injEq, Prod.mk.injEq] at hs
    obtain ⟨rfl, rfl⟩ := hs
    rw [List.map_append, List.length_append, List.length_singleton, turns_succ, ih1]
    exact ⟨rfl, rfl⟩
  | gaveUp h hg hk => cases hk

/-- The selections are the turns, in whatever order the threads run. -/
theorem selected_eq (hn : 0 < n) (hint : (n : ℤ) ≤ intMax) {s : Model.RoundRobin.State ι}
    (h : Reachable (selection ι n) s) : selected s = turns n s.log.length :=
  (sequential_turns hn hint (sequential_of_reachable h)).1

/-- No call fails. -/
theorem selection_not_aborts (hn : 0 < n) (hint : (n : ℤ) ≤ intMax) {s : Model.RoundRobin.State ι}
    (h : Reachable (selection ι n) s) (a : MonitorAction ℕ ι) (e : SelectFatal) :
    ¬ (selection ι n).Aborts s a e := by
  intro ha
  obtain ⟨k, -, hb⟩ := body_of_error ha
  have hid := (sequential_turns hn hint (sequential_of_reachable h)).2
  replace hb : selectNextEventQueueRoundRobin n s.shared = .error e := hb
  rw [hid, select_eq hn hint] at hb
  cases hb

/-- A call that gets the lock selects a queue. -/
theorem select_of_entering (hn : 0 < n) (hint : (n : ℤ) ≤ intMax) {s : Model.RoundRobin.State ι}
    (h : Reachable (selection ι n) s) {t : ι} {k : ℕ} (ht : s.threads t = .entering k) :
    ∃ s' q, (selection ι n).Step s (.enter t) s' ∧ q < n ∧ s'.threads t = .leaving k q := by
  have hid := (sequential_turns hn hint (sequential_of_reachable h)).2
  let q := Model.Threads.selectNextEventQueueRoundRobin n s.log.length
  refine ⟨s.leave t (currentEventQueueId n (s.log.length + 1)) ⟨k, false, q⟩, q, ?_, ?_, ?_⟩
  · have hbody : (methods n).body k s.shared = .ok (currentEventQueueId n (s.log.length + 1), q) :=
      hid ▸ select_eq hn hint s.log.length
    have hrun : s.run (methods n) t k =
        .ok (s.leave t (currentEventQueueId n (s.log.length + 1)) ⟨k, false, q⟩) := by
      unfold MonitorState.run
      rw [hbody]
      rfl
    show MonitorState.step (methods n) s (.enter t) = _
    simp only [MonitorState.step, ht, hrun]
    rfl
  · have hq : q ∈ turns n (s.log.length + 1) := by
      rw [turns_succ]
      exact List.mem_append_right _ (List.mem_singleton_self q)
    exact lt_of_mem_turns hn hq
  · exact Function.update_self ..

/-! ### The `Rpc`s -/

/-- The event queues of the `Rpc`s, in the order in which the `Rpc`s were made. -/
def assigned (st : Model.Server.State μ) : List ℕ := st.cells.map fun c => c.rpc.eventQueue

/-- Every selection is that of one `Rpc`. -/
def Assigned (cfg : Config) (st : Model.Server.State μ) : Prop :=
  assigned st = (List.range st.selections).map cfg.eventQueueSelector

theorem assigned_store {st : Model.Server.State μ} {r : ℕ} {c : Cell μ} {c' : Ctx μ}
    (hc : st.cells[r]? = some c) (hq : c'.rpc.eventQueue = c.rpc.eventQueue) :
    assigned (st.store r c') = assigned st := by
  obtain ⟨hr, rfl⟩ := List.getElem?_eq_some_iff.mp hc
  unfold assigned State.store
  dsimp only
  have hr' : r < (st.cells.map fun c => c.rpc.eventQueue).length := by rwa [List.length_map]
  rw [List.map_set, hq, ← List.getElem_map (fun c : Cell μ => c.rpc.eventQueue) (h := hr')]
  exact List.set_getElem_self hr'

variable {cfg : Config} {st st' : Model.Server.State μ}

theorem Assigned.add (h : Assigned cfg st) {c : Cell μ}
    (hc : c.rpc.eventQueue = cfg.eventQueueSelector st.selections) :
    Assigned cfg { st with selections := st.selections + 1, cells := st.cells ++ [c] } := by
  unfold Assigned assigned at *
  dsimp only
  rw [List.map_append, h, List.map_singleton, hc, List.range_succ, List.map_append, List.map_singleton]

theorem assigned_init : Assigned cfg (server μ cfg).init := by
  have hlisten : ∀ service i info (st : Model.Server.State μ) q st', Assigned cfg st →
      startListening cfg service i info st q = .ok st' → Assigned cfg st' := by
    intro service i info st q st' hst h
    obtain ⟨c, hc, rfl⟩ := addRpc_eq_ok h
    cases (listen_newRpc _ _ _ _ _).symm.trans hc
    exact hst.add rfl
  have hempty : Assigned cfg (State.empty : Model.Server.State μ) := rfl
  refine foldlM_inv (P := Assigned cfg) (fun st p st1 hst h => ?_) hempty (start_eq cfg)
  refine foldlM_inv (P := Assigned cfg) (fun st m st1 hst h => ?_) hst h
  exact foldlM_inv (fun st q st1 => hlisten p.2 m.2 m.1 st q st1) hst h

theorem Assigned.step (h : Assigned cfg st) {a : Action μ} (hs : (server μ cfg).Step st a st') :
    Assigned cfg st' := by
  cases a with
  | stopServing service =>
    cases hs
    exact h
  | handle q script =>
    obtain ⟨r, e, rest, c, hq, hc, hn⟩ := handleNext_of_step hs
    obtain ⟨c', new, h1, h2⟩ := handleNext_eq_ok hn
    let st1 : Model.Server.State μ :=
      { st with eventQueues := Function.update st.eventQueues q rest }
    have hkept : Assigned cfg (st1.store r c') :=
      (assigned_store hc (eventQueue_of_fixed (handled_of_handle h1).fixed)).trans h
    rcases h2 with ⟨-, rfl⟩ | ⟨-, rfl⟩
    · exact hkept
    · exact hkept.add rfl
  | _ =>
    obtain ⟨r, c, c', b, hc, hb, ha, rfl⟩ := own_of_step hs (by simp) (by simp)
    exact (assigned_store hc (eventQueue_of_fixed (moved_of_step (hb [])).fixed)).trans h

theorem assigned_of_reachable (h : Reachable (server μ cfg) st) : Assigned cfg st :=
  inv_of_reachable assigned_init (fun _ _ _ hi hs => hi.step hs) h

/-! ### In turn -/

/-- Among `n` queues the selections `qs` go round. -/
structure InTurn (n : ℕ) (qs : List ℕ) : Prop where
  inRange : ∀ q ∈ qs, q < n
  everyRound : ∀ before window after, qs = before ++ window ++ after → window.length = n →
    ∀ q < n, window.count q = 1
  balanced : ∀ q < n, ∀ q' < n, qs.count q ≤ qs.count q' + 1

theorem inTurn_turns (hn : 0 < n) (m : ℕ) : InTurn n (turns n m) where
  inRange _ hq := lt_of_mem_turns hn hq
  everyRound _ _ _ h hw _ hq := count_window h hw hq
  balanced _ hq _ hq' := turns_balanced m hq hq'

/-- **The event queues are selected in turn.** With `n` event threads, where `n` fits in an `int`, no
call of `SelectNextEventQueueRoundRobin` fails, in whatever order the threads make them; every call
selects a queue in range, and the selections go round. So do the event queues of the `Rpc`s of a server,
of which there is one for every selection. -/
theorem event_queues_in_turn (μ ι : Type) [DecidableEq ι] (hn : 0 < n) (hint : (n : ℤ) ≤ intMax) :
    (∀ s, Reachable (selection ι n) s → InTurn n (selected s) ∧
      (∀ a e, ¬ (selection ι n).Aborts s a e) ∧
      ∀ t k, s.threads t = .entering k →
        ∃ s' q, (selection ι n).Step s (.enter t) s' ∧ q < n ∧ s'.threads t = .leaving k q) ∧
    ∀ o : Options, o.numEventThreads = n → ∀ s : ThreadState μ, Reachable (threads μ o) s →
      InTurn n (assigned s.state) ∧ s.state.cells.length = s.state.selections := by
  refine ⟨fun s hs => ⟨?_, selection_not_aborts hn hint hs, ?_⟩, ?_⟩
  · rw [selected_eq hn hint hs]
    exact inTurn_turns hn _
  · exact fun t k => select_of_entering hn hint hs
  · rintro o rfl s hs
    have h : assigned s.state = turns o.numEventThreads s.state.selections :=
      assigned_of_reachable (Threads.reachable_state hs)
    refine ⟨h ▸ inTurn_turns hn _, ?_⟩
    simpa [assigned, turns] using congrArg List.length h

/-- Two threads select among three event queues, the second before the first. -/
theorem event_queues_in_turn_three :
    0 < 3 ∧ ((3 : ℕ) : ℤ) ≤ intMax ∧
      ∃ s, Reachable (selection Bool 3) s ∧ selected s = [1, 2, 0, 1] ∧ InTurn 3 [1, 2, 0, 1] := by
  obtain ⟨s, hr, hs⟩ := exists_run (selection Bool 3)
    [.call false 0, .call true 1, .enter true, .enter false, .notifyAll true, .notifyAll false,
      .call true 0, .enter true, .notifyAll true, .call false 0, .enter false]
    (fun s => decide (selected s = [1, 2, 0, 1])) (by decide)
  have hsel : selected s = [1, 2, 0, 1] := of_decide_eq_true hs
  have h := (event_queues_in_turn ℕ Bool (by decide) (by decide)).1 s hr.reachable
  exact ⟨by decide, by decide, s, hr.reachable, hsel, hsel ▸ h.1⟩

end AsyncGrpc.Server.RoundRobin
