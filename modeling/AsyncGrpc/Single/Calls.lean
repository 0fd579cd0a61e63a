import AsyncGrpc.Single.Removal

/-! # The calls of `Writer`s

`CallLog`: what a `Writer` call has left in the history at each of its steps. `stepWriter_ok`: a call
whose `Rpc` is still listed can go on. `notDoomed_moved`: the exact condition under which no `Writer`
call that has locked an `Rpc` loses its entry before `GetWeakPtr`. -/

namespace AsyncGrpc.Single.Calls

open AsyncGrpc.Lib.Runs AsyncGrpc.Lib.Histories
open AsyncGrpc.Model.Types AsyncGrpc.Model.Rpc AsyncGrpc.Model.Service AsyncGrpc.Model.Server
open AsyncGrpc.Single.Machine AsyncGrpc.Single.Moves AsyncGrpc.Single.Project
open AsyncGrpc.Single.Lifecycle AsyncGrpc.Single.Ledger AsyncGrpc.Single.Order
open AsyncGrpc.Single.Removal

variable {μ : Type} {cfg : Config} {l l' : Conn μ} {b : Step μ} {c c' : Ctx μ} {sd : Bool}
  {e : RpcEvent} {rest : List RpcEvent}

/-! ### What a call leaves in the history -/

/-- The item that the call number `i` enqueued. -/
def enqueuedByAct (i : ℕ) : Act μ → Option (SendItem μ)
  | .enqueue item (some j) => if j = i then some item else none
  | _ => none

/-- The event that the call number `i` pushed. -/
def pushedByAct (i : ℕ) : Act μ → Option Unit
  | .push (some j) => if j = i then some () else none
  | _ => none

/-- The items that the call number `i` enqueued. -/
def enqueuedBy (i : ℕ) (h : List (Act μ)) : List (SendItem μ) := h.filterMap (enqueuedByAct i)

/-- How many `WRITE_NEEDED` events the call number `i` pushed. -/
def pushedBy (i : ℕ) (h : List (Act μ)) : ℕ := (h.filterMap (pushedByAct i)).length

/-- The item that a call has enqueued where it stands. -/
def WriterCall.enqueuedSoFar (k : WriterCall μ) : List (SendItem μ) :=
  match k.pc with
  | .locked | .returned false => []
  | .enqueued | .gotWeakPtr | .pushed | .returned true => [k.method.item]

/-- How many events a call has pushed where it stands. -/
def WriterCall.pushedSoFar (k : WriterCall μ) : ℕ :=
  match k.pc with
  | .locked | .enqueued | .gotWeakPtr | .returned false => 0
  | .pushed | .returned true => 1

/-- Every call has left in the history what its steps did. -/
def CallLog (c : Cell μ) : Prop :=
  ∀ i, enqueuedBy i c.history = (c.calls[i]?.map WriterCall.enqueuedSoFar).getD [] ∧
    pushedBy i c.history = (c.calls[i]?.map WriterCall.pushedSoFar).getD 0

theorem callLog_handled (h : CallLog l.cell) (hl : Invariant l) (hi : l.inbox = e :: rest)
    (hh : Handled sd e ⟨l.cell, []⟩ c') : CallLog c'.toCell := by
  intro i
  have h1 : enqueuedBy i c'.history = enqueuedBy i l.cell.history := by
    have := observe_handled (f := enqueuedByAct i)
      (fun a ha => by
        cases a with
        | enqueue item call => cases call <;> simp_all [inHandler, enqueuedByAct]
        | _ => rfl) hl hi hh
    unfold enqueuedBy
    rw [this]
    cases e <;> simp [eventActs, enqueuedByAct, List.filterMap_cons]
  have h2 : pushedBy i c'.history = pushedBy i l.cell.history := by
    have := observe_handled (f := pushedByAct i)
      (fun a ha => by
        cases a with
        | push call => cases call <;> simp_all [inHandler, pushedByAct]
        | _ => rfl) hl hi hh
    unfold pushedBy
    rw [this]
    cases e <;> simp [eventActs, pushedByAct, List.filterMap_cons]
  rw [h1, h2, hh.calls]
  exact h i

/-- The call number `i` goes on, and leaves `acts` in the history. -/
theorem CallLog.step {a b : Cell μ} (h : CallLog a) {i : ℕ} {k k' : WriterCall μ}
    (hk : a.calls[i]? = some k) (acts : List (Act μ)) (hb : b.calls = a.calls.set i k')
    (hh : b.history = a.history ++ acts) (hother : ∀ j, j ≠ i → enqueuedBy j acts = [] ∧
      pushedBy j acts = 0)
    (henq : WriterCall.enqueuedSoFar k' = WriterCall.enqueuedSoFar k ++ enqueuedBy i acts)
    (hpush : WriterCall.pushedSoFar k' = WriterCall.pushedSoFar k + pushedBy i acts) :
    CallLog b := by
  have happ : ∀ j, enqueuedBy j b.history = enqueuedBy j a.history ++ enqueuedBy j acts ∧
      pushedBy j b.history = pushedBy j a.history + pushedBy j acts := by
    intro j
    rw [hh]
    exact ⟨List.filterMap_append, by simp [pushedBy]⟩
  have hlt : i < a.calls.length := (List.getElem?_eq_some_iff.mp hk).1
  intro j
  rw [(happ j).1, (happ j).2, hb, (h j).1, (h j).2]
  by_cases hj : j = i
  · subst hj
    rw [hk, List.getElem?_set_self hlt]
    exact ⟨henq.symm, hpush.symm⟩
  · rw [List.getElem?_set_ne (Ne.symm hj), (hother j hj).1, (hother j hj).2]
    simp

theorem CallLog.moved (h : CallLog l.cell) (hl : Invariant l) (hm : Moved l b l') :
    CallLog l'.cell := by
  cases hm with
  | delivered =>
    intro i
    have := h i
    simpa [deliver, enqueuedBy, enqueuedByAct, pushedBy, pushedByAct, List.filterMap_cons] using this
  | handled hi hh => exact callLog_handled h hl hi hh
  | @locked w hw =>
    intro i
    obtain ⟨h1, h2⟩ := h i
    show enqueuedBy i l.cell.history = _ ∧ pushedBy i l.cell.history = _
    rw [h1, h2]
    simp only [lockWriter]
    rcases Nat.lt_trichotomy i l.cell.calls.length with hlt | heq | hgt
    · rw [List.getElem?_append_left hlt]
      exact ⟨rfl, rfl⟩
    · rw [heq]
      -- a call that has not begun has done as much as one that has locked, or failed to
      split_ifs <;> simp [WriterCall.enqueuedSoFar, WriterCall.pushedSoFar]
    · rw [List.getElem?_eq_none_iff.mpr (by omega), List.getElem?_eq_none_iff.mpr (by simp; omega)]
      exact ⟨rfl, rfl⟩
  | @enqueued i k hk hp =>
    refine h.step hk [.enqueue k.method.item (some i)] rfl rfl (fun j hj => ?_) ?_ ?_
    · simp [enqueuedBy, enqueuedByAct, pushedBy, pushedByAct, List.filterMap_cons, Ne.symm hj]
    · simp [WriterCall.enqueuedSoFar, hp, enqueuedBy, enqueuedByAct]
    · simp [WriterCall.pushedSoFar, hp, pushedBy, pushedByAct, List.filterMap_cons]
  | @gotWeakPtr i k hk hp ha =>
    refine h.step hk [] rfl (List.append_nil _).symm (fun j hj => ?_) ?_ ?_
    · exact ⟨rfl, rfl⟩
    · simp [WriterCall.enqueuedSoFar, hp, enqueuedBy]
    · simp [WriterCall.pushedSoFar, hp, pushedBy]
  | @pushed i k hk hp =>
    refine h.step hk [.push (some i)] rfl rfl (fun j hj => ?_) ?_ ?_
    · simp [enqueuedBy, enqueuedByAct, pushedBy, pushedByAct, List.filterMap_cons, Ne.symm hj]
    · simp [WriterCall.enqueuedSoFar, hp, enqueuedBy, enqueuedByAct, List.filterMap_cons]
    · simp [WriterCall.pushedSoFar, hp, pushedBy, pushedByAct]
  | @returned i k hk hp =>
    refine h.step hk [] rfl (List.append_nil _).symm (fun j hj => ?_) ?_ ?_
    · exact ⟨rfl, rfl⟩
    · simp [WriterCall.enqueuedSoFar, hp, enqueuedBy]
    · simp [WriterCall.pushedSoFar, hp, pushedBy]

/-- **A call has done what its steps say.** -/
theorem callLog_of_walk {Q : Conn μ → Step μ → Prop} (h : Walks Q l) : CallLog l.cell := by
  refine of_walk (I := fun l => CallLog l.cell) (fun l hf i => ?_)
    (fun _ _ _ hr hi hm => hr.moved hi hm) h
  obtain ⟨_, _, _, _, _, rfl⟩ := fresh_eq hf
  exact ⟨rfl, rfl⟩

/-! ### The steps of a call -/

/-- How many steps a call has before it. -/
def WriterCall.stepsLeft (k : WriterCall μ) : ℕ :=
  match k.pc with
  | .locked => 4
  | .enqueued => 3
  | .gotWeakPtr => 2
  | .pushed => 1
  | .returned _ => 0

/-- A call that has not lost the entry can always go on, and each step brings it nearer to its
return. -/
theorem stepWriter_ok (hl : Invariant l) {i : ℕ} {k : WriterCall μ} (hk : l.cell.calls[i]? = some k)
    (hh : k.holds = true) (ha : k.pc = .enqueued → l.cell.active = true) :
    ∃ (c' : Ctx μ) (k' : WriterCall μ), stepWriter i k ⟨l.cell, []⟩ = .ok c' ∧ c'.calls[i]? = some k' ∧
      WriterCall.stepsLeft k' + 1 = WriterCall.stepsLeft k := by
  have hlt : i < l.cell.calls.length := (List.getElem?_eq_some_iff.mp hk).1
  have hset : ∀ (c : Ctx μ) (pc : WriterPc), c.calls = l.cell.calls →
      (setPc i k pc c).calls[i]? = some { k with pc := pc } := by
    intro c pc hc
    show (c.calls.set i _)[i]? = _
    rw [hc, List.getElem?_set_self hlt]
  have hhandler := (hl.phase.connected_of_not_idle (not_idle_of_call hk)).handler
  unfold stepWriter WriterCall.stepsLeft
  unfold WriterCall.holds at hh
  rcases hp : k.pc with _ | _ | _ | _ | b
  · exact ⟨_, _, rfl, hset _ _ rfl, rfl⟩
  · refine ⟨_, _, ?_, hset ⟨l.cell, []⟩ .gotWeakPtr rfl, rfl⟩
    simp only [getWeakPtr, ha hp, if_true]
    rfl
  · exact ⟨_, _, rfl, hset _ _ rfl, rfl⟩
  · refine ⟨_, _, ?_, hset ⟨l.cell, []⟩ (.returned true) rfl, rfl⟩
    dsimp only
    split
    · rw [if_pos hhandler]
    · rfl
  · rw [hp] at hh
    cases hh

/-! ### Calls between their `lock` and their `GetWeakPtr` -/

/-- The call has locked the `Rpc` and not yet passed the `CHECK` of `GetWeakPtr`. -/
def unchecked (k : WriterCall μ) : Bool := k.pc = .locked || k.pc = .enqueued

/-- No call will fail the `CHECK`: its entry is still there. -/
def NotDoomed (c : Cell μ) : Prop := c.active = false → ∀ k ∈ c.calls, unchecked k = false

/-- Handling the oldest event would take the entry from `ActiveRpcs`: the event is one after which
`RemoveIfNotPending` is called, its flag is the last one that is set, and there is nothing to write. -/
def endsWithHead (l : Conn μ) : Bool :=
  match l.inbox.head? with
  | some (.completion .read) =>
    !(l.cell.rpc.events .read).ok && !anyPending (setPending .read false l.cell.rpc)
  | some (.completion .write) =>
    l.cell.rpc.sendQueue.isEmpty && !anyPending (setPending .write false l.cell.rpc)
  | some (.completion .finish) => !anyPending (setPending .finish false l.cell.rpc)
  | some (.completion .done) => !anyPending (setPending .done false l.cell.rpc)
  | some (.completion .newConnection) | some .writeNeeded | none => false

/-- `Writer`s are only entered while the entry is in `ActiveRpcs` or the `Rpc` is gone, and the entry
is not removed while a call stands between its `lock` and its `GetWeakPtr`. -/
def Undisturbed (l : Conn μ) : Step μ → Prop
  | .lockWriter _ => l.cell.alive = true → l.cell.active = true
  | .handle _ _ => endsWithHead l = true → ∀ k ∈ l.cell.calls, unchecked k = false
  | _ => True

theorem anyPending_issues (item : SendItem μ) (rest' : List (SendItem μ)) (c : Ctx μ) :
    anyPending (issues item rest' c).rpc = true := by
  have hop := opOf_tag c.rpc.rpcHandlerInfo.rpcType item
  refine anyPending_of _ (opOf c.rpc.rpcHandlerInfo.rpcType item).tag ?_ (begins_pending_self _ _)
  rcases hop with h | h <;> rw [h] <;> decide

/-- When the entry leaves `ActiveRpcs` with the handled event. -/
theorem handled_ends_iff (hl : Invariant l) (hi : l.inbox = e :: rest)
    (he : e ≠ .completion .newConnection) (ha : l.cell.active = true)
    (hh : Handled sd e ⟨l.cell, []⟩ c') : c'.active = false ↔ endsWithHead l = true := by
  have hhead : l.inbox.head? = some e := by rw [hi]; rfl
  have htidies : ∀ c1 : Ctx μ, c1.active = l.cell.active →
      ((tidies c1).active = false ↔ anyPending c1.rpc = false) := by
    intro c1 h1
    rw [tidies_active, h1, ha, Bool.true_and]
  unfold endsWithHead
  rw [hhead]
  cases hh with
  | refused => exact absurd rfl he
  | failed => exact absurd rfl he
  | accepted => exact absurd rfl he
  | reaccepted => exact absurd rfl he
  | read hok _ _ hv =>
    replace hok : (l.cell.rpc.events .read).ok = true := hok
    rw [hv.frame.2.2.1]
    simp [hok, calledBack, sends, pops, use, log, ha]
  | readsDone hok =>
    replace hok : (l.cell.rpc.events .read).ok = false := hok
    rw [htidies _ rfl]
    simp only [hok, Bool.not_false, Bool.true_and, Bool.not_eq_true']
    exact Iff.rfl
  | write hq =>
    rw [htidies _ hq.frame.2.2.1]
    simp only [Bool.and_eq_true, List.isEmpty_iff, Bool.not_eq_true']
    cases hq with
    | idle hidle =>
      -- the queue is not sent when it is empty or when an operation of the two is pending
      refine ⟨fun h => ⟨?_, h⟩, fun h => h.2⟩
      rcases hidle with hq | hp | hp
      · exact hq
      · cases (anyPending_eq_false.mp h _ (by decide)).symm.trans hp
      · cases (anyPending_eq_false.mp h _ (by decide)).symm.trans hp
    | issued hq =>
      rw [anyPending_issues]
      replace hq : l.cell.rpc.sendQueue = _ := hq
      simp [hq]
  | finish =>
    rw [htidies _ rfl]
    simp only [Bool.not_eq_true']
    exact Iff.rfl
  | done =>
    rw [htidies _ rfl]
    simp only [Bool.not_eq_true']
    exact Iff.rfl
  | writeNeeded _ hq =>
    rw [htidies _ hq.frame.2.2.1]
    refine iff_of_false (fun h => ?_) (by simp)
    cases hq with
    | idle =>
      have hbusy := (hl.connected hi he (by rintro ⟨⟩)).busy ha
      cases h.symm.trans hbusy
    | issued => cases h.symm.trans (anyPending_issues _ _ _)
  | stale => simp [ha]

theorem notDoomed_of_fresh (h : Fresh l) : NotDoomed l.cell := by
  obtain ⟨_, _, _, _, _, rfl⟩ := fresh_eq h
  intro _ k hk
  cases hk

theorem unchecked_set {ks : List (WriterCall μ)} {i : ℕ} {k k' : WriterCall μ} (hk : ks[i]? = some k)
    (hu : unchecked k' = unchecked k) :
    (∀ x ∈ ks.set i k', unchecked x = false) ↔ ∀ x ∈ ks, unchecked x = false := by
  have hsame : (ks.set i k').map unchecked = ks.map unchecked := by
    obtain ⟨hlt, hget⟩ := List.getElem?_eq_some_iff.mp hk
    rw [List.map_set, hu, ← hget, ← List.getElem_map unchecked (h := by simpa using hlt),
      List.set_getElem_self]
  rw [← List.forall_mem_map (P := (· = false)), hsame, List.forall_mem_map]

/-- A step of a call on a removed `Rpc` does not bring it past the `CHECK`. -/
theorem notDoomed_stepWriter {i : ℕ} (hm : Moved l (.stepWriter i) l') :
    NotDoomed l'.cell ↔ NotDoomed l.cell := by
  cases hm with
  | enqueued hk hp => exact imp_congr_right fun _ => unchecked_set hk (by simp [unchecked, hp])
  | gotWeakPtr _ _ ha =>
    exact iff_of_true (fun h => by cases ha.symm.trans h) (fun h => by cases ha.symm.trans h)
  | pushed hk hp => exact imp_congr_right fun _ => unchecked_set hk (by simp [unchecked, hp])
  | returned hk hp => exact imp_congr_right fun _ => unchecked_set hk (by simp [unchecked, hp])

/-- A call that is doomed stays so. -/
theorem notDoomed_back (hm : Moved l b l') (h : NotDoomed l'.cell) : NotDoomed l.cell := by
  cases b with
  | stepWriter i => exact (notDoomed_stepWriter hm).mp h
  | deliver t ok m => cases hm; exact h
  | lockWriter w =>
    cases hm
    exact fun ha k hk => h ha k (List.mem_append_left _ hk)
  | handle sd script =>
    cases hm with
    | @handled _ _ e rest c' hi hh =>
      intro ha k hk
      have hk' : k ∈ c'.calls := by rw [hh.calls]; exact hk
      exact h (hh.inactive ha) k hk'

/-- **The exact condition for one step**: no call loses the entry before its `GetWeakPtr`. -/
theorem notDoomed_moved (hl : Invariant l) (h : NotDoomed l.cell) (hm : Moved l b l') :
    NotDoomed l'.cell ↔ Undisturbed l b := by
  cases b with
  | stepWriter i => exact iff_of_true ((notDoomed_stepWriter hm).mpr h) trivial
  | deliver t ok m => cases hm; exact iff_of_true h trivial
  | lockWriter w =>
    cases hm
    constructor
    · intro h' halive
      by_contra hne
      have ha : l.cell.active = false := by simpa using hne
      have := h' ha ⟨w, if l.cell.alive then .locked else .returned false⟩ (by simp [lockWriter])
      simp [unchecked, halive] at this
    · intro hu ha k hk
      rcases List.mem_append.mp hk with hk | hk
      · exact h ha k hk
      · have halive : l.cell.alive = false := by
          by_contra halive
          have hlisted := hu (by simpa using halive)
          cases ha.symm.trans hlisted
        rw [List.mem_singleton.mp hk]
        simp [unchecked, halive]
  | handle sd script =>
    cases hm with
    | @handled _ _ e rest c' hi hh =>
      have hcalls : NotDoomed c'.toCell ↔
          (c'.active = false → ∀ k ∈ l.cell.calls, unchecked k = false) := by
        unfold NotDoomed
        rw [hh.calls]
      show NotDoomed c'.toCell ↔ _
      rw [hcalls]
      by_cases he : e = .completion .newConnection
      · subst he
        have hnone : ∀ k ∈ l.cell.calls, unchecked k = false := by
          rw [(hl.idle hi).1.calls]
          intro k hk
          cases hk
        exact iff_of_true (fun _ => hnone) (fun _ => hnone)
      rcases ha : l.cell.active with _ | _
      · exact iff_of_true (fun _ => h ha) (fun _ => h ha)
      · exact imp_congr_left (handled_ends_iff hl hi he ha hh)

end AsyncGrpc.Single.Calls
