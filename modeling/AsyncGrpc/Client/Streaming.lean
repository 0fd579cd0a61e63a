import AsyncGrpc.Lib.Histories
import AsyncGrpc.Model.AsyncClient

/-! # What an `AsyncClient` tells its callback

An `AsyncClient<SERVER_STREAMING>` goes through few stages (`Stage`): it is started, it reads, it
finishes, and between the operations it may be in the callback. From the stages follow the order of
the callbacks (`callbacks_of_streaming`) and which status the last one gets
(`terminal_status_iff`). -/

namespace AsyncGrpc.Client.Streaming

open AsyncGrpc.Lib.Runs AsyncGrpc.Lib.Histories AsyncGrpc.Model.Types
open AsyncGrpc.Model.AsyncClient AsyncGrpc.Model.AsyncClient.Streaming

variable {ρ : Type} {c c' : Client ρ} {e : ClientEvent} {p : Position} {o : Option ClientEvent}
  {cb ok : Bool} {t : List (Status × Option ρ)} {st : Status} {m : ρ}

/-! ### What the history shows -/

/-- The entry is a callback. -/
def callbackAct : ClientAct ρ → Option (Status × Option ρ)
  | .callback status response => some (status, response)
  | _ => none

/-- The callbacks made, in their order; one without response is the last word on the call. -/
def callbacks (h : List (ClientAct ρ)) : List (Status × Option ρ) := h.filterMap callbackAct

/-- The entry is a `Read` that succeeded. -/
def receivedAct : ClientAct ρ → Option ρ
  | .complete .read true response _ => some response
  | _ => none

/-- The responses that gRPC has stored, in their order. -/
def received (h : List (ClientAct ρ)) : List ρ := h.filterMap receivedAct

/-- The entry is the return of a callback. -/
def returnedAct : ClientAct ρ → Option Unit
  | .returned => some ()
  | _ => none

/-- How many callbacks have returned. -/
def returns (h : List (ClientAct ρ)) : ℕ := (h.filterMap returnedAct).length

/-- The entry is the end of the call. -/
def finishedAct : ClientAct ρ → Option Status
  | .complete .finish _ _ status => some status
  | _ => none

/-- The statuses with which `FINISH` was delivered. -/
def finished (h : List (ClientAct ρ)) : List Status := h.filterMap finishedAct

/-- `response_` is given to a `Read` only when all callbacks have returned. -/
def ResponsePassed (pre : List (ClientAct ρ)) (a : ClientAct ρ) : Prop :=
  a = .start .read → (callbacks pre).length = returns pre

section Snoc
variable (h : List (ClientAct ρ)) (a : ClientAct ρ)

theorem filterMap_snoc {β : Type} (g : ClientAct ρ → Option β) :
    (h ++ [a]).filterMap g = h.filterMap g ++ (g a).toList := by
  rw [List.filterMap_append]
  cases hg : g a <;> simp [hg]

@[simp] theorem callbacks_snoc : callbacks (h ++ [a]) = callbacks h ++ (callbackAct a).toList :=
  filterMap_snoc h a callbackAct

@[simp] theorem received_snoc : received (h ++ [a]) = received h ++ (receivedAct a).toList :=
  filterMap_snoc h a receivedAct

@[simp] theorem returns_snoc : returns (h ++ [a]) = returns h + (returnedAct a).toList.length := by
  unfold returns
  rw [filterMap_snoc, List.length_append]

@[simp] theorem finished_snoc : finished (h ++ [a]) = finished h ++ (finishedAct a).toList :=
  filterMap_snoc h a finishedAct

end Snoc

/-- Every response was passed on with `OK`, followed by the callbacks `t` without one; a callback is
under way or not; `fin` are the statuses of `FINISH`; and `response_` was respected. -/
structure Told (h : List (ClientAct ρ)) (inside : Bool) (t : List (Status × Option ρ))
    (fin : List Status) : Prop where
  passed : callbacks h = (received h).map (fun m => (.OK, some m)) ++ t
  balanced : (callbacks h).length = returns h + if inside then 1 else 0
  ended : finished h = fin
  orderly : Orderly ResponsePassed h

section Told
variable {h : List (ClientAct ρ)} {inside : Bool} {fin : List Status}

theorem told_nil : Told ([] : List (ClientAct ρ)) false [] [] :=
  ⟨rfl, rfl, rfl, orderly_nil _⟩

theorem Told.start (ht : Told h false t fin) (e : ClientEvent) :
    Told (h ++ [.start e]) false t fin :=
  ⟨by simpa [callbackAct, receivedAct] using ht.passed,
    by simpa [callbackAct, returnedAct] using ht.balanced,
    by simpa [finishedAct] using ht.ended,
    orderly_snoc.mpr ⟨ht.orderly, fun _ => ht.balanced⟩⟩

/-- A tag comes that brings no response and does not end the call. -/
theorem Told.complete (ht : Told h inside t fin) (hread : e = .read → ok = false)
    (hfinish : e ≠ .finish) : Told (h ++ [.complete e ok m st]) inside t fin := by
  have hr : receivedAct (.complete e ok m st) = none := by
    cases e <;> cases ok <;> simp_all [receivedAct]
  have hf : finishedAct (.complete e ok m st) = none := by cases e <;> simp_all [finishedAct]
  exact ⟨by simpa [callbackAct, hr] using ht.passed,
    by simpa [callbackAct, returnedAct] using ht.balanced, by simpa [hf] using ht.ended,
    orderly_snoc.mpr ⟨ht.orderly, fun h => by cases h⟩⟩

theorem Told.finish (ht : Told h inside t fin) :
    Told (h ++ [.complete .finish ok m st]) inside t (fin ++ [st]) :=
  ⟨by simpa [callbackAct, receivedAct] using ht.passed,
    by simpa [callbackAct, returnedAct] using ht.balanced,
    by simpa [finishedAct] using ht.ended,
    orderly_snoc.mpr ⟨ht.orderly, fun h => by cases h⟩⟩

/-- A response comes and is passed on. -/
theorem Told.pass (ht : Told h false [] fin) :
    Told (h ++ [.complete .read true m st] ++ [.callback .OK (some m)]) true [] fin := by
  refine ⟨?_, ?_, ?_,
    orderly_snoc.mpr ⟨orderly_snoc.mpr ⟨ht.orderly, fun h => by cases h⟩, fun h => by cases h⟩⟩
  · rw [callbacks_snoc, callbacks_snoc, received_snoc, received_snoc, ht.passed]
    simp [callbackAct, receivedAct]
  · rw [callbacks_snoc, callbacks_snoc, returns_snoc, returns_snoc]
    simpa [callbackAct, returnedAct] using ht.balanced
  · rw [finished_snoc, finished_snoc]
    simpa [finishedAct] using ht.ended

/-- The last callback is made. -/
theorem Told.last (ht : Told h false [] fin) :
    Told (h ++ [.callback st none]) true [(st, none)] fin := by
  refine ⟨?_, ?_, ?_, orderly_snoc.mpr ⟨ht.orderly, fun h => by cases h⟩⟩
  · simp [callbackAct, receivedAct, ht.passed]
  · simpa [callbackAct, returnedAct] using ht.balanced
  · simpa [finishedAct] using ht.ended

theorem Told.returned (ht : Told h true t fin) : Told (h ++ [.returned]) false t fin :=
  ⟨by simpa [callbackAct, receivedAct] using ht.passed,
    by simpa [callbackAct, returnedAct] using ht.balanced,
    by simpa [finishedAct] using ht.ended,
    orderly_snoc.mpr ⟨ht.orderly, fun h => by cases h⟩⟩

end Told

/-! ### Stages -/

/-- The operations that gRPC holds when the one for `o` is outstanding. -/
def holding (o : Option ClientEvent) (e : ClientEvent) : ℕ := if o = some e then 1 else 0

theorem holding_start (e : ClientEvent) :
    Function.update (holding none) e (holding none e + 1) = holding (some e) := by
  funext e'
  by_cases h : e' = e
  · subst h
    simp [holding]
  · simp [holding, Function.update_of_ne h, Ne.symm h]

theorem holding_complete (e : ClientEvent) :
    Function.update (holding (some e)) e (holding (some e) e - 1) = holding none := by
  funext e'
  by_cases h : e' = e
  · subst h
    simp [holding]
  · simp [holding, Function.update_of_ne h, Ne.symm h]

theorem holding_pos {o : Option ClientEvent} (h : 0 < holding o e) : o = some e := by
  unfold holding at h
  split_ifs at h with ho
  · exact ho
  · omega

theorem holding_le (o : Option ClientEvent) :
    holding o .write + holding o .read + holding o .finish ≤ 1 := by
  rcases o with _ | ⟨_ | _ | _⟩ <;> decide

/-- The client stands at `p`, with the operation `o` outstanding and `callback_` set or not. -/
structure At (c : Client ρ) (p : Position) (o : Option ClientEvent) (cb : Bool) : Prop where
  reader : c.responseReader = true
  position : c.position = p
  ops : c.ops = holding o
  callback : c.callback = cb

/-- The status of the last callback, once `FINISH` was delivered. -/
def lastStatus (c : Client ρ) : Status := if c.ok .finish then .OK else finishFailed

/-- Where a streaming client stands. -/
inductive Stage (c : Client ρ) : Prop
  | starting (h : At c .idle (some .write) true) (ht : Told c.history false [] [])
  | refusing (h : At c (.inCallback .write) none true) (hw : c.ok .write = false)
      (ht : Told c.history true [(writeFailed, none)] [])
  | refused (h : At c .idle (some .finish) false) (hw : c.ok .write = false)
      (ht : Told c.history false [(writeFailed, none)] [])
  | reading (h : At c .idle (some .read) true) (ht : Told c.history false [] [])
  | passing (h : At c (.inCallback .read) none true) (hr : c.ok .read = true)
      (ht : Told c.history true [] [])
  | finishing (h : At c .idle (some .finish) true) (ht : Told c.history false [] [])
  | ending (h : At c (.inCallback .finish) none true)
      (ht : Told c.history true [(lastStatus c, none)] [c.finishStatus])
  | ended {st : Status} (h : At c .idle none false)
      (hst : c.ok .write = false ∨ st = lastStatus c)
      (ht : Told c.history false [(st, none)] [c.finishStatus])

section Effects

theorem At.start (h : At c p none cb) (e : ClientEvent) : At (startOp e c) p (some e) cb :=
  ⟨h.reader, h.position, by rw [← holding_start, ← h.ops]; rfl, h.callback⟩

theorem At.complete (h : At c p (some e) cb) (ok : Bool) (m : ρ) (st : Status) :
    At (complete e ok m st c) p none cb :=
  ⟨h.reader, h.position, by rw [← holding_complete, ← h.ops]; rfl, h.callback⟩

theorem At.invoke (h : At c p o cb) (e : ClientEvent) (st : Status) (r : Option ρ) :
    At (invoke e st r c) (.inCallback e) o cb :=
  ⟨h.reader, rfl, h.ops, h.callback⟩

theorem read_eq (h : At c p o cb) : read c = .ok (startOp .read c) := if_pos h.reader

theorem finish_eq (h : At c p o cb) :
    finish st c = .ok (startOp .finish { c with finishStatus := st }) := if_pos h.reader

end Effects

/-- A tag comes out of the completion queue. -/
theorem stage_complete (h : Stage c) (hpos : c.position = .idle) (hop : 0 < c.ops e) (ok : Bool)
    (m : ρ) (st : Status) :
    ∃ c', handleEvent e (store e ok m st (complete e ok m st c)) = .ok c' ∧ Stage c' ∧
      c'.ok = Function.update c.ok e ok := by
  cases h with
  | starting h ht =>
    rw [h.ops] at hop
    cases holding_pos hop
    have hat := h.complete ok m st
    have htold : Told (complete .write ok m st c).history false [] [] :=
      ht.complete (by simp) (by simp)
    cases ok with
    | true => exact ⟨_, read_eq hat, .reading (hat.start _) (htold.start _), rfl⟩
    | false =>
      exact ⟨_, if_pos hat.callback, .refusing (hat.invoke _ _ _) rfl htold.last, rfl⟩
  | reading h ht =>
    rw [h.ops] at hop
    cases holding_pos hop
    have hat := h.complete ok m st
    cases ok with
    | true =>
      have hpass : At { complete .read true m st c with response := m } .idle none true :=
        ⟨hat.reader, hat.position, hat.ops, hat.callback⟩
      exact ⟨_, if_pos hat.callback, .passing (hpass.invoke _ _ _) rfl ht.pass, rfl⟩
    | false =>
      have hfin : At { complete .read false m st c with finishStatus := .OK } .idle none true :=
        ⟨hat.reader, hat.position, hat.ops, hat.callback⟩
      have htold : Told (complete .read false m st c).history false [] [] :=
        ht.complete (by simp) (by simp)
      exact ⟨_, finish_eq hat, .finishing (hfin.start _) (htold.start _), rfl⟩
  | refused h hw ht =>
    rw [h.ops] at hop
    cases holding_pos hop
    have hat := h.complete ok m st
    refine ⟨_, congrArg Except.ok (if_neg (Bool.eq_false_iff.mp hat.callback)),
      .ended ⟨hat.reader, hat.position, hat.ops, hat.callback⟩ (Or.inl hw) ht.finish, rfl⟩
  | finishing h ht =>
    rw [h.ops] at hop
    cases holding_pos hop
    have hat := h.complete ok m st
    have hfin : At { complete .finish ok m st c with finishStatus := st } .idle none true :=
      ⟨hat.reader, hat.position, hat.ops, hat.callback⟩
    have htold : Told (complete .finish ok m st c).history false [] [st] := ht.finish
    exact ⟨_, congrArg Except.ok (if_pos hat.callback), .ending (hfin.invoke _ _ _) htold.last, rfl⟩
  | ended h =>
    rw [h.ops] at hop
    cases holding_pos hop
  | refusing h => cases h.position.symm.trans hpos
  | passing h => cases h.position.symm.trans hpos
  | ending h => cases h.position.symm.trans hpos

/-- The callback returns. -/
theorem stage_callbackReturns (h : Stage c) (hpos : c.position = .inCallback e) :
    ∃ c', afterCallback e { c with position := .idle, history := c.history ++ [.returned] } =
      .ok c' ∧ Stage c' ∧ c'.ok = c.ok := by
  cases h with
  | refusing h hw ht =>
    cases h.position.symm.trans hpos
    have hat : At { c with
        callback := false, finishStatus := writeFailed, position := .idle,
        history := c.history ++ [.returned] } .idle none false := ⟨h.reader, rfl, h.ops, rfl⟩
    exact ⟨_, if_pos h.reader, .refused (hat.start _) hw (ht.returned.start _), rfl⟩
  | passing h hr ht =>
    cases h.position.symm.trans hpos
    have hat : At { c with position := .idle, history := c.history ++ [.returned] } .idle none true :=
      ⟨h.reader, rfl, h.ops, h.callback⟩
    refine ⟨_, ?_, .reading (hat.start _) (ht.returned.start _), rfl⟩
    simp only [afterCallback, hr, if_true]
    exact read_eq hat
  | ending h ht =>
    cases h.position.symm.trans hpos
    exact ⟨_, rfl, .ended ⟨h.reader, rfl, h.ops, rfl⟩ (Or.inr rfl) ht.returned, rfl⟩
  | starting h => cases h.position.symm.trans hpos
  | refused h => cases h.position.symm.trans hpos
  | reading h => cases h.position.symm.trans hpos
  | finishing h => cases h.position.symm.trans hpos
  | ended h => cases h.position.symm.trans hpos

/-! ### Runs -/

section Runs
variable [Inhabited ρ] {a : ClientAction ρ} {as : List (ClientAction ρ)}

/-- What a step stores in the events. -/
def storesOk (f : ClientEvent → Bool) : ClientAction ρ → ClientEvent → Bool
  | .complete event ok _ _ => Function.update f event ok
  | .callbackReturns => f

/-- **Every step leads from a stage to a stage**, and none aborts. -/
theorem stage_step {r : Except ClientFatal (Client ρ)} (h : Stage c)
    (hs : (streaming ρ true).step c a = some r) :
    ∃ c', r = .ok c' ∧ Stage c' ∧ c'.ok = storesOk c.ok a := by
  replace hs : step store handleEvent afterCallback c a = some r := hs
  cases a with
  | complete e ok m st =>
    unfold step at hs
    dsimp only at hs
    split_ifs at hs with hcond
    obtain ⟨c', h1, h2⟩ := stage_complete h hcond.1 hcond.2 ok m st
    exact ⟨c', (Option.some.inj hs).symm.trans h1, h2⟩
  | callbackReturns =>
    unfold step at hs
    dsimp only at hs
    split at hs
    · next e hpos =>
      obtain ⟨c', h1, h2⟩ := stage_callbackReturns h hpos
      exact ⟨c', (Option.some.inj hs).symm.trans h1, h2⟩
    · cases hs

theorem stage_init : Stage (streaming ρ true).init := by
  have hat : At ({ Client.construct true with responseReader := true } : Client ρ) .idle none true :=
    ⟨rfl, rfl, rfl, rfl⟩
  exact .starting (hat.start _) (told_nil.start _)

theorem stage_of_reachable (hs : Reachable (streaming ρ true) c) : Stage c := by
  refine inv_of_reachable stage_init (fun c a c' h hstep => ?_) hs
  obtain ⟨c1, h1, h2, -⟩ := stage_step h hstep
  cases h1
  exact h2

/-- **A streaming client calls back in order.** At most one operation is outstanding. Every response
that was read has been passed on with `OK`, once and in order, followed by at most one callback without
a response; there is one when `FINISH` was handled. `response_` is not given to a `Read` before the
callback for it has returned. No step reaches a fatal branch. -/
theorem callbacks_of_streaming (hs : Reachable (streaming ρ true) c) :
    c.ops .write + c.ops .read + c.ops .finish ≤ 1 ∧
      (∃ t, callbacks c.history = (received c.history).map (fun m => (.OK, some m)) ++ t ∧
        (t = [] ∨ ∃ st, t = [(st, none)]) ∧ (finished c.history ≠ [] → ∃ st, t = [(st, none)])) ∧
      Orderly ResponsePassed c.history ∧
      ∀ a f, ¬ (streaming ρ true).Aborts c a f := by
  have hstage := stage_of_reachable hs
  have hops : ∃ o, c.ops = holding o := by cases hstage <;> exact ⟨_, At.ops ‹_›⟩
  have htold : ∃ inside t fin, Told c.history inside t fin ∧ (t = [] ∨ ∃ st, t = [(st, none)]) ∧
      (fin ≠ [] → ∃ st, t = [(st, none)]) := by
    cases hstage with
    | starting _ ht => exact ⟨_, _, _, ht, Or.inl rfl, by simp⟩
    | refusing _ _ ht => exact ⟨_, _, _, ht, Or.inr ⟨_, rfl⟩, by simp⟩
    | refused _ _ ht => exact ⟨_, _, _, ht, Or.inr ⟨_, rfl⟩, by simp⟩
    | reading _ ht => exact ⟨_, _, _, ht, Or.inl rfl, by simp⟩
    | passing _ _ ht => exact ⟨_, _, _, ht, Or.inl rfl, by simp⟩
    | finishing _ ht => exact ⟨_, _, _, ht, Or.inl rfl, by simp⟩
    | ending _ ht => exact ⟨_, _, _, ht, Or.inr ⟨_, rfl⟩, fun _ => ⟨_, rfl⟩⟩
    | ended _ _ ht => exact ⟨_, _, _, ht, Or.inr ⟨_, rfl⟩, fun _ => ⟨_, rfl⟩⟩
  obtain ⟨o, ho⟩ := hops
  obtain ⟨inside, t, fin, ht, hlast, hfin⟩ := htold
  refine ⟨?_, ⟨t, ht.passed, hlast, ?_⟩, ht.orderly, fun a f ha => ?_⟩
  · rw [ho]
    exact holding_le o
  · rw [ht.ended]
    exact hfin
  · obtain ⟨c', h1, -⟩ := stage_step hstage ha
    cases h1

/-- Two responses, and the end of the stream. -/
theorem callbacks_of_streaming_two : ∃ c : Client ℕ, Reachable (streaming ℕ true) c ∧
    received c.history = [1, 2] ∧ ∃ st, callbacks c.history =
      [(.OK, some 1), (.OK, some 2), (st, none)] := by
  obtain ⟨c, hr, hp⟩ := exists_run (streaming ℕ true)
    [.complete .write true 0 .OK, .complete .read true 1 .OK, .callbackReturns,
      .complete .read true 2 .OK, .callbackReturns, .complete .read false 0 .OK,
      .complete .finish true 0 .OK]
    (fun c : Client ℕ => decide (received c.history = [1, 2] ∧ finished c.history ≠ [])) (by decide)
  rw [decide_eq_true_eq] at hp
  obtain ⟨-, ⟨t, hcb, -, hlast⟩, -⟩ := callbacks_of_streaming hr.reachable
  obtain ⟨st, rfl⟩ := hlast hp.2
  exact ⟨c, hr.reachable, hp.1, st, by rw [hcb, hp.1]; rfl⟩

/-! ### The status of the call -/

/-- The call can be started. -/
def StartSucceeds : ClientAction ρ → Prop
  | .complete .write ok _ _ => ok = true
  | _ => True

/-- The tag of `Finish` comes with `ok`. -/
def FinishDelivered : ClientAction ρ → Prop
  | .complete .finish ok _ _ => ok = true
  | _ => True

/-- The status that gRPC stores with `Finish` is `Status()`. -/
def FinishesOk : ClientAction ρ → Prop
  | .complete .finish _ _ status => status = .OK
  | _ => True

/-- The last callback is given what gRPC stored in `finish_status_`. -/
def StatusPassedOn (c : Client ρ) : Prop :=
  ∀ st, (st, none) ∈ callbacks c.history → st = c.finishStatus

/-- The status that comes with a step. -/
def finishOf : ClientAction ρ → Option Status
  | .complete .finish _ _ status => some status
  | _ => none

omit [Inhabited ρ] in
theorem finished_read (h : read c = .ok c') : finished c'.history = finished c.history := by
  unfold Streaming.read at h
  split_ifs at h
  cases h
  simp [startOp, finishedAct]

omit [Inhabited ρ] in
theorem finished_finish (h : finish st c = .ok c') : finished c'.history = finished c.history := by
  unfold finish at h
  split_ifs at h
  cases h
  simp [startOp, finishedAct]

omit [Inhabited ρ] in
theorem finished_invoke (e : ClientEvent) (st : Status) (r : Option ρ) (c : Client ρ) :
    finished (invoke e st r c).history = finished c.history := by
  simp [invoke, finishedAct]

omit [Inhabited ρ] in
theorem finished_handleEvent (h : handleEvent e c = .ok c') :
    finished c'.history = finished c.history := by
  cases e with
  | write =>
    replace h : handleWriteEvent c = .ok c' := h
    unfold handleWriteEvent at h
    split_ifs at h
    · exact finished_read h
    · cases h
      exact finished_invoke _ _ _ _
    · exact finished_finish h
  | read =>
    replace h : handleReadEvent c = .ok c' := h
    unfold handleReadEvent at h
    split_ifs at h
    · cases h
      exact finished_invoke _ _ _ _
    · exact finished_read h
    · exact finished_finish h
  | finish =>
    cases h
    unfold handleFinishEvent
    by_cases hcb : c.callback = true
    · rw [if_pos hcb, finished_invoke]
    · rw [if_neg hcb]

omit [Inhabited ρ] in
theorem finished_afterCallback (h : afterCallback e c = .ok c') :
    finished c'.history = finished c.history := by
  cases e with
  | write => exact finished_finish (c := { c with callback := false }) h
  | read =>
    refine (finished_read h).trans ?_
    split_ifs <;> rfl
  | finish => cases h; rfl

/-- Only the tag of `Finish` ends the call. -/
theorem finished_step (hs : (streaming ρ true).Step c a c') :
    finished c'.history = finished c.history ++ (finishOf a).toList := by
  replace hs : step store handleEvent afterCallback c a = some (.ok c') := hs
  unfold step at hs
  cases a with
  | complete e ok m st =>
    dsimp only at hs
    split_ifs at hs
    rw [finished_handleEvent (Option.some.inj hs)]
    cases e with
    | read => cases ok <;> simp [store, complete, finishedAct, finishOf]
    | _ => simp [store, complete, finishedAct, finishOf]
  | callbackReturns =>
    dsimp only at hs
    split at hs
    · rw [finished_afterCallback (Option.some.inj hs)]
      simp [finishedAct, finishOf]
    · cases hs

/-- When a step can be taken. -/
theorem enabled_of_step (hs : (streaming ρ true).Step c a c') :
    (∃ e ok m st, a = .complete e ok m st ∧ c.position = .idle ∧ 0 < c.ops e) ∨
      a = .callbackReturns ∧ c.position ≠ .idle := by
  replace hs : step store handleEvent afterCallback c a = some (.ok c') := hs
  unfold step at hs
  cases a with
  | complete e ok m st =>
    dsimp only at hs
    split_ifs at hs with hcond
    exact Or.inl ⟨e, ok, m, st, rfl, hcond⟩
  | callbackReturns =>
    dsimp only at hs
    split at hs
    · next e hpos => exact Or.inr ⟨rfl, by simp [hpos]⟩
    · cases hs

/-- What is known of a call that was started and whose `FINISH`, if it came, came with `ok`. -/
structure Delivered (c : Client ρ) : Prop where
  started : c.ok .write = true ∨ c.position = .idle ∧ c.ops = holding (some .write)
  finished : finished c.history ≠ [] → c.ok .finish = true

theorem delivered_step (h : Delivered c) (hstage : Stage c) (hs : (streaming ρ true).Step c a c')
    (hstart : StartSucceeds a) (hfin : FinishDelivered a) : Delivered c' := by
  obtain ⟨_, hc', -, hok⟩ := stage_step hstage hs
  cases hc'
  have hold : finishOf a = none → finished c'.history ≠ [] → c.ok .finish = true := by
    intro ha hne
    rw [finished_step hs, ha, Option.toList_none, List.append_nil] at hne
    exact h.finished hne
  rcases enabled_of_step hs with ⟨e, ok, m, st, rfl, -, hop⟩ | ⟨rfl, hpos⟩
  · have hw : e ≠ .write → c.ok .write = true := by
      refine fun hne => h.started.resolve_right fun hidle => hne ?_
      rw [hidle.2] at hop
      exact (Option.some.inj (holding_pos hop)).symm
    rw [storesOk] at hok
    cases e with
    | write => exact ⟨Or.inl (by rw [hok]; exact hstart), fun hne => by rw [hok]; exact hold rfl hne⟩
    | read =>
      exact ⟨Or.inl (by rw [hok]; exact hw (by simp)), fun hne => by rw [hok]; exact hold rfl hne⟩
    | finish => exact ⟨Or.inl (by rw [hok]; exact hw (by simp)), fun _ => by rw [hok]; exact hfin⟩
  · have hw : c.ok .write = true := h.started.resolve_right fun hidle => hpos hidle.1
    exact ⟨Or.inl (by rw [hok]; exact hw), fun hne => by rw [hok]; exact hold rfl hne⟩

theorem delivered_of_run (hr : Run (streaming ρ true) as c)
    (hstart : Along (streaming ρ true) (fun _ => StartSucceeds) as)
    (hfin : Along (streaming ρ true) (fun _ => FinishDelivered) as) : Delivered c := by
  induction hr with
  | init =>
    refine ⟨Or.inr ⟨rfl, holding_start _⟩, fun hne => ?_⟩
    exact absurd (told_nil.start (ρ := ρ) .write).ended hne
  | @step as c c' a hr hs ih =>
    obtain ⟨hstart, hstart'⟩ := (along_snoc hr).mp hstart
    obtain ⟨hfin, hfin'⟩ := (along_snoc hr).mp hfin
    exact delivered_step (ih hstart hfin) (stage_of_reachable hr.reachable) hs hstart' hfin'

/-- The condition on the steps, read off the history. -/
theorem along_finishesOk (hr : Run (streaming ρ true) as c) :
    Along (streaming ρ true) (fun _ => FinishesOk) as ↔ ∀ st ∈ finished c.history, st = .OK := by
  refine along_iff (G := fun c : Client ρ => ∀ st ∈ finished c.history, st = .OK) ?_ ?_ ?_ hr
  · intro st hst
    rw [show finished (streaming ρ true).init.history = [] from
      (told_nil.start (ρ := ρ) .write).ended] at hst
    cases hst
  · intro c a c' _ hs h st hst
    exact h st (by rw [finished_step hs]; exact List.mem_append_left _ hst)
  · intro c a c' _ h hs
    rw [finished_step hs]
    cases a with
    | complete e ok m st =>
      cases e with
      | finish =>
        simp only [finishOf, Option.toList_some, List.mem_append, List.mem_singleton, FinishesOk]
        constructor
        · intro h'
          exact h' st (Or.inr rfl)
        · rintro rfl st (hst | rfl)
          · exact h st hst
          · rfl
      | _ => simpa [finishOf, FinishesOk] using h
    | callbackReturns => simpa [finishOf, FinishesOk] using h

/-- **The last callback gets the status of the call exactly when that is `OK`.** When the call could
be started and the tag of `Finish` comes with `ok`, the callback is given `Status()` whatever gRPC
stored in `finish_status_`. -/
theorem terminal_status_iff (hr : Run (streaming ρ true) as c)
    (hstart : Along (streaming ρ true) (fun _ => StartSucceeds) as)
    (hfin : Along (streaming ρ true) (fun _ => FinishDelivered) as) :
    Along (streaming ρ true) (fun _ => FinishesOk) as ↔ StatusPassedOn c := by
  have hdel := delivered_of_run hr hstart hfin
  rw [along_finishesOk hr]
  have hmem : ∀ {inside : Bool} {t : List (Status × Option ρ)} {fin : List Status},
      Told c.history inside t fin → ∀ st, (st, none) ∈ callbacks c.history ↔ (st, none) ∈ t := by
    intro inside t fin ht st
    rw [ht.passed, List.mem_append]
    simp
  have hnone : ∀ {inside : Bool}, Told c.history inside [] [] →
      ((∀ st ∈ finished c.history, st = .OK) ↔ StatusPassedOn c) := by
    intro inside ht
    refine ⟨fun _ st hst => ?_, fun _ st hst => ?_⟩
    · cases (hmem ht st).mp hst
    · rw [ht.ended] at hst
      cases hst
  have hlast : ∀ {inside : Bool}, Told c.history inside [(lastStatus c, none)] [c.finishStatus] →
      ((∀ st ∈ finished c.history, st = .OK) ↔ StatusPassedOn c) := by
    intro inside ht
    have hok : lastStatus c = .OK := if_pos (hdel.finished (by rw [ht.ended]; simp))
    unfold StatusPassedOn
    simp only [hmem ht, ht.ended, hok, List.mem_singleton, Prod.mk.injEq, and_true, forall_eq]
    exact eq_comm
  have hstarted : c.ok .write = false → c.ops = holding (some .write) := by
    intro hw
    rcases hdel.started with h | h
    · cases hw.symm.trans h
    · exact h.2
  cases stage_of_reachable hr.reachable with
  | starting _ ht => exact hnone ht
  | refusing h hw => cases congrFun (h.ops.symm.trans (hstarted hw)) .write
  | refused h hw => cases congrFun (h.ops.symm.trans (hstarted hw)) .write
  | reading _ ht => exact hnone ht
  | passing _ _ ht => exact hnone ht
  | finishing _ ht => exact hnone ht
  | ending _ ht => exact hlast ht
  | ended h hst ht =>
    rcases hst with hw | rfl
    · cases congrFun (h.ops.symm.trans (hstarted hw)) .write
    · exact hlast ht

/-- One response, and a call that ends with `OK`. -/
theorem terminal_status_iff_ok : ∃ (as : List (ClientAction ℕ)) (c : Client ℕ),
    Run (streaming ℕ true) as c ∧ callbacks c.history = [(.OK, some 1), (.OK, none)] ∧
      StatusPassedOn c := by
  obtain ⟨c, hr, hp⟩ := exists_run (streaming ℕ true)
    [.complete .write true 0 .OK, .complete .read true 1 .OK, .callbackReturns,
      .complete .read false 0 .OK, .complete .finish true 0 .OK, .callbackReturns]
    (fun c : Client ℕ => decide (callbacks c.history = [(.OK, some 1), (.OK, none)])) (by decide)
  refine ⟨_, c, hr, by simpa using hp, (terminal_status_iff hr ?_ ?_).mp ?_⟩ <;>
    exact along_of_mem (by simp [StartSucceeds, FinishDelivered, FinishesOk])

/-- The server ends the stream with `NOT_FOUND`, and the callback is told `OK`. -/
theorem told_ok_when_not_found : ∃ (as : List (ClientAction ℕ)) (c : Client ℕ),
    Run (streaming ℕ true) as c ∧ Along (streaming ℕ true) (fun _ => StartSucceeds) as ∧
      Along (streaming ℕ true) (fun _ => FinishDelivered) as ∧
      finished c.history = [⟨.notFound, "no such map"⟩] ∧ callbacks c.history = [(.OK, none)] ∧
      ¬ StatusPassedOn c := by
  obtain ⟨c, hr, hp⟩ := exists_run (streaming ℕ true)
    [.complete .write true 0 .OK, .complete .read false 0 .OK,
      .complete .finish true 0 ⟨.notFound, "no such map"⟩, .callbackReturns]
    (fun c : Client ℕ => decide (finished c.history = [⟨.notFound, "no such map"⟩] ∧
      callbacks c.history = [(.OK, none)] ∧ c.finishStatus = ⟨.notFound, "no such map"⟩))
    (by decide)
  rw [decide_eq_true_eq] at hp
  obtain ⟨hfin, hcb, hst⟩ := hp
  refine ⟨_, c, hr, along_of_mem (by simp [StartSucceeds]), along_of_mem (by simp [FinishDelivered]),
    hfin, hcb, fun hpass => ?_⟩
  have hok : Status.OK = c.finishStatus := hpass .OK (by rw [hcb]; simp)
  rw [hst] at hok
  cases hok

/-! ### The unary client -/

/-- What an `AsyncClient<NORMAL_RPC>` passes on. -/
def answer (c : Client ρ) : Status × Option ρ :=
  (c.status, if c.status.errorCode = .ok then some c.response else none)

/-- Where a unary client stands: `FINISH` is outstanding, or its callback was made. -/
inductive UnaryStage (c : Client ρ) : Prop
  | waiting (hp : c.position = .idle) (ho : c.ops = holding (some .finish)) (hcb : c.callback = true)
      (hc : callbacks c.history = []) (hf : finished c.history = [])
  | answered (ho : c.ops = holding none) (hc : callbacks c.history = [answer c])
      (hf : finished c.history = [c.status])

theorem unaryStage_step {r : Except ClientFatal (Client ρ)} (h : UnaryStage c)
    (hs : (unary ρ true).step c a = some r) : ∃ c', r = .ok c' ∧ UnaryStage c' := by
  replace hs : step Unary.store Unary.handleEvent Unary.afterCallback c a = some r := hs
  unfold step at hs
  cases a with
  | complete e ok m st =>
    dsimp only at hs
    split_ifs at hs with hcond
    cases h with
    | answered ho =>
      rw [ho] at hcond
      cases holding_pos hcond.2
    | waiting hp ho hcb hc hf =>
      rw [ho] at hcond
      cases holding_pos hcond.2
      have hops : (complete .finish ok m st c).ops = holding none := by
        rw [← holding_complete, ← ho]
        rfl
      refine ⟨_, (Option.some.inj hs).symm.trans (congrArg Except.ok (if_pos hcb)),
        .answered hops ?_ ?_⟩
      · refine (callbacks_snoc (c.history ++ [.complete .finish ok m st]) _).trans ?_
        rw [callbacks_snoc, hc]
        rfl
      · refine (finished_snoc (c.history ++ [.complete .finish ok m st]) _).trans ?_
        rw [finished_snoc, hf]
        rfl
  | callbackReturns =>
    dsimp only at hs
    split at hs
    · next e hpos =>
      cases h with
      | waiting hp => cases hp.symm.trans hpos
      | answered ho hc hf =>
        refine ⟨_, (Option.some.inj hs).symm, .answered ho ?_ ?_⟩
        · exact (callbacks_snoc _ _).trans ((List.append_nil _).trans hc)
        · exact (finished_snoc _ _).trans ((List.append_nil _).trans hf)
    · cases hs

theorem unaryStage_of_reachable (hs : Reachable (unary ρ true) c) : UnaryStage c := by
  refine inv_of_reachable (.waiting rfl (holding_start _) rfl rfl rfl) (fun c a c' h hstep => ?_) hs
  obtain ⟨c1, h1, h2⟩ := unaryStage_step h hstep
  cases h1
  exact h2

end Runs

end AsyncGrpc.Client.Streaming
