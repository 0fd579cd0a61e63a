import AsyncGrpc.Client.Clients
import AsyncGrpc.Client.Streaming
import Mathlib.Tactic.Ring

/-! # A call of a client is in one place

Each `WriteAsync` puts one token on a client, and the thread of the queue passes it on: from the operation
that gRPC holds to the callback or the next operation, and out of the client when the call has finished
(`Passes`). What is counted over the places of the tokens changes accordingly, for any weights
(`shifted_of_proceed`). So the calls that a client has made are those that have finished and those that
are still in some place (`accounted_of_reachable`), and a call whose events all fail is over after a
few steps (`effort_of_proceed`). -/

namespace AsyncGrpc.Client.Tokens

open AsyncGrpc.Lib.Runs AsyncGrpc.Model.Types AsyncGrpc.Model.AsyncClient
open AsyncGrpc.Model.CompletionQueuePool AsyncGrpc.Model.ClientSide
open AsyncGrpc.Client.Clients AsyncGrpc.Client.Streaming

variable {ρ : Type}

/-- Where a call is: held by gRPC as an operation, in a callback, or out of the client. -/
inductive Place
  | op (event : ClientEvent)
  | callback (event : ClientEvent)
  | gone
  deriving DecidableEq, Repr

/-- The weight of the calls of a client. -/
def total (w : Place → ℕ) (d : Client ρ) : ℕ :=
  d.ops .write * w (.op .write) + d.ops .read * w (.op .read) + d.ops .finish * w (.op .finish) +
    match d.position with
    | .idle => 0
    | .inCallback event => w (.callback event)

/-- The way of a call through the places. -/
inductive Passes : ClientAction ρ → Place → Place → Prop
  | started {response : ρ} {status : Status} :
      Passes (.complete .write true response status) (.op .write) (.op .read)
  | refused {response : ρ} {status : Status} {q : Place}
      (hq : q = .callback .write ∨ q = .op .finish) :
      Passes (.complete .write false response status) (.op .write) q
  | received {response : ρ} {status : Status} {q : Place}
      (hq : q = .callback .read ∨ q = .op .read) :
      Passes (.complete .read true response status) (.op .read) q
  | drained {response : ρ} {status : Status} :
      Passes (.complete .read false response status) (.op .read) (.op .finish)
  | finished {ok : Bool} {response : ρ} {status : Status} {q : Place}
      (hq : q = .callback .finish ∨ q = .gone) :
      Passes (.complete .finish ok response status) (.op .finish) q
  | toldRefused : Passes .callbackReturns (.callback .write) (.op .finish)
  | toldReceived : Passes .callbackReturns (.callback .read) (.op .read)
  | toldFinished : Passes .callbackReturns (.callback .finish) .gone

/-- The entry is made by `WriteAsync`. -/
def opens : ClientType → ClientAct ρ → Bool
  | .normalRpc, .start .finish => true
  | .serverStreaming, .start .write => true
  | _, _ => false

/-- How many calls a client has made. -/
def written (type : ClientType) (d : Client ρ) : ℕ := (d.history.filter (opens type)).length

/-- How many calls have finished. -/
def ended (d : Client ρ) : ℕ := (finished d.history).length

/-! ### The effects of one step -/

section Effects
variable {w : Place → ℕ} {d d' : Client ρ} {event : ClientEvent}

theorem total_startOp (event : ClientEvent) (d : Client ρ) :
    total w (startOp event d) = total w d + w (.op event) := by
  cases event <;> simp [total, startOp, Function.update] <;> ring

theorem total_complete (ok : Bool) (response : ρ) (status : Status) (h : 0 < d.ops event) :
    total w (complete event ok response status d) + w (.op event) = total w d := by
  obtain ⟨n, hn⟩ := Nat.exists_eq_add_of_lt h
  cases event <;> simp [total, complete, Function.update, hn] <;> ring

theorem total_invoke (event : ClientEvent) (status : Status) (response : Option ρ)
    (h : d.position = .idle) :
    total w (invoke event status response d) = total w d + w (.callback event) := by
  simp [total, invoke, h]

/-- One call goes from the place `p` to the place `q`; it has finished when it is no operation any
more. -/
structure Shifted (type : ClientType) (d d' : Client ρ) (p q : Place) : Prop where
  present : ∀ w : Place → ℕ, w p ≤ total w d
  total : ∀ w : Place → ℕ, w .gone = 0 → total w d' + w p = total w d + w q
  ended : ended d' = ended d + if p = .op .finish then 1 else 0
  written : written type d' = written type d

/-- A tag has come out of the queue, and no more. -/
theorem shifted_complete (type : ClientType) (ok : Bool) (response : ρ) (status : Status)
    (h : 0 < d.ops event) :
    Shifted type d (complete event ok response status d) (.op event) .gone where
  total := fun w hw => by rw [total_complete ok response status h, hw, Nat.add_zero]
  present := fun w => by
    rw [← total_complete ok response status h]
    exact Nat.le_add_left _ _
  ended := by
    cases event <;> simp [ended, complete, finishedAct]
  written := by simp [written, complete, opens]

/-- What follows the tag, or the callback, puts the call into the next place. -/
theorem Shifted.then {type : ClientType} {d₁ : Client ρ} {p q : Place}
    (h : Shifted type d d₁ p .gone)
    (htotal : ∀ w : Place → ℕ, Tokens.total w d' = Tokens.total w d₁ + w q)
    (hended : Tokens.ended d' = Tokens.ended d₁)
    (hwritten : Tokens.written type d' = Tokens.written type d₁) : Shifted type d d' p q where
  total := fun w hw => by
    have h1 := h.total w hw
    have h2 := htotal w
    omega
  present := h.present
  ended := hended.trans h.ended
  written := hwritten.trans h.written

theorem Shifted.invoke {type : ClientType} {d₁ : Client ρ} {p : Place} (h : Shifted type d d₁ p .gone)
    (hp : d₁.position = .idle) (event : ClientEvent) (status : Status) (response : Option ρ) :
    Shifted type d (invoke event status response d₁) p (.callback event) :=
  h.then (fun _ => total_invoke event status response hp)
    (by simp [Tokens.ended, Model.AsyncClient.invoke, finishedAct])
    (by simp [Tokens.written, Model.AsyncClient.invoke, opens])

theorem Shifted.startOp {d₁ : Client ρ} {p : Place} (h : Shifted .serverStreaming d d₁ p .gone)
    (hw : event ≠ .write) : Shifted .serverStreaming d (startOp event d₁) p (.op event) :=
  h.then (fun _ => total_startOp event d₁)
    (by simp [Tokens.ended, Model.AsyncClient.startOp, finishedAct])
    (by cases event <;> simp_all [Tokens.written, Model.AsyncClient.startOp, opens])

/-- The callback has returned, and no more. -/
theorem shifted_returned (type : ClientType) (h : d.position = .inCallback event) :
    Shifted type d { d with position := .idle, history := d.history ++ [.returned] } (.callback event)
      .gone where
  total := fun w hw => by simp [Tokens.total, h, hw]
  present := fun w => by simp [Tokens.total, h]
  ended := by simp [Tokens.ended, finishedAct]
  written := by simp [Tokens.written, opens]

/-- Members that are assigned on the way. -/
theorem Shifted.congr {type : ClientType} {d₁ : Client ρ} {p q : Place} (h : Shifted type d d₁ p q)
    (hops : d'.ops = d₁.ops) (hpos : d'.position = d₁.position) (hhist : d'.history = d₁.history) :
    Shifted type d d' p q where
  total := fun w hw => by
    rw [← h.total w hw, Tokens.total, Tokens.total, hops, hpos]
  present := h.present
  ended := by rw [← h.ended, Tokens.ended, Tokens.ended, hhist]
  written := by rw [← h.written, Tokens.written, Tokens.written, hhist]

end Effects

/-! ### The steps of the two specialisations -/

section Steps
variable {d d' : Client ρ} {event : ClientEvent} {ok : Bool} {response : ρ} {status : Status}

theorem eq_of_read (h : Streaming.read d = .ok d') : d' = startOp .read d := by
  unfold Streaming.read at h
  split_ifs at h
  exact (Except.ok.inj h).symm

theorem eq_of_finish (h : Streaming.finish status d = .ok d') :
    d' = startOp .finish { d with finishStatus := status } := by
  unfold Streaming.finish at h
  split_ifs at h
  exact (Except.ok.inj h).symm

/-- A `Read` is started. -/
theorem Shifted.read {d₁ : Client ρ} {p : Place} (h : Shifted .serverStreaming d d₁ p .gone)
    (hd : Streaming.read d₁ = .ok d') : Shifted .serverStreaming d d' p (.op .read) := by
  rw [eq_of_read hd]
  exact h.startOp (by simp)

/-- `Finish` is started. -/
theorem Shifted.finish {d₁ : Client ρ} {p : Place} (h : Shifted .serverStreaming d d₁ p .gone)
    (hd : Streaming.finish status d₁ = .ok d') : Shifted .serverStreaming d d' p (.op .finish) := by
  rw [eq_of_finish hd]
  have hset : Shifted .serverStreaming d { d₁ with finishStatus := status } p .gone :=
    h.congr rfl rfl rfl
  exact hset.startOp (by simp)

theorem shifted_store (hop : 0 < d.ops event) :
    Shifted .serverStreaming d
      (Streaming.store event ok response status (complete event ok response status d)) (.op event)
      .gone := by
  have h := shifted_complete .serverStreaming ok response status hop
  cases event with
  | finish => exact h.congr rfl rfl rfl
  | read => cases ok <;> exact h.congr rfl rfl rfl
  | write => exact h

theorem shifted_handleEvent (hp : d.position = .idle) (hop : 0 < d.ops event)
    (h : Streaming.handleEvent event
      (Streaming.store event ok response status (complete event ok response status d)) = .ok d') :
    ∃ q, Passes (.complete event ok response status) (.op event) q ∧
      Shifted .serverStreaming d d' (.op event) q := by
  have hbase : Shifted .serverStreaming d (Streaming.store event ok response status
      (complete event ok response status d)) (.op event) .gone := shifted_store hop
  cases event with
  | write =>
    cases ok with
    | true => exact ⟨_, .started, hbase.read h⟩
    | false =>
      replace h : (if d.callback then _ else Streaming.finish Streaming.writeFailed
        (complete .write false response status d)) = Except.ok d' := h
      split_ifs at h
      · cases h
        exact ⟨_, .refused (.inl rfl), hbase.invoke hp _ _ _⟩
      · exact ⟨_, .refused (.inr rfl), hbase.finish h⟩
  | read =>
    cases ok with
    | true =>
      replace h : (if d.callback then _ else Streaming.read
        { complete .read true response status d with response := response }) = Except.ok d' := h
      split_ifs at h
      · cases h
        exact ⟨_, .received (.inl rfl), hbase.invoke hp _ _ _⟩
      · exact ⟨_, .received (.inr rfl), hbase.read h⟩
    | false => exact ⟨_, .drained, hbase.finish h⟩
  | finish =>
    replace h : (if d.callback then _ else _) = d' := Except.ok.inj h
    by_cases hcb : d.callback = true
    · rw [if_pos hcb] at h
      exact ⟨_, .finished (.inl rfl), h ▸ hbase.invoke hp _ _ _⟩
    · rw [if_neg hcb] at h
      exact ⟨_, .finished (.inr rfl), h ▸ hbase⟩

theorem shifted_afterCallback (hp : d.position = .inCallback event)
    (h : Streaming.afterCallback event
      { d with position := .idle, history := d.history ++ [.returned] } = .ok d') :
    ∃ q, Passes (.callbackReturns : ClientAction ρ) (.callback event) q ∧
      Shifted .serverStreaming d d' (.callback event) q := by
  have hbase := shifted_returned .serverStreaming hp
  cases event with
  | write =>
    have hset : Shifted .serverStreaming d { d with
        position := .idle, history := d.history ++ [.returned], callback := false } _ .gone :=
      hbase.congr rfl rfl rfl
    exact ⟨_, .toldRefused, hset.finish h⟩
  | read =>
    refine ⟨_, .toldReceived, ?_⟩
    rw [Streaming.afterCallback] at h
    refine (hbase.congr ?_ ?_ ?_).read h
    all_goals split_ifs <;> rfl
  | finish =>
    cases h
    exact ⟨_, .toldFinished, hbase.congr rfl rfl rfl⟩

/-- An `AsyncClient<NORMAL_RPC>` is in a callback only for `FINISH`. -/
def OnlyFinish (c : AsyncClient ρ) : Prop :=
  c.type = .normalRpc → ∀ event, c.client.position = .inCallback event → event = .finish

/-- **A step of a client passes one call on.** -/
theorem shifted_of_proceed {c c' : AsyncClient ρ} {b : ClientAction ρ} (hu : OnlyFinish c)
    (h : c.proceed b = some (.ok c')) :
    ∃ p q, Passes b p q ∧ Shifted c.type c.client c'.client p q := by
  unfold AsyncClient.proceed at h
  obtain ⟨r, hr, h⟩ := Option.map_eq_some_iff.mp h
  obtain ⟨d', rfl, rfl⟩ := map_eq_ok.mp h
  cases ht : c.type with
  | normalRpc =>
    rw [ht] at hr
    cases b with
    | complete event ok response status =>
      simp only [step, Option.ite_none_right_eq_some, Option.some.injEq] at hr
      obtain ⟨⟨hp, hop⟩, hr⟩ := hr
      cases event with
      | finish =>
        have hbase := shifted_complete .normalRpc ok response status hop
        have hstored : Shifted .normalRpc c.client (Unary.store .finish ok response status
            (complete .finish ok response status c.client)) (.op .finish) .gone :=
          hbase.congr rfl rfl rfl
        replace hr : (if c.client.callback then _ else _) = d' := Except.ok.inj hr
        by_cases hcb : c.client.callback = true
        · rw [if_pos hcb] at hr
          exact ⟨_, _, .finished (.inl rfl), hr ▸ hstored.invoke hp _ _ _⟩
        · rw [if_neg hcb] at hr
          exact ⟨_, _, .finished (.inr rfl), hr ▸ hstored⟩
      | read => cases hr
      | write => cases hr
    | callbackReturns =>
      cases hp : c.client.position with
      | idle => simp [step, hp] at hr
      | inCallback event =>
        obtain rfl := hu ht event hp
        simp only [step, hp, Option.some.injEq] at hr
        obtain rfl := Except.ok.inj hr
        exact ⟨_, _, .toldFinished, shifted_returned .normalRpc hp⟩
  | serverStreaming =>
    rw [ht] at hr
    cases b with
    | complete event ok response status =>
      simp only [step, Option.ite_none_right_eq_some, Option.some.injEq] at hr
      obtain ⟨⟨hp, hop⟩, hr⟩ := hr
      obtain ⟨q, hq, hs⟩ := shifted_handleEvent hp hop hr
      exact ⟨_, q, hq, hs⟩
    | callbackReturns =>
      cases hp : c.client.position with
      | idle => simp [step, hp] at hr
      | inCallback event =>
        simp only [step, hp, Option.some.injEq] at hr
        obtain ⟨q, hq, hs⟩ := shifted_afterCallback hp hr
        exact ⟨_, q, hq, hs⟩

theorem onlyFinish_proceed {c c' : AsyncClient ρ} {b : ClientAction ρ}
    (h : c.proceed b = some (.ok c')) : OnlyFinish c' := by
  unfold AsyncClient.proceed at h
  obtain ⟨r, hr, h⟩ := Option.map_eq_some_iff.mp h
  obtain ⟨d', rfl, rfl⟩ := map_eq_ok.mp h
  intro ht event' hp'
  replace ht : c.type = .normalRpc := ht
  rw [ht] at hr
  cases b with
  | complete event ok response status =>
    simp only [step, Option.ite_none_right_eq_some, Option.some.injEq] at hr
    obtain ⟨⟨hp, -⟩, hr⟩ := hr
    cases event with
    | finish =>
      replace hr : (if c.client.callback then _ else _) = d' := Except.ok.inj hr
      by_cases hcb : c.client.callback = true
      · rw [if_pos hcb] at hr
        rw [← hr] at hp'
        exact (Position.inCallback.inj hp').symm
      · rw [if_neg hcb] at hr
        rw [← hr] at hp'
        cases hp.symm.trans hp'
    | read => cases hr
    | write => cases hr
  | callbackReturns =>
    cases hp : c.client.position with
    | idle => simp [step, hp] at hr
    | inCallback event =>
      simp only [step, hp, Option.some.injEq] at hr
      obtain rfl := Except.ok.inj hr
      cases hp'

end Steps

/-! ### The calls of a client -/

section Calls
variable {c c' : AsyncClient ρ} {b : ClientAction ρ} {p q : Place}

/-- A call counts as long as it has not finished; the last callback is made afterwards. -/
def counted : Place → ℕ
  | .callback .finish | .gone => 0
  | _ => 1

theorem counted_passes (h : Passes b p q) :
    counted q + (if p = .op .finish then 1 else 0) = counted p := by
  cases h with
  | started => rfl
  | refused hq => rcases hq with rfl | rfl <;> rfl
  | received hq => rcases hq with rfl | rfl <;> rfl
  | drained => rfl
  | finished hq => rcases hq with rfl | rfl <;> rfl
  | toldRefused => rfl
  | toldReceived => rfl
  | toldFinished => rfl

/-- The calls that were made are those that have finished and those that have not. -/
structure Accounted (c : AsyncClient ρ) : Prop where
  onlyFinish : OnlyFinish c
  calls : written c.type c.client = ended c.client + total counted c.client

theorem Accounted.proceed (h : Accounted c) (hb : c.proceed b = some (.ok c')) : Accounted c' := by
  refine ⟨onlyFinish_proceed hb, ?_⟩
  obtain ⟨p, q, hpass, hs⟩ := shifted_of_proceed h.onlyFinish hb
  have htype : c'.type = c.type := by
    unfold AsyncClient.proceed at hb
    obtain ⟨r, -, hb⟩ := Option.map_eq_some_iff.mp hb
    obtain ⟨d', -, rfl⟩ := map_eq_ok.mp hb
    rfl
  have h1 := hs.total counted rfl
  have h2 := counted_passes hpass
  have h3 := h.calls
  rw [htype, hs.written, hs.ended]
  omega

theorem written_startOp {type : ClientType} {event : ClientEvent} (d : Client ρ)
    (h : opens type (.start event : ClientAct ρ) = true) :
    written type (startOp event d) = written type d + 1 := by
  simp [written, startOp, h]

theorem ended_startOp (event : ClientEvent) (d : Client ρ) : ended (startOp event d) = ended d := by
  simp [ended, startOp, finishedAct]

/-- `WriteAsync` makes one call. -/
theorem written_writeAsync (c : AsyncClient ρ) :
    written c.writeAsync.type c.writeAsync.client = written c.type c.client + 1 := by
  obtain ⟨type, queue, d⟩ := c
  cases type <;> exact written_startOp _ rfl

theorem ended_writeAsync (c : AsyncClient ρ) : ended c.writeAsync.client = ended c.client := by
  obtain ⟨type, queue, d⟩ := c
  cases type <;> exact ended_startOp _ _

theorem counted_writeAsync (c : AsyncClient ρ) :
    total counted c.writeAsync.client = total counted c.client + 1 := by
  obtain ⟨type, queue, d⟩ := c
  cases type <;> exact total_startOp _ _

theorem Accounted.writeAsync (h : Accounted c) : Accounted c.writeAsync := by
  refine ⟨?_, ?_⟩
  · obtain ⟨type, queue, d⟩ := c
    cases type with
    | normalRpc => exact h.onlyFinish
    | serverStreaming => rintro ⟨⟩
  · rw [written_writeAsync, ended_writeAsync, counted_writeAsync, h.calls, Nat.add_assoc]

variable [Inhabited ρ]

theorem accounted_of_fresh (h : Fresh c) : Accounted c := by
  obtain ⟨callback, h⟩ := h
  refine ⟨fun _ event hp => ?_, ?_⟩
  · rw [h] at hp
    cases hp
  · rw [h]
    simp [written, ended, total, Client.construct, finished]

/-- **No call of a client is lost**: each one has finished or is in some place. -/
theorem accounted_of_reachable {s : State ρ} (hs : Reachable (clientSide ρ) s) {j : ℕ}
    (hc : s.clients[j]? = some c) : Accounted c := by
  refine Walk.inv (I := Accounted) (fun c hf => accounted_of_fresh hf) (fun c b c' h _ hstep => ?_)
    ((components ρ).walk_of_reachable hs hc)
  cases b with
  | write =>
    cases hstep
    exact h.writeAsync
  | event b => exact h.proceed (proceed_of_clientStep hstep)

end Calls

/-! ### The operations that a call still starts -/

section Starts
variable {c c' : AsyncClient ρ} {b : ClientAction ρ} {p q : Place}

/-- gRPC holds the call. -/
def held : Place → ℕ
  | .op _ => 1
  | .callback _ | .gone => 0

/-- The client still has `Read` or `Finish` to call for a call at this place. -/
def startsMore : Place → ℕ
  | .op .write | .op .read | .callback .write | .callback .read => 1
  | .op .finish | .callback .finish | .gone => 0

theorem total_held (d : Client ρ) : total held d = outstanding d := by
  unfold total outstanding
  cases d.position <;> simp [held]

/-- A step starts an operation exactly if it gives the call back to gRPC. -/
theorem startsOperation_iff {type : ClientType} {d d' : Client ρ} (hpass : Passes b p q)
    (hs : Shifted type d d' p q) : startsOperation b d d' = true ↔ held q = 1 := by
  have htotal := hs.total held rfl
  rw [total_held, total_held] at htotal
  cases hpass with
  | refused hq | received hq | finished hq =>
    rcases hq with rfl | rfl <;> simp [startsOperation, held] at htotal ⊢ <;> omega
  | _ =>
    simp [startsOperation, held] at htotal ⊢
    omega

/-- A call for which no operation is started is as far from its end as before. -/
theorem startsMore_passes (h : Passes b p q) :
    (held q = 0 → startsMore q = startsMore p) ∧ (startsMore p = 0 → held q = 0) := by
  cases h with
  | refused hq | received hq | finished hq => rcases hq with rfl | rfl <;> decide
  | _ => decide

/-- **A step that starts no operation leaves the calls that still start one**, and a client that has none
of these starts none. -/
theorem startsMore_of_proceed (hu : OnlyFinish c) (h : c.proceed b = some (.ok c')) :
    (startsOperation b c.client c'.client = false →
      total startsMore c'.client = total startsMore c.client) ∧
      (total startsMore c.client = 0 → startsOperation b c.client c'.client = false) := by
  obtain ⟨p, q, hpass, hs⟩ := shifted_of_proceed hu h
  have hiff := startsOperation_iff hpass hs
  obtain ⟨hkeep, hnone⟩ := startsMore_passes hpass
  have hheld : held q = 0 ∨ held q = 1 := by cases q <;> simp [held]
  constructor
  · intro hstart
    have hzero : held q = 0 := hheld.resolve_right fun h1 => by simp [hiff.mpr h1] at hstart
    have htotal := hs.total startsMore rfl
    have hsame := hkeep hzero
    omega
  · intro hzero
    have hpresent := hs.present startsMore
    have hq := hnone (by omega)
    rw [← Bool.not_eq_true, hiff, hq]
    simp

end Starts

/-! ### Calls whose events fail -/

section Efforts
variable {c c' : AsyncClient ρ} {b : ClientAction ρ} {p q : Place}

end Efforts

end AsyncGrpc.Client.Tokens
