import AsyncGrpc.Model.BlockingClient
import Mathlib.Tactic.Common

/-! # Sessions of the clients that stream

* `called_of_clientStreaming`, `called_of_bidiStreaming`: what a call does; whatever the stream answers to
  a message, `Write` returns true.
* `stream_session_iff`: a session uses one stream, which its first call creates, and its `Write`s tell
  whether the stream accepted their messages exactly if it accepted all of them.
* `server_streaming_session`: a `Client<SERVER_STREAMING>` creates a stream in every `Write`, and its
  other methods end the process before the first one. -/

namespace AsyncGrpc.Client.Sessions

open AsyncGrpc.Lib.Runs AsyncGrpc.Model.Types AsyncGrpc.Model.Retry AsyncGrpc.Model.BlockingClient

variable {κ : Type} {c c' : StreamClient κ} {call : StreamCall κ} {as : List (StreamCall κ)}

/-! ### One call -/

/-- What `Write` returns and stores, whatever the stream answers. -/
def written (wantsStatus : Bool) : StreamReturn :=
  .write true (if wantsStatus then some .OK else none)

/-- The call creates a stream if there is none and returns; `Write` returns `written`. -/
def Called (c : StreamClient κ) (call : StreamCall κ) (c' : StreamClient κ) : Prop :=
  ∃ ret, c' = c.instantiateIfNeeded.record call ret ∧
    ∀ request wantsStatus accepted, call = .write request wantsStatus accepted →
      ret = written wantsStatus

theorem called_of_clientStreaming (h : ClientStreaming.step c call = some (.ok c')) :
    Called c call c' := by
  cases call with
  | write request wantsStatus accepted =>
    obtain rfl := Except.ok.inj (Option.some.inj h)
    refine ⟨written wantsStatus, rfl, ?_⟩
    rintro _ _ _ ⟨⟩
    rfl
  | streamRead ok => cases h
  | streamWritesDone ok =>
    obtain rfl := Except.ok.inj (Option.some.inj h)
    exact ⟨.streamWritesDone ok, rfl, by rintro _ _ _ ⟨⟩⟩
  | streamFinish status =>
    obtain rfl := Except.ok.inj (Option.some.inj h)
    exact ⟨.streamFinish status, rfl, by rintro _ _ _ ⟨⟩⟩

theorem called_of_bidiStreaming (h : BidiStreaming.step c call = some (.ok c')) :
    Called c call c' := by
  cases call with
  | write request wantsStatus accepted =>
    obtain rfl := Except.ok.inj (Option.some.inj h)
    refine ⟨written wantsStatus, rfl, ?_⟩
    rintro _ _ _ ⟨⟩
    rfl
  | streamRead ok =>
    obtain rfl := Except.ok.inj (Option.some.inj h)
    exact ⟨.streamRead ok, rfl, by rintro _ _ _ ⟨⟩⟩
  | streamWritesDone ok =>
    obtain rfl := Except.ok.inj (Option.some.inj h)
    exact ⟨.streamWritesDone ok, rfl, by rintro _ _ _ ⟨⟩⟩
  | streamFinish status =>
    obtain rfl := Except.ok.inj (Option.some.inj h)
    exact ⟨.streamFinish status, rfl, by rintro _ _ _ ⟨⟩⟩

/-! ### Whole sessions -/

/-- The state after the calls `as`. -/
structure After (as : List (StreamCall κ)) (c : StreamClient κ) : Prop where
  calls : c.returns.map Prod.fst = as
  stream : c.stream = !as.isEmpty
  created : c.created = if as.isEmpty then [] else [0]
  writes : ∀ p ∈ c.returns, ∀ request wantsStatus accepted,
    p.1 = .write request wantsStatus accepted → p.2 = written wantsStatus

/-- Only the first call finds no stream. -/
theorem After.instantiateIfNeeded (h : After as c) :
    c.instantiateIfNeeded = { c with stream := true, created := [0] } := by
  obtain ⟨hcalls, hstream, hcreated, -⟩ := h
  cases as with
  | nil =>
    have hnil : c.returns = [] := List.map_eq_nil_iff.mp hcalls
    have hc : c.created = [] := by simpa using hcreated
    have hs : c.stream = false := by simpa using hstream
    simp [StreamClient.instantiateIfNeeded, StreamClient.instantiate, hs, hc, hnil]
  | cons a as =>
    have hc : c.created = [0] := by simpa using hcreated
    have hs : c.stream = true := by simpa using hstream
    cases c
    simp_all [StreamClient.instantiateIfNeeded]

theorem After.snoc (h : After as c) (hc : Called c call c') : After (as ++ [call]) c' := by
  obtain ⟨ret, rfl, hret⟩ := hc
  rw [h.instantiateIfNeeded]
  refine ⟨by simp [StreamClient.record, h.calls], by simp [StreamClient.record],
    by simp [StreamClient.record], fun p hp request wantsStatus accepted hcall => ?_⟩
  rcases List.mem_append.mp hp with hp | hp
  · exact h.writes p hp request wantsStatus accepted hcall
  · obtain rfl := List.mem_singleton.mp hp
    exact hret request wantsStatus accepted hcall

/-- The machine is one of the two clients whose calls create the stream when it is needed. -/
def CreatesIfNeeded (M : Machine (StreamClient κ) (StreamCall κ) StreamFatal) : Prop :=
  M = clientStreaming κ ∨ M = bidiStreaming κ

theorem after_of_run {M : Machine (StreamClient κ) (StreamCall κ) StreamFatal}
    (hM : CreatesIfNeeded M) (h : Run M as c) : After as c := by
  rcases hM with rfl | rfl
  · induction h with
    | init => exact ⟨rfl, rfl, rfl, by simp [clientStreaming, StreamClient.construct]⟩
    | step _ hs ih => exact ih.snoc (called_of_clientStreaming hs)
  · induction h with
    | init => exact ⟨rfl, rfl, rfl, by simp [bidiStreaming, StreamClient.construct]⟩
    | step _ hs ih => exact ih.snoc (called_of_bidiStreaming hs)

/-- `Write` returns true, and stores an OK status if it is asked to, exactly if the stream accepted the
message. -/
def TellsAccepted (p : StreamCall κ × StreamReturn) : Prop :=
  ∀ request wantsStatus accepted result status,
    p = (.write request wantsStatus accepted, .write result status) →
      (result = true ↔ accepted = true) ∧
        (wantsStatus = true → ∃ st, status = some st ∧ (isOk st = true ↔ accepted = true))

/-- One stream, created by the first call, and every `Write` tells whether its message was accepted. -/
def Faithful (c : StreamClient κ) : Prop :=
  c.created = (if c.returns.isEmpty then [] else [0]) ∧ ∀ p ∈ c.returns, TellsAccepted p

theorem tellsAccepted_written {request : κ} {wantsStatus accepted : Bool} :
    TellsAccepted (.write request wantsStatus accepted, written wantsStatus) ↔ accepted = true := by
  constructor
  · intro h
    exact (h request wantsStatus accepted _ _ rfl).1.mp rfl
  · rintro rfl _ _ _ result status heq
    cases heq
    refine ⟨Iff.rfl, fun hwants => ⟨.OK, if_pos hwants, ?_⟩⟩
    exact ⟨fun _ => rfl, fun _ => rfl⟩

theorem After.tellsAccepted_iff (h : After as c) :
    (∀ p ∈ c.returns, TellsAccepted p) ↔
      ∀ request wantsStatus accepted, .write request wantsStatus accepted ∈ as → accepted = true := by
  constructor
  · intro hall request wantsStatus accepted hmem
    rw [← h.calls] at hmem
    obtain ⟨⟨call, ret⟩, hp, rfl⟩ := List.mem_map.mp hmem
    obtain rfl : ret = written wantsStatus := h.writes _ hp _ _ _ rfl
    exact tellsAccepted_written.mp (hall _ hp)
  · rintro hall ⟨call, ret⟩ hp request wantsStatus accepted result status heq
    have hcall : call = .write request wantsStatus accepted := congrArg Prod.fst heq
    obtain rfl : ret = written wantsStatus := h.writes _ hp _ _ _ hcall
    have hmem : StreamCall.write request wantsStatus accepted ∈ as := by
      rw [← h.calls, ← hcall]
      exact List.mem_map_of_mem hp
    subst hcall
    exact tellsAccepted_written.mpr (hall _ _ _ hmem) _ _ _ _ _ heq

/-- A message that the stream does not accept is reported as written. -/
theorem refused_message_reported_written :
    (∃ c : StreamClient ℕ, Run (clientStreaming ℕ) [.write 1 true false] c ∧ ¬ Faithful c) ∧
      ∃ c : StreamClient ℕ, Run (bidiStreaming ℕ) [.write 1 true false] c ∧ ¬ Faithful c := by
  have hnot {M : Machine (StreamClient ℕ) (StreamCall ℕ) StreamFatal} {c : StreamClient ℕ}
      (hM : CreatesIfNeeded M) (h : Run M [.write 1 true false] c) : ¬ Faithful c := by
    rintro ⟨-, hall⟩
    have := (after_of_run hM h).tellsAccepted_iff.mp hall 1 true false (by simp)
    cases this
  have h1 : Run (clientStreaming ℕ) [.write 1 true false] _ := .step .init rfl
  have h2 : Run (bidiStreaming ℕ) [.write 1 true false] _ := .step .init rfl
  exact ⟨⟨_, h1, hnot (.inl rfl) h1⟩, _, h2, hnot (.inr rfl) h2⟩

/-- **What a session tells.** A session of one of the two clients makes the calls that it is asked to, and
creates one stream, in its first call. Its `Write`s return true and store an OK status exactly for the messages that the stream accepted if and
only if the stream accepted all messages. -/
theorem stream_session_iff (M : Machine (StreamClient κ) (StreamCall κ) StreamFatal)
    (hM : CreatesIfNeeded M) (as : List (StreamCall κ)) (c : StreamClient κ) (h : Run M as c) :
    c.returns.map Prod.fst = as ∧ c.created = (if as.isEmpty then [] else [0]) ∧
      (Faithful c ↔ ∀ request wantsStatus accepted,
        .write request wantsStatus accepted ∈ as → accepted = true) := by
  have ha := after_of_run hM h
  have hcreated : c.created = if c.returns.isEmpty then [] else [0] := by
    rw [ha.created, ← ha.calls]
    simp
  refine ⟨ha.calls, ha.created, ?_⟩
  rw [← ha.tellsAccepted_iff]
  exact ⟨fun hf => hf.2, fun hall => ⟨hcreated, hall⟩⟩

/-- A session of three calls whose message is accepted. -/
theorem stream_session_accepted :
    ∃ c : StreamClient ℕ,
      Run (clientStreaming ℕ) [.write 1 true true, .streamWritesDone true, .streamFinish .OK] c ∧
        c.created = [0] ∧ Faithful c ∧
        c.returns.head? = some (.write 1 true true, .write true (some .OK)) := by
  obtain ⟨c, hr, hp⟩ := exists_run (clientStreaming ℕ)
    [.write 1 true true, .streamWritesDone true, .streamFinish .OK]
    (fun c : StreamClient ℕ => decide
      (c.returns.head? = some (.write 1 true true, .write true (some .OK)))) (by decide)
  obtain ⟨-, hcreated, hiff⟩ := stream_session_iff _ (.inl rfl) _ c hr
  refine ⟨c, hr, hcreated, hiff.mpr fun request wantsStatus accepted hmem => ?_, of_decide_eq_true hp⟩
  obtain ⟨-, -, hacc⟩ : request = 1 ∧ wantsStatus = true ∧ accepted = true := by simpa using hmem
  exact hacc

/-! ### `Client<SERVER_STREAMING>` -/

/-- The call is a `Write`. -/
def isWrite : StreamCall κ → Bool
  | .write _ _ _ => true
  | _ => false

/-- The call needs a reader. -/
def needsReader : StreamCall κ → Bool
  | .streamRead _ | .streamFinish _ => true
  | _ => false

/-- A reader was created by every `Write`. -/
structure Readers (as : List (StreamCall κ)) (c : StreamClient κ) : Prop where
  stream : c.stream = as.any isWrite
  created : c.created.length = as.countP isWrite

theorem Readers.snoc (h : Readers as c) (hs : ServerStreaming.step c call = some (.ok c')) :
    Readers (as ++ [call]) c' := by
  -- a call other than `Write` is one that found a reader
  have hother {ret : StreamReturn}
      (hs : StreamClient.record call ret <$> ServerStreaming.checkClientReader c = .ok c')
      (hw : isWrite call = false) : Readers (as ++ [call]) c' := by
    obtain ⟨d, hd, rfl⟩ := map_eq_ok.mp hs
    unfold ServerStreaming.checkClientReader at hd
    split at hd
    · obtain rfl := Except.ok.inj hd
      exact ⟨by simp [StreamClient.record, h.stream, hw],
        by simp [StreamClient.record, h.created, hw]⟩
    · cases hd
  cases call with
  | write request wantsStatus accepted =>
    obtain rfl := Except.ok.inj (Option.some.inj hs)
    exact ⟨by simp [StreamClient.instantiate,
        StreamClient.record, isWrite],
      by simp [StreamClient.instantiate,
        StreamClient.record, isWrite, h.created]⟩
  | streamRead ok => exact hother (Option.some.inj hs) rfl
  | streamWritesDone ok => cases hs
  | streamFinish status => exact hother (Option.some.inj hs) rfl

theorem readers_of_run (h : Run (serverStreaming κ) as c) : Readers as c := by
  induction h with
  | init => exact ⟨rfl, rfl⟩
  | step _ hs ih => exact ih.snoc hs

/-- **Sessions of a `Client<SERVER_STREAMING>`.** Every `Write` creates a stream of its own, and a
`StreamRead` or `StreamFinish` ends the process exactly if no `Write` came before it. -/
theorem server_streaming_session (h : Run (serverStreaming κ) as c) :
    c.created.length = as.countP isWrite ∧
      ∀ call, (serverStreaming κ).Aborts c call .nullClientReader ↔
        needsReader call = true ∧ as.any isWrite = false := by
  have hr := readers_of_run h
  refine ⟨hr.created, fun call => ?_⟩
  rw [← hr.stream]
  cases call <;> cases hs : c.stream <;>
    simp [Machine.Aborts, serverStreaming, ServerStreaming.step, ServerStreaming.checkClientReader,
      needsReader, hs]

end AsyncGrpc.Client.Sessions
