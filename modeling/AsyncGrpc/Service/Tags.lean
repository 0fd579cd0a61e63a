import AsyncGrpc.Single.Buffers

/-! # The tags and buffers of a running server

gRPC allows one outstanding operation for each tag, no `Write` beside a `Finish`, and no change to a
message it still reads or writes. The main result says that a server keeps to this in every run, for
every `Rpc` and whatever handlers and `Writer`s do. -/

namespace AsyncGrpc.Service.Tags

open AsyncGrpc.Lib.Runs AsyncGrpc.Lib.Histories
open AsyncGrpc.Model.Types AsyncGrpc.Model.Service AsyncGrpc.Model.Server
open AsyncGrpc.Single.Machine AsyncGrpc.Single.Project AsyncGrpc.Single.Lifecycle
open AsyncGrpc.Single.Ledger AsyncGrpc.Single.Buffers

variable {μ : Type} {cfg : Config}

/-- How often the tag `t` of `r`, whose cell is `c`, is outstanding: in gRPC and its completion
queue, or in the event queue. -/
def outstanding (s : State μ) (r : ℕ) (c : Cell μ) (t : Tag) : ℕ :=
  c.ops t + (s.eventQueues c.rpc.eventQueue).count (r, .completion t)

theorem outstanding_eq {s : State μ} {r : ℕ} {l : Conn μ} (hl : conn s r = some l) (t : Tag) :
    outstanding s r l.cell t = l.outstanding t := by
  unfold outstanding Conn.outstanding
  rw [(conn_eq_some.mp hl).2, count_pick]

theorem waitingOk_length (l : Conn μ) (t : Tag) : (waitingOk l t).length ≤ 1 := by
  unfold waitingOk
  split_ifs <;> simp

/-- **The tags and buffers of every `Rpc` are used as gRPC demands.** A tag is outstanding at most
once, exactly when its event is marked as pending, and its event waits in no other queue; `WRITE` and
`FINISH` are never outstanding together; `response_` and `request_` are reused only when they are
free; and the `n`-th handler of a tag sees the `ok` of its `n`-th delivery. -/
theorem tags_and_buffers {s : State μ} {r : ℕ} {c : Cell μ} (hs : Reachable (server μ cfg) s)
    (hc : s.cells[r]? = some c) :
    (∀ t, outstanding s r c t ≤ 1 ∧
        ((c.rpc.events t).pending = true ↔ outstanding s r c t = 1) ∧
        ∀ q, (r, .completion t) ∈ s.eventQueues q → q = c.rpc.eventQueue) ∧
      (outstanding s r c .write = 0 ∨ outstanding s r c .finish = 0) ∧
      Orderly ResponseFree c.history ∧ Orderly RequestPassed c.history ∧
      ∀ t, ∃ waiting, deliveredOks t c.history = handledOks t c.history ++ waiting ∧
        waiting.length ≤ 1 := by
  have hl := conn_of_cell hc
  have hwalk := walks_of_reachable hs hl
  have hinv := invariant_of_walk hwalk
  have hbuf := buffered_of_walk hwalk
  have hout : ∀ t, outstanding s r c t = flag c.rpc t := fun t =>
    (outstanding_eq hl t).trans (hinv.tally t)
  refine ⟨fun t => ⟨?_, ?_, ?_⟩, ?_, hbuf.responses, hbuf.requests, fun t => ?_⟩
  · rw [hout]
    exact flag_le_one _ _
  · rw [hout, flag_eq_one]
  · exact fun q hq => (mem_inbox hs hl hq).2
  · rw [hout, hout, flag_eq_zero, flag_eq_zero]
    exact hbuf.exclusive
  · exact ⟨_, matched_of_walk hwalk t, waitingOk_length _ t⟩

/-- A conversation in which an answer is being written and the second message waits. -/
theorem tags_and_buffers_bidi : ∃ (s : State ℕ) (c : Cell ℕ),
    Reachable (server ℕ (.single .bidiStreaming)) s ∧ s.cells[0]? = some c ∧
      outstanding s 0 c .write = 1 ∧ outstanding s 0 c .finish = 0 ∧
      (received c.history = [5, 6] ∧ passed c.history = [some 5]) ∧
      Orderly ResponseFree c.history ∧ Orderly RequestPassed c.history := by
  obtain ⟨s, hr, hp⟩ := exists_run (server ℕ (.single .bidiStreaming))
    [.deliver 0 .newConnection true 0, .handle 0 {}, .deliver 0 .read true 5,
      .handle 0 { onRequest := [.send (some 50)] }, .handle 0 {}, .deliver 0 .read true 6]
    (fun s => s.cells[0]?.any (fun c : Cell ℕ => decide (outstanding s 0 c .write = 1 ∧
      received c.history = [5, 6] ∧ passed c.history = [some 5]))) (by decide)
  simp only [Option.any_eq_true, decide_eq_true_eq] at hp
  obtain ⟨c, hc, hw, hm⟩ := hp
  obtain ⟨-, hx, hresp, hreq, -⟩ := tags_and_buffers hr.reachable hc
  refine ⟨s, c, hr.reachable, hc, hw, ?_, hm, hresp, hreq⟩
  rw [hw] at hx
  exact hx.resolve_left (by decide)

end AsyncGrpc.Service.Tags
