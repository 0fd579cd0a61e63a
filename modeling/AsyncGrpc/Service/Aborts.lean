import AsyncGrpc.Single.Failures

/-! # What never ends the process

The internal fatal branches of `Rpc`: its `CHECK`s about messages and RPC types, the `LOG(FATAL)`s of
its interfaces, and the pointers it dereferences. None of them is reached in any run. -/

namespace AsyncGrpc.Service.Aborts

open AsyncGrpc.Lib.Runs AsyncGrpc.Model.Types AsyncGrpc.Model.Rpc AsyncGrpc.Model.Service
open AsyncGrpc.Model.Server AsyncGrpc.Single.Machine AsyncGrpc.Single.Moves AsyncGrpc.Single.Project
open AsyncGrpc.Single.Lifecycle AsyncGrpc.Single.Failures

variable {μ : Type} {cfg : Config}

/-- The fatal branches inside `Rpc`: `GetRpcEvent`, the `CHECK`s of `PerformFinish` and
`PerformWrite`, the interfaces of the readers and writers, and the null pointers among those and
`handler_`. -/
def internal : Fatal → Bool
  | .getRpcEvent | .performFinishMessage | .performWriteNullMessage | .performWriteNormalRpc
  | .performWriteClientStreaming | .asyncReaderInterface | .asyncWriterInterface
  | .nullReaderWriter | .nullHandler => true
  | .getWeakPtr | .rpcAlreadyActive | .traceSpan => false

/-- **No internal fatal branch of `Rpc` is reached.** Serving starts without a failure; in every state
of every run no step ends in one of the branches, and the readers and writers of every `Rpc` are those
that `InitializeReadersAndWriters` created for its type. -/
theorem no_internal_fatal {s : State μ} (hs : Reachable (server μ cfg) s) :
    start cfg = .ok (server μ cfg).init ∧
      (∀ a f, internal f = true → ¬ (server μ cfg).Aborts s a f) ∧
      ∀ (r : ℕ) (c : Cell μ), s.cells[r]? = some c →
        c.rpc.readersAndWriters = initializeReadersAndWriters c.rpc.rpcHandlerInfo.rpcType := by
  refine ⟨start_eq cfg, fun a f hf ha => ?_, fun r c hc => ?_⟩
  · obtain ⟨r, l, b, hl, -, hstep⟩ := step_of_aborts hs ha
    have hwalk := walks_of_reachable hs hl
    rcases step_fails (invariant_of_walk hwalk) (equipped_of_walk hwalk) hstep with
      ⟨⟨rfl, -⟩, -⟩ | ⟨rfl, -⟩
    · cases hf
    · cases hf
  · exact equipped_of_walk (walks_of_reachable hs (conn_of_cell hc))

/-- A null message is written to a unary call: it is finished with an error object, and no branch is
reached. -/
theorem no_internal_fatal_null_message : ∃ s s' : State ℕ,
    Reachable (server ℕ (.single .normalRpc)) s ∧
      s.cells[0]?.any (fun c => decide (c.rpc.sendQueue = [⟨none, .OK⟩])) = true ∧
      (server ℕ (.single .normalRpc)).Step s (.handle 0 {}) s' ∧
      ∀ a, ¬ (server ℕ (.single .normalRpc)).Aborts s a .performWriteNullMessage := by
  obtain ⟨s, s', hr, hstep, hp⟩ := exists_step (server ℕ (.single .normalRpc))
    [.deliver 0 .newConnection true 7, .handle 0 { onRequest := [.send none] }] (.handle 0 {})
    (fun s _ => s.cells[0]?.any (fun c : Cell ℕ => decide (c.rpc.sendQueue = [⟨none, .OK⟩])))
    (by decide)
  exact ⟨s, s', hr.reachable, hp, hstep, fun a => (no_internal_fatal hr.reachable).2.1 a _ rfl⟩

end AsyncGrpc.Service.Aborts
