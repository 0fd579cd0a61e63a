import AsyncGrpc.Single.Calls
import AsyncGrpc.Single.Failures

/-! # `Writer`s on other threads

A `Writer` call holds a strong reference from its `lock` to its return, and so keeps an `Rpc` alive
that has been removed from `ActiveRpcs`. What can go wrong then: a `WRITE_NEEDED` event locks such an
`Rpc` and starts an operation on it; and the call itself does not find the entry any more when it
comes to `GetWeakPtr`. For both the exact conditions are given. -/

namespace AsyncGrpc.Service.Writers

open AsyncGrpc.Lib.Runs AsyncGrpc.Lib.Histories
open AsyncGrpc.Model.Types AsyncGrpc.Model.Rpc AsyncGrpc.Model.Service AsyncGrpc.Model.Server
open AsyncGrpc.Single.Machine AsyncGrpc.Single.Moves AsyncGrpc.Single.Project
open AsyncGrpc.Single.Lifecycle AsyncGrpc.Single.Order AsyncGrpc.Single.Removal
open AsyncGrpc.Single.Calls AsyncGrpc.Single.Failures

variable {μ : Type} {cfg : Config}

/-! ### Operations on a removed `Rpc` -/

/-- **When no operation is started on a removed `Rpc`.** A run starts no `Read`, `Write` or `Finish`
on an `Rpc` after its removal exactly if no `WRITE_NEEDED` event is handled with something to send for
an `Rpc` that was removed and is kept alive by a `Writer` call. In such a run no `Rpc` is destroyed
while its `READ`, `WRITE` or `FINISH` tag is outstanding. -/
theorem no_operation_after_removal_iff {as : List (Action μ)} {s : State μ}
    (hr : Run (server μ cfg) as s) :
    (Along (server μ cfg) ((components μ cfg).Each DrainedWhenRemoved) as ↔
        ∀ (r : ℕ) (c : Cell μ), s.cells[r]? = some c → Orderly NotAfterRemoval c.history) ∧
      (Along (server μ cfg) ((components μ cfg).Each DrainedWhenRemoved) as →
        ∀ (r : ℕ) (c : Cell μ), s.cells[r]? = some c → c.alive = false →
          ∀ t, t = .read ∨ t = .write ∨ t = .finish →
            c.ops t = 0 ∧ ∀ q, (r, .completion t) ∉ s.eventQueues q) := by
  have key := along_notAfterRemoval hr
  refine ⟨key, fun ha r c hc halive t ht => ?_⟩
  have hl := conn_of_cell hc
  have hwalk := walks_of_reachable hr.reachable hl
  have hinv := invariant_of_walk hwalk
  have hact : c.active = false := by
    unfold Cell.alive at halive
    exact (Bool.or_eq_false_iff.mp halive).1
  have hflag : (c.rpc.events t).pending = false := by
    obtain ⟨h1, h2⟩ := sendsOver_of_walk hwalk (key.mp ha r c hc) hact
    rcases ht with rfl | rfl | rfl
    · by_contra hp
      have hlisted : c.active = true := active_of_read hinv (by simpa using hp)
      simp [hact] at hlisted
    · exact h1
    · exact h2
  obtain ⟨h1, h2⟩ := hinv.tally.of_not_pending hflag
  exact ⟨h1, fun q hq => h2 (mem_inbox hr.reachable hl hq).1⟩

/-- A `Writer` writes to a stream, and returns before the client is gone. -/
theorem no_operation_after_removal_iff_streaming : ∃ (as : List (Action ℕ)) (s : State ℕ)
    (c : Cell ℕ), Run (server ℕ (.single .serverStreaming)) as s ∧ s.cells[0]? = some c ∧
      c.alive = false ∧ c.ops .write = 0 ∧
      Along (server ℕ (.single .serverStreaming))
        ((components ℕ (.single .serverStreaming)).Each DrainedWhenRemoved) as := by
  obtain ⟨s, hr, hp⟩ := exists_run (server ℕ (.single .serverStreaming))
    [.deliver 0 .newConnection true 7, .handle 0 { onRequest := [.getWriter] },
      .lockWriter 0 (.write (some 8)), .stepWriter 0 0, .stepWriter 0 0, .stepWriter 0 0,
      .stepWriter 0 0, .handle 0 {}, .deliver 0 .write true 0, .handle 0 {},
      .deliver 0 .done true 0, .handle 0 {}]
    (fun s => s.cells[0]?.any (fun c : Cell ℕ => !c.alive) &&
      s.cells.all (fun c : Cell ℕ => decide (Orderly NotAfterRemoval c.history))) (by decide)
  simp only [Bool.and_eq_true, Option.any_eq_true, List.all_eq_true, decide_eq_true_eq,
    Bool.not_eq_true'] at hp
  obtain ⟨⟨c, hc, halive⟩, hall⟩ := hp
  obtain ⟨hiff, hops⟩ := no_operation_after_removal_iff hr
  have halong := hiff.mpr (fun r c hc => hall c (List.mem_of_getElem? hc))
  exact ⟨_, s, c, hr, hc, halive, (hops halong 0 c hc halive .write (Or.inr (Or.inl rfl))).1, halong⟩

/-- The client is gone while a `Writer` call stands between `GetWeakPtr` and its return: the
`WRITE_NEEDED` event comes after the removal, finds the `Rpc` alive and starts a `Write` on it; with
the return of the call the `Rpc` is destroyed while gRPC still holds its `WRITE` tag. -/
theorem write_started_after_removal : ∃ (as : List (Action ℕ)) (s : State ℕ) (c : Cell ℕ),
    Run (server ℕ (.single .serverStreaming)) as s ∧ s.cells[0]? = some c ∧ c.alive = false ∧
      c.ops .write = 1 ∧ ¬ Orderly NotAfterRemoval c.history := by
  obtain ⟨s, hr, hp⟩ := exists_run (server ℕ (.single .serverStreaming))
    [.deliver 0 .newConnection true 7, .handle 0 { onRequest := [.getWriter] },
      .lockWriter 0 (.write (some 8)), .stepWriter 0 0, .stepWriter 0 0, .deliver 0 .done true 0,
      .stepWriter 0 0, .handle 0 {}, .handle 0 {}, .stepWriter 0 0]
    (fun s => s.cells[0]?.any (fun c : Cell ℕ => decide (c.alive = false ∧ c.ops .write = 1 ∧
      ¬ Orderly NotAfterRemoval c.history))) (by decide)
  simp only [Option.any_eq_true, decide_eq_true_eq] at hp
  obtain ⟨c, hc, h⟩ := hp
  exact ⟨_, s, c, hr, hc, h⟩

/-! ### The `CHECK` of `GetWeakPtr` -/

/-- `FINISH` is only handled while the entry is in `ActiveRpcs`. -/
def FinishWhileActive (l : Conn μ) : Step μ → Prop
  | .handle _ _ => l.inbox.head? = some (.completion .finish) → l.cell.active = true
  | _ => True

/-- A `Writer` call on another thread can make its next step. -/
theorem exists_stepWriter {s : State μ} {r i : ℕ} {c : Cell μ} {k : WriterCall μ}
    (hs : Reachable (server μ cfg) s) (hc : s.cells[r]? = some c) (hk : c.calls[i]? = some k)
    (hh : k.holds = true) (hn : NotDoomed c) :
    ∃ s' c' k', (server μ cfg).Step s (.stepWriter r i) s' ∧ s'.cells[r]? = some c' ∧
      c'.calls[i]? = some k' ∧ WriterCall.stepsLeft k' + 1 = WriterCall.stepsLeft k := by
  have hinv := invariant_of_reachable hs (conn_of_cell hc)
  have hact : k.pc = .enqueued → c.active = true := by
    intro hp
    by_contra ha
    have := hn (by simpa using ha) k (List.mem_of_getElem? hk)
    simp [unchecked, hp] at this
  obtain ⟨c', k', h1, h2, h3⟩ := stepWriter_ok hinv hk hh hact
  have hlt : r < s.cells.length := (List.getElem?_eq_some_iff.mp hc).1
  refine ⟨s.store r c', c'.toCell, k', ?_, List.getElem?_set_self hlt, h2, h3⟩
  show step cfg s (.stepWriter r i) = _
  simp only [step, hc, hk, hh, if_true]
  rw [h1]
  rfl

/-- **When the calls of `Writer`s are safe.** A run leaves no call between its `lock` and its
`GetWeakPtr` without the entry of its `Rpc` exactly if no `Writer` is entered for an `Rpc` that only
other calls keep alive, and no event is handled that ends an `Rpc` while a call stands there. In such
a run no step fails the `CHECK` of `GetWeakPtr` (a callback could only when it is the `OnFinish` of a
removed `Rpc`), every call can go on until it returns, and a call that has returned has enqueued its
item and pushed one event if it returned true, and done nothing if it returned false. -/
theorem writer_calls_safe_iff {as : List (Action μ)} {s : State μ} (hr : Run (server μ cfg) as s) :
    (Along (server μ cfg) ((components μ cfg).Each Undisturbed) as ↔
        ∀ (r : ℕ) (c : Cell μ), s.cells[r]? = some c → NotDoomed c) ∧
      (Along (server μ cfg) ((components μ cfg).Each Undisturbed) as →
        (∀ a, (components μ cfg).Each FinishWhileActive s a →
          ¬ (server μ cfg).Aborts s a .getWeakPtr) ∧
        ∀ (r i : ℕ) (c : Cell μ) (k : WriterCall μ), s.cells[r]? = some c → c.calls[i]? = some k →
          (k.holds = true → ∃ s' c' k', (server μ cfg).Step s (.stepWriter r i) s' ∧
            s'.cells[r]? = some c' ∧ c'.calls[i]? = some k' ∧
            WriterCall.stepsLeft k' + 1 = WriterCall.stepsLeft k) ∧
          (k.pc = .returned false → enqueuedBy i c.history = [] ∧ pushedBy i c.history = 0) ∧
          (k.pc = .returned true →
            enqueuedBy i c.history = [k.method.item] ∧ pushedBy i c.history = 1)) := by
  have key := (components μ cfg).along_iff (Q := Undisturbed) (G := fun l => NotDoomed l.cell)
    (fun _ hf => notDoomed_of_fresh hf)
    (fun _ _ _ _ hs hg => notDoomed_back (moved_of_step hs) hg)
    (fun _ _ _ hw hg hs => notDoomed_moved (invariant_of_walk hw) hg (moved_of_step hs)) hr
  replace key := key.trans (forall_conn (G := NotDoomed))
  refine ⟨key, fun hu => ⟨fun a hfin haborts => ?_, fun r i c k hc hk => ⟨fun hh => ?_, ?_⟩⟩⟩
  · obtain ⟨r, l, b, hl, hb, hstep⟩ := step_of_aborts hr.reachable haborts
    have hn := key.mp hu r l.cell (conn_eq_some.mp hl).1
    have hwalk := walks_of_reachable hr.reachable hl
    obtain ⟨⟨-, ha⟩, hcase⟩ := (step_fails (invariant_of_walk hwalk) (equipped_of_walk hwalk)
      hstep).resolve_right (by rintro ⟨⟨⟩, -⟩)
    rcases hcase with ⟨i, k, -, hk, hp⟩ | ⟨sd, script, rfl, hhead⟩
    · have := hn ha k (List.mem_of_getElem? hk)
      simp [unchecked, hp] at this
    · have hlisted : l.cell.active = true := hfin r l _ hl hb hhead
      simp [ha] at hlisted
  · exact exists_stepWriter hr.reachable hc hk hh (key.mp hu r c hc)
  · have hlog := callLog_of_walk (walks_of_reachable hr.reachable (conn_of_cell hc)) i
    dsimp only at hlog
    rw [hk] at hlog
    constructor
    · intro hp
      simpa [WriterCall.enqueuedSoFar, WriterCall.pushedSoFar, hp] using hlog
    · intro hp
      simpa [WriterCall.enqueuedSoFar, WriterCall.pushedSoFar, hp] using hlog

/-- A call that writes before the client is gone, and one that comes too late. -/
theorem writer_calls_safe_iff_streaming : ∃ (as : List (Action ℕ)) (s : State ℕ) (c : Cell ℕ),
    Run (server ℕ (.single .serverStreaming)) as s ∧ s.cells[0]? = some c ∧
      c.calls.map (·.pc) = [.returned true, .returned false] ∧
      enqueuedBy 0 c.history = [⟨some 8, .OK⟩] ∧ enqueuedBy 1 c.history = [] ∧
      Along (server ℕ (.single .serverStreaming))
        ((components ℕ (.single .serverStreaming)).Each Undisturbed) as := by
  obtain ⟨s, hr, hp⟩ := exists_run (server ℕ (.single .serverStreaming))
    [.deliver 0 .newConnection true 7, .handle 0 { onRequest := [.getWriter] },
      .lockWriter 0 (.write (some 8)), .stepWriter 0 0, .stepWriter 0 0, .stepWriter 0 0,
      .stepWriter 0 0, .handle 0 {}, .deliver 0 .write true 0, .handle 0 {},
      .deliver 0 .done true 0, .handle 0 {}, .lockWriter 0 (.write (some 9))]
    (fun s => s.cells[0]?.any (fun c : Cell ℕ => decide (c.calls =
        [⟨.write (some 8), .returned true⟩, ⟨.write (some 9), .returned false⟩])) &&
      s.cells.all (fun c : Cell ℕ => c.active || c.calls.all (fun k => !unchecked k))) (by decide)
  simp only [Bool.and_eq_true, Option.any_eq_true, List.all_eq_true, decide_eq_true_eq,
    Bool.or_eq_true, Bool.not_eq_true'] at hp
  obtain ⟨⟨c, hc, hcalls⟩, hall⟩ := hp
  obtain ⟨hiff, hsafe⟩ := writer_calls_safe_iff hr
  have halong := hiff.mpr (fun r c hc ha =>
    (hall c (List.mem_of_getElem? hc)).resolve_left (by simp [ha]))
  obtain ⟨-, hcall⟩ := hsafe halong
  refine ⟨_, s, c, hr, hc, by simp [hcalls], ?_, ?_, halong⟩
  · exact ((hcall 0 0 c ⟨.write (some 8), .returned true⟩ hc (by simp [hcalls])).2.2 rfl).1
  · exact ((hcall 0 1 c ⟨.write (some 9), .returned false⟩ hc (by simp [hcalls])).2.1 rfl).1

/-- The client is gone while a `Writer` call stands between its `lock` and its `GetWeakPtr`: the entry
is removed, and the `CHECK` fails. -/
theorem writer_call_fails_check : ∃ (as : List (Action ℕ)) (s : State ℕ),
    Run (server ℕ (.single .serverStreaming)) as s ∧
      (server ℕ (.single .serverStreaming)).Aborts s (.stepWriter 0 0) .getWeakPtr :=
  ⟨_, exists_abort (server ℕ (.single .serverStreaming))
    [.deliver 0 .newConnection true 7, .handle 0 { onRequest := [.getWriter] },
      .lockWriter 0 (.write (some 8)), .deliver 0 .done true 0, .stepWriter 0 0, .handle 0 {}]
    (.stepWriter 0 0) .getWeakPtr (by decide)⟩

end AsyncGrpc.Service.Writers
