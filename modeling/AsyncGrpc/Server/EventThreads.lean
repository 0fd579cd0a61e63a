import AsyncGrpc.Model.Server
import AsyncGrpc.Single.EventThread

/-! # The server whose event threads work at the same time

In `Model.Server` an event is handled in one step. Here every event queue has its thread, which takes
up the oldest event of the queue and goes through the handling of it task by task, as in
`Single.EventThread`. In between, the threads of the other queues do the same, completions come in,
other threads use their `Writer`s and services stop. -/

namespace AsyncGrpc.Server.EventThreads

open AsyncGrpc.Lib.Runs AsyncGrpc.Model.Types AsyncGrpc.Model.Rpc AsyncGrpc.Model.Service
open AsyncGrpc.Model.Server AsyncGrpc.Single.EventThread

variable {μ : Type}

/-- An event thread: the `Rpc` of the event that it has taken up, what it still has to do for the event,
and the callback that it is in. -/
structure EventThread where
  rpc : ℕ
  todo : List Task
  inside : Option Inside
  deriving DecidableEq, Repr

/-- The thread has handled its event and waits for the next one. -/
def EventThread.waits (t : EventThread) : Bool := t.todo.isEmpty && t.inside.isNone

/-- The task that the thread is about to perform. -/
def EventThread.next (t : EventThread) : Option Task :=
  match t.inside with
  | some _ => none
  | none => t.todo.head?

/-- The state of the server with the thread of each event queue. -/
structure Threaded (μ : Type) where
  state : State μ
  threads : ℕ → EventThread

/-- The steps: the thread of the queue `q` takes up an event, goes on, or is in a callback in which the
handler makes a call; and every other step of the server. -/
inductive ThreadStep (μ : Type)
  | takeUp (q : ℕ)
  | goOn (q : ℕ)
  | call (q : ℕ) (k : HandlerCall μ)
  | other (a : Action μ)

/-- `PopWithTimeout` returns the oldest event, and its handling begins. -/
def Threaded.takeUp (q : ℕ) (s : Threaded μ) : Option (Threaded μ) :=
  match s.state.eventQueues q with
  | [] => none
  | (r, e) :: rest =>
    match s.state.cells[r]? with
    | some c =>
      if (s.threads q).waits then
        let (c', todo) := Single.EventThread.takeUp (s.state.shuttingDown c.rpc.service) e ⟨c, []⟩
        let state := { s.state with eventQueues := Function.update s.state.eventQueues q rest }
        some ⟨state.store r c', Function.update s.threads q ⟨r, todo, none⟩⟩
      else none
    | none => none

/-- What `HandleNewConnection` does with the `Rpc` that `Clone` has returned. -/
def relisten (cfg : Config) (rpc : Rpc μ) (s : State μ) : Except Fatal (State μ) :=
  let (q, s) := s.selectEventQueue cfg
  s.addRpc (setEventQueue q rpc)

/-- The thread of the queue `q` does the step `b` of the handling. -/
def Threaded.work (cfg : Config) (q : ℕ) (b : BusyStep μ) (s : Threaded μ) :
    Option (Except Fatal (Threaded μ)) :=
  let t := s.threads q
  match s.state.cells[t.rpc]? with
  | some c =>
    (Busy.step ⟨⟨c, []⟩, t.todo, t.inside⟩ b).map fun x => do
      let b' ← x
      let state := s.state.store t.rpc b'.ctx
      let state ← if t.next = some (.use .clone) then relisten cfg (clone b'.ctx.rpc) state
        else pure state
      return ⟨state, Function.update s.threads q ⟨t.rpc, b'.todo, b'.inside⟩⟩
  | none => none

/-- The step function. -/
def Threaded.step (cfg : Config) (s : Threaded μ) : ThreadStep μ → Option (Except Fatal (Threaded μ))
  | .takeUp q => (s.takeUp q).map .ok
  | .goOn q => s.work cfg q .goOn
  | .call q k => s.work cfg q (.call k)
  | .other (.handle _ _) => none
  | .other a => (Model.Server.step cfg s.state a).map fun x => (⟨·, s.threads⟩) <$> x

/-- The server started with `cfg`, all event threads waiting. -/
def threaded (μ : Type) (cfg : Config) : Machine (Threaded μ) (ThreadStep μ) Fatal where
  init := ⟨(server μ cfg).init, fun _ => ⟨0, [], none⟩⟩
  step := Threaded.step cfg

end AsyncGrpc.Server.EventThreads
