import AsyncGrpc.Model.Service

/-! # One `Rpc` by itself

A `Conn` is what concerns one `Rpc`: its cell and, as `inbox`, its events that wait in the event
queue, oldest first. Its steps are those of the server that move it; for it, everything looks
single-threaded. It is proved in `Single.Project` that every `Rpc` of a running server walks by these
steps. -/

namespace AsyncGrpc.Single.Machine

open AsyncGrpc.Model.Types AsyncGrpc.Model.Rpc AsyncGrpc.Model.Service

/-- One `Rpc` with its waiting events. -/
structure Conn (μ : Type) where
  cell : Cell μ
  inbox : List RpcEvent

/-- The steps of one `Rpc`; `shuttingDown` is the flag of its service when the event is handled. -/
inductive Step (μ : Type)
  | deliver (t : Tag) (ok : Bool) (m : μ)
  | handle (shuttingDown : Bool) (script : Script μ)
  | lockWriter (w : WriterMethod μ)
  | stepWriter (i : ℕ)

variable {μ : Type}

/-- The result of a function that ran on the cell. -/
def ofCtx (inbox : List RpcEvent) (c : Ctx μ) : Conn μ := ⟨c.toCell, inbox ++ c.outbox⟩

/-- The step function of one `Rpc`. -/
def Conn.step (l : Conn μ) : Step μ → Option (Except Fatal (Conn μ))
  | .deliver t ok m =>
    if deliverable t l.cell then some (.ok ⟨deliver t ok m l.cell, l.inbox ++ [.completion t]⟩)
    else none
  | .handle shuttingDown script =>
    match l.inbox with
    | [] => none
    | e :: rest =>
      some ((ofCtx rest ·.1) <$> handle shuttingDown e script ⟨l.cell, []⟩)
  | .lockWriter w => if l.cell.writer then some (.ok ⟨lockWriter w l.cell, l.inbox⟩) else none
  | .stepWriter i =>
    match l.cell.calls[i]? with
    | some k => if k.holds then some (ofCtx l.inbox <$> stepWriter i k ⟨l.cell, []⟩) else none
    | none => none

/-- A new listener. -/
def Fresh (l : Conn μ) : Prop :=
  ∃ (methodIndex completionQueue eventQueue : ℕ) (info : RpcHandlerInfo) (service : ℕ) (c : Ctx μ),
    listen (newRpc methodIndex completionQueue eventQueue info service) = .ok c ∧ l = ofCtx [] c

/-- How often the tag `t` is outstanding: waiting in gRPC, or in the event queue. -/
def Conn.outstanding (l : Conn μ) (t : Tag) : ℕ := l.cell.ops t + l.inbox.count (.completion t)

/-- The tag `t` will still be delivered to a handler: gRPC can deliver it, or it waits in the event
queue. -/
def Conn.awaited (l : Conn μ) (t : Tag) : Prop :=
  deliverable t l.cell = true ∨ .completion t ∈ l.inbox

end AsyncGrpc.Single.Machine
