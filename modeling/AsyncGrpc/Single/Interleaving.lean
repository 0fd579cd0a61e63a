import AsyncGrpc.Single.EventThread
import AsyncGrpc.Single.Project

/-! # Handling an event in one go is one way to interleave

`Single.Machine` handles an event in one step. `ends_of_step` says that this step can be taken apart:
the event thread of `Single.EventThread` comes to the same result, or to the same failure, when no
other thread runs in between. So an `Rpc` can come to every state there that it can come to when its
events are handled in one go (`reachable_of_walk`). -/

namespace AsyncGrpc.Single.Interleaving

open AsyncGrpc.Lib.Runs AsyncGrpc.Model.Types AsyncGrpc.Model.Rpc AsyncGrpc.Model.Service
open AsyncGrpc.Single.Machine AsyncGrpc.Single.Moves AsyncGrpc.Single.EventThread
open AsyncGrpc.Single.Project

variable {μ : Type} {l0 l : Conn μ} {s0 : Busy μ} {q : List RpcEvent} {todo : List Task} {b : Step μ}

/-! ### The events that wait already -/

/-- The events `q` wait in front of those that were pushed. -/
def behind (q : List RpcEvent) (c : Ctx μ) : Ctx μ := { c with outbox := q ++ c.outbox }

theorem behind_toCell (c : Ctx μ) : (behind q c).toCell = c.toCell := rfl

theorem bind_behind {x x' : Except Fatal (Ctx μ)} {g : Ctx μ → Except Fatal (Ctx μ)}
    (hx : x' = behind q <$> x) (hg : ∀ c, g (behind q c) = behind q <$> g c) :
    (x' >>= g) = behind q <$> (x >>= g) := by
  subst hx
  cases x with
  | error e => rfl
  | ok c => exact hg c

theorem send_behind (item : SendItem μ) (c : Ctx μ) :
    send item (behind q c) = behind q <$> send item c := by
  unfold send getWeakPtr
  dsimp only [behind, enqueueMessage, log]
  split_ifs
  · exact congrArg Except.ok (by simp [pushWriteNeeded, log, behind])
  · rfl

theorem callWriter_behind (w : WriterMethod μ) (c : Ctx μ) :
    callWriter w (behind q c) = behind q <$> callWriter w c := by
  unfold callWriter
  rw [behind_toCell]
  split_ifs
  · cases w with
    | write m => exact send_behind _ c
    | writesDone => exact send_behind _ c
    | finish st =>
      refine bind_behind (send_behind _ c) (fun c => ?_)
      rw [behind_toCell]
      split_ifs <;> rfl
  · rfl

theorem handlerCall_behind (c : Ctx μ) (k : HandlerCall μ) :
    handlerCall (behind q c) k = behind q <$> handlerCall c k := by
  cases k with
  | send m => exact send_behind _ c
  | finish st => exact send_behind _ c
  | getWriter =>
    unfold handlerCall getWeakPtr
    rw [behind_toCell]
    split_ifs <;> rfl
  | writer w => exact callWriter_behind w c

theorem startVia_behind (rw : ReaderWriter) (op : Op μ) (c : Ctx μ) :
    startVia rw op (behind q c) = behind q <$> startVia rw op c := by
  unfold startVia
  rw [behind_toCell]
  split_ifs <;> rfl

theorem sendUnaryFinish_behind (rw : ReaderWriter) (st : Status) (m : Option μ) (c : Ctx μ) :
    sendUnaryFinish rw st m (behind q c) = behind q <$> sendUnaryFinish rw st m c := by
  cases m with
  | none => exact startVia_behind _ _ c
  | some m => exact startVia_behind _ _ c

theorem performFinish_behind (m : Option μ) (st : Status) (c : Ctx μ) :
    performFinish m st (behind q c) = behind q <$> performFinish m st c := by
  unfold performFinish
  refine bind_behind rfl (fun c => ?_)
  rw [behind_toCell]
  cases c.rpc.rpcHandlerInfo.rpcType with
  | bidiStreaming =>
    dsimp only
    split_ifs
    · rfl
    · exact startVia_behind _ _ c
  | clientStreaming => exact sendUnaryFinish_behind _ _ _ (setResponse m c)
  | normalRpc => exact sendUnaryFinish_behind _ _ _ (setResponse m c)
  | serverStreaming =>
    dsimp only
    split_ifs
    · rfl
    · exact startVia_behind _ _ c

theorem performWrite_behind (m : Option μ) (st : Status) (c : Ctx μ) :
    performWrite m st (behind q c) = behind q <$> performWrite m st c := by
  cases m with
  | none => rfl
  | some m =>
    unfold performWrite
    dsimp only
    rw [behind_toCell]
    split_ifs
    · rfl
    · rfl
    · rfl
    · refine bind_behind rfl (fun c => ?_)
      rw [show asyncWriterInterface (setResponse (some m) (behind q c)) =
        asyncWriterInterface (setResponse (some m) c) from rfl]
      cases asyncWriterInterface (setResponse (some m) c) with
      | error e => rfl
      | ok rw => exact startVia_behind rw (.write m) (setResponse (some m) c)

theorem handleSendQueue_behind (c : Ctx μ) :
    handleSendQueue (behind q c) = behind q <$> handleSendQueue c := by
  unfold handleSendQueue
  rw [behind_toCell]
  cases c.rpc.sendQueue with
  | nil => rfl
  | cons item rest =>
    simp only [isRpcEventPending, getRpcEvent, behind_toCell]
    change (if _ then _ else _) = behind q <$> (if _ then _ else _)
    split_ifs
    · rfl
    · exact performFinish_behind _ _ { c with rpc := { c.rpc with sendQueue := rest } }
    · exact performWrite_behind _ _ { c with rpc := { c.rpc with sendQueue := rest } }

theorem remove_behind (site : RemoveSite) (c : Ctx μ) :
    remove site (behind q c) = behind q (remove site c) := by
  unfold remove
  rw [behind_toCell]
  split_ifs <;> rfl

theorem tidies_behind (c : Ctx μ) : tidies (behind q c) = behind q (tidies c) := by
  unfold tidies
  rw [behind_toCell]
  split_ifs
  · rfl
  · exact remove_behind _ (use .isAnyEventPending c)

theorem stepWriter_behind (i : ℕ) (k : WriterCall μ) (c : Ctx μ) :
    stepWriter i k (behind q c) = behind q <$> stepWriter i k c := by
  unfold stepWriter
  cases k.pc with
  | locked => rfl
  | enqueued =>
    unfold getWeakPtr
    rw [behind_toCell]
    split_ifs <;> rfl
  | gotWeakPtr => exact congrArg Except.ok (by simp [setPc, pushWriteNeeded, log, behind])
  | pushed =>
    cases k.method with
    | finish st =>
      rw [behind_toCell]
      split_ifs <;> rfl
    | write m => rfl
    | writesDone => rfl
  | returned r => rfl

/-! ### The tasks -/

/-- The event thread has the tasks `todo` left; the events `q` have been waiting since before. -/
def working (q : List RpcEvent) (todo : List Task) (inside : Option Inside) (c : Ctx μ) : Busy μ :=
  ⟨behind q c, todo, inside⟩

/-- The event thread alone, from `s0` to the end of the event that it handles. -/
def alone (s0 : Busy μ) : Machine (Busy μ) (BusyStep μ) Fatal where
  init := s0
  step := fun s a =>
    match a with
    | .goOn => s.step .goOn
    | .call k => s.step (.call k)
    | _ => none

theorem ends_use (m : Member) (c : Ctx μ) {r : Except Fatal (Busy μ)}
    (h : Ends (alone s0) (working q todo none (use m c)) r) :
    Ends (alone s0) (working q (.use m :: todo) none c) r := by
  have hs : (alone s0).Step (working q (.use m :: todo) none c) .goOn
      (working q todo none (use m c)) := rfl
  exact .step hs h

/-- The calls that a handler makes in a callback. -/
theorem ends_calls (p : Inside) : ∀ (ks : List (HandlerCall μ)) (c : Ctx μ),
    Ends (alone s0) (working q todo (some p) c)
      (working q todo (some p) <$> ks.foldlM handlerCall c)
  | [], c => .refl _
  | k :: ks, c => by
    rw [List.foldlM_cons]
    refine .bind (f := working q todo (some p)) (.of_step (a := .call k) ?_) (ends_calls p ks)
    show some (_ <$> handlerCall (behind q c) k) = _
    rw [handlerCall_behind]
    cases handlerCall c k <;> rfl

/-- A callback from its beginning on. -/
theorem ends_callback (p : Inside) (cb : Callback μ) (ks : List (HandlerCall μ)) (c : Ctx μ) :
    Ends (alone s0) (working q todo (some p) (log (.callback cb) c))
      ((fun c => leave (behind q c) todo p) <$> callback cb ks c) := by
  rw [← bind_pure (callback cb ks c)]
  exact .bind (ends_calls p ks _) fun c => .of_step (a := .goOn) rfl

/-- A callback through `handler_`. -/
theorem ends_callHandler {task : Task} {cb : Callback μ} {ks : List (HandlerCall μ)} {c : Ctx μ}
    (htask : perform (behind q c) todo task = enter cb todo (behind q c)) :
    Ends (alone s0) (working q (task :: todo) none c)
      (working q todo none <$> callHandler cb ks c) := by
  have hstep : (alone s0).step (working q (task :: todo) none c) .goOn =
      some (enter cb todo (behind q c)) := congrArg some htask
  unfold callHandler
  by_cases hh : c.rpc.handler = true
  · rw [if_pos hh]
    have hs : (alone s0).Step (working q (task :: todo) none c) .goOn
        (working q todo (some .throughHandler) (log (.callback cb) c)) :=
      hstep.trans (congrArg some (if_pos hh))
    exact .step hs (ends_callback .throughHandler cb ks c)
  · rw [if_neg hh]
    exact .of_step (hstep.trans (congrArg some (if_neg hh)))

/-- The read of the next request is started. -/
theorem startRead_working (c : Ctx μ) :
    (setRpcEventState .read true (behind q c) >>= fun c => asyncReaderInterface c >>= fun rw =>
      startVia rw .read c >>= fun c => pure (⟨c, todo, none⟩ : Busy μ)) =
      working q todo none <$> (setRpcEventState .read true c >>= fun c =>
        asyncReaderInterface c >>= fun rw => startVia rw .read c) := by
  let c1 : Ctx μ := { c with rpc := setPending .read true c.rpc }
  show (asyncReaderInterface c1 >>= fun rw => startVia rw .read (behind q c1) >>= fun c =>
    pure (⟨c, todo, none⟩ : Busy μ)) =
      working q todo none <$> (asyncReaderInterface c1 >>= fun rw => startVia rw .read c1)
  cases asyncReaderInterface c1 with
  | error e => rfl
  | ok rw =>
    show (startVia rw .read (behind q c1) >>= _) = working q todo none <$> startVia rw .read c1
    rw [startVia_behind]
    cases startVia rw .read c1 <;> rfl

/-- The events `q` wait in front of the others. -/
def withFront (q : List RpcEvent) (s : Busy μ) : Busy μ := working q s.todo s.inside s.ctx

theorem enter_behind (cb : Callback μ) (c : Ctx μ) :
    enter cb todo (behind q c) = withFront q <$> enter cb todo c := by
  unfold enter
  rw [behind_toCell]
  split_ifs <;> rfl

theorem perform_behind (c : Ctx μ) (task : Task) :
    perform (behind q c) todo task = withFront q <$> perform c todo task := by
  have hread : (setRpcEventState .read true (behind q c) >>= fun c => asyncReaderInterface c >>= fun rw =>
      startVia rw .read c >>= fun c => pure (⟨c, todo, none⟩ : Busy μ)) =
      withFront q <$> (setRpcEventState .read true c >>= fun c => asyncReaderInterface c >>= fun rw =>
        startVia rw .read c >>= fun c => pure (⟨c, todo, none⟩ : Busy μ)) := by
    rw [startRead_working]
    simp only [map_eq_pure_bind, bind_assoc, pure_bind]
    rfl
  cases task with
  | use m => rfl
  | onConnection =>
    rw [perform, perform, behind_toCell]
    split_ifs <;> rfl
  | requestStreamingReadIfNeeded =>
    rw [perform, perform, behind_toCell]
    cases c.rpc.rpcHandlerInfo.rpcType with
    | bidiStreaming => exact hread
    | clientStreaming => exact hread
    | normalRpc => rfl
    | serverStreaming => rfl
  | onRequest => exact enter_behind _ c
  | onReadsDone => exact enter_behind _ c
  | onFinish => exact enter_behind _ c
  | handleSendQueue =>
    rw [perform, perform, handleSendQueue_behind]
    cases handleSendQueue c <;> rfl
  | removeIfNotPending =>
    rw [perform, perform, removeIfNotPending_eq, removeIfNotPending_eq, tidies_behind]
    rfl

/-- What the event thread does next does not depend on the events that wait. -/
theorem alone_withFront (q : List RpcEvent) (s0 s : Busy μ) (a : BusyStep μ) :
    (alone s0).step (withFront q s) a = ((alone s0).step s a).map (withFront q <$> ·) := by
  obtain ⟨c, todo, inside⟩ := s
  cases a with
  | goOn =>
    cases inside with
    | some p => cases p <;> rfl
    | none =>
      cases todo with
      | nil => rfl
      | cons task todo => exact congrArg some (perform_behind c task)
  | call k =>
    cases inside with
    | none => rfl
    | some p =>
      show some (_ <$> handlerCall (behind q c) k) = some (withFront q <$> (_ <$> handlerCall c k))
      rw [handlerCall_behind]
      cases handlerCall c k <;> rfl
  | takeUp => rfl
  | deliver => rfl
  | lockWriter => rfl
  | stepWriter => rfl

/-- `RequestStreamingReadIfNeeded` is one task, or puts the two callbacks of a single request before
the tasks that are left. -/
theorem ends_requestStreamingReadIfNeeded (script : Script μ) (c : Ctx μ) :
    Ends (alone s0) (working q (.requestStreamingReadIfNeeded :: todo) none c)
      (working q todo none <$> requestStreamingReadIfNeeded script c) := by
  have hstep : (alone s0).step (working q (.requestStreamingReadIfNeeded :: todo) none c) .goOn =
      some (perform (behind q c) todo .requestStreamingReadIfNeeded) := rfl
  have hunary : Ends (alone s0) (working q (.onRequest :: .onReadsDone :: todo) none c)
      (working q todo none <$> (onRequest script c >>= onReadsDone script)) :=
    .bind (ends_callHandler rfl) fun c => ends_callHandler rfl
  unfold requestStreamingReadIfNeeded
  rw [perform, behind_toCell] at hstep
  cases ht : c.rpc.rpcHandlerInfo.rpcType with
  | bidiStreaming =>
    rw [ht] at hstep
    exact .of_step (hstep.trans (congrArg some (startRead_working c)))
  | clientStreaming =>
    rw [ht] at hstep
    exact .of_step (hstep.trans (congrArg some (startRead_working c)))
  | normalRpc =>
    rw [ht] at hstep
    exact .of_later (.single ⟨_, hstep⟩) hunary
  | serverStreaming =>
    rw [ht] at hstep
    exact .of_later (.single ⟨_, hstep⟩) hunary

/-- `OnConnection`, with the handler factory and `Initialize` in it. -/
theorem ends_onConnection (script : Script μ) (c : Ctx μ) :
    Ends (alone s0)
      (working q (.onConnection :: .requestStreamingReadIfNeeded :: todo) none c)
      (working q todo none <$> onConnection script c) := by
  have hstep : (alone s0).step
      (working q (.onConnection :: .requestStreamingReadIfNeeded :: todo) none c) .goOn =
      some (perform (behind q c) (.requestStreamingReadIfNeeded :: todo) .onConnection) := rfl
  rw [perform, behind_toCell] at hstep
  unfold onConnection
  dsimp only
  by_cases hh : c.rpc.handler = true
  · rw [if_pos hh] at hstep ⊢
    exact .of_later (.single ⟨_, hstep⟩) (ends_requestStreamingReadIfNeeded script c)
  · rw [if_neg hh] at hstep ⊢
    refine .of_later (.single ⟨_, hstep⟩) ?_
    exact .bind (ends_callback .initializeHandler _ _ c) fun c =>
      ends_requestStreamingReadIfNeeded script _

theorem ends_handleSendQueue (c : Ctx μ) :
    Ends (alone s0) (working q (.handleSendQueue :: todo) none c)
      (working q todo none <$> handleSendQueue c) := by
  refine .of_step (a := .goOn) ?_
  show some (perform (behind q c) todo .handleSendQueue) = _
  rw [perform, handleSendQueue_behind]
  cases handleSendQueue c <;> rfl

theorem ends_removeIfNotPending (c : Ctx μ) :
    Ends (alone s0) (working q (.removeIfNotPending :: todo) none c)
      (working q todo none <$> removeIfNotPending c) := by
  refine .of_step (a := .goOn) ?_
  show some (perform (behind q c) todo .removeIfNotPending) = _
  rw [perform, removeIfNotPending_eq, removeIfNotPending_eq, tidies_behind]
  rfl

/-! ### The events -/

theorem takeUp_behind (sd : Bool) (e : RpcEvent) (c : Ctx μ) :
    takeUp sd e (behind q c) = (behind q (takeUp sd e c).1, (takeUp sd e c).2) := by
  cases e with
  | completion t =>
    show completionTasks sd t (c.rpc.events t).ok (behind q (pops t c)) =
      (behind q (completionTasks sd t (c.rpc.events t).ok (pops t c)).1,
        (completionTasks sd t (c.rpc.events t).ok (pops t c)).2)
    cases t with
    | newConnection =>
      unfold completionTasks
      rw [remove_behind]
      dsimp only
      split_ifs <;> rfl
    | read =>
      unfold completionTasks
      dsimp only
      split_ifs <;> rfl
    | write => rfl
    | finish => rfl
    | done => rfl
  | writeNeeded =>
    unfold takeUp
    rw [behind_toCell]
    dsimp only
    split_ifs <;> rfl

theorem ends_handleNewConnection (sd ok : Bool) (script : Script μ) (c : Ctx μ) :
    Ends (alone s0)
      (working q (completionTasks sd .newConnection ok c).2 none
        (completionTasks sd .newConnection ok c).1)
      ((fun r => working q [] none r.1) <$> handleNewConnection sd ok script c) := by
  unfold completionTasks handleNewConnection
  cases sd with
  | true => exact .refl _
  | false =>
    cases ok with
    | false => exact ends_use .clone _ (.refl _)
    | true =>
      refine ends_use .onConnection c ?_
      exact .bind (ends_onConnection script _) fun c => ends_use .clone c (.refl _)

theorem ends_handleRead (sd ok : Bool) (script : Script μ) (c : Ctx μ) :
    Ends (alone s0)
      (working q (completionTasks sd .read ok c).2 none (completionTasks sd .read ok c).1)
      (working q [] none <$> handleRead ok script c) := by
  unfold completionTasks handleRead
  cases ok with
  | true =>
    refine ends_use .onRequest c ?_
    refine .bind (ends_callHandler rfl) fun c => ?_
    exact ends_use .requestStreamingReadIfNeeded c (ends_requestStreamingReadIfNeeded script _)
  | false =>
    refine ends_use .onReadsDone c ?_
    exact .bind (ends_callHandler rfl) fun c => ends_removeIfNotPending c

theorem ends_handleWrite (ok : Bool) (c : Ctx μ) :
    Ends (alone s0) (working q writeTasks none c) (working q [] none <$> handleWrite ok c) := by
  refine ends_use .handleSendQueue c ?_
  exact .bind (ends_handleSendQueue _) fun c => ends_removeIfNotPending c

theorem ends_handleFinish (ok : Bool) (script : Script μ) (c : Ctx μ) :
    Ends (alone s0) (working q [.use .onFinish, .onFinish, .removeIfNotPending] none c)
      (working q [] none <$> handleFinish ok script c) := by
  refine ends_use .onFinish c ?_
  exact .bind (ends_callHandler rfl) fun c => ends_removeIfNotPending c

/-- `EventBase::Handle`, from the event being taken up on. -/
theorem ends_handle (sd : Bool) (e : RpcEvent) (script : Script μ) (c : Ctx μ) :
    Ends (alone s0) (working q (takeUp sd e c).2 none (takeUp sd e c).1)
      ((fun r => working q [] none r.1) <$> handle sd e script c) := by
  have hpair (x : Except Fatal (Ctx μ)) :
      (fun r : Ctx μ × Option (Rpc μ) => working q [] none r.1) <$> ((·, none) <$> x) =
        working q [] none <$> x := by
    cases x <;> rfl
  cases e with
  | completion t =>
    cases t with
    | newConnection => exact ends_handleNewConnection sd _ script (pops .newConnection c)
    | read => exact (congrArg (Ends _ _) (hpair _)).mpr (ends_handleRead sd _ script (pops .read c))
    | write => exact (congrArg (Ends _ _) (hpair _)).mpr (ends_handleWrite _ (pops .write c))
    | finish => exact (congrArg (Ends _ _) (hpair _)).mpr (ends_handleFinish _ script (pops .finish c))
    | done => exact (congrArg (Ends _ _) (hpair _)).mpr (ends_removeIfNotPending (pops .done c))
  | writeNeeded =>
    show Ends _ (working q (if c.alive = true then _ else _ : Ctx μ × List Task).2 none
      (if c.alive = true then _ else _ : Ctx μ × List Task).1) (_ <$> handleInternal sd script c)
    unfold handleInternal
    split_ifs
    · exact (congrArg (Ends _ _) (hpair _)).mpr (ends_handleWrite _ (wakes c))
    · exact .refl _

/-- What the event thread does alone, it can do with the other threads there. -/
theorem ends_of_alone (s0 : Busy μ) {s : Busy μ} {r : Except Fatal (Busy μ)}
    (h : Ends (alone s0) s r) : Ends (interleaved l0) s r := by
  have hmap : Ends (interleaved l0) (id s) (id <$> r) := by
    refine h.map (I := fun _ => True) (fun _ _ _ _ _ => trivial) (fun s a x _ hx => ⟨a, ?_⟩) trivial
    rw [id_map]
    cases a with
    | goOn => exact hx
    | call k => exact hx
    | takeUp => cases hx
    | deliver => cases hx
    | lockWriter => cases hx
    | stepWriter => cases hx
  rwa [id_map] at hmap

/-- The steps of the other threads. -/
def otherStep : BusyStep μ → Option (Step μ)
  | .deliver t ok m => some (.deliver t ok m)
  | .lockWriter w => some (.lockWriter w)
  | .stepWriter i => some (.stepWriter i)
  | _ => none

/-- The other threads do the same whatever the event thread is at. -/
theorem step_other {a : BusyStep μ} {inside : Option Inside} {x : Except Fatal (Conn μ)}
    (hb : otherStep a = some b) (h : l.step b = some x) :
    (⟨⟨l.cell, l.inbox⟩, todo, inside⟩ : Busy μ).step a =
      some ((fun l' => ⟨⟨l'.cell, l'.inbox⟩, todo, inside⟩) <$> x) := by
  cases a with
  | takeUp => cases hb
  | goOn => cases hb
  | call => cases hb
  | deliver t ok m =>
    cases hb
    rw [Conn.step] at h
    split_ifs at h with hd
    cases h
    exact if_pos hd
  | lockWriter w =>
    cases hb
    rw [Conn.step] at h
    split_ifs at h with hw
    cases h
    exact if_pos hw
  | stepWriter i =>
    cases hb
    rw [Conn.step] at h
    split at h
    · next k hk =>
      split_ifs at h with hholds
      cases h
      have hctx : (⟨l.cell, l.inbox⟩ : Ctx μ) = behind l.inbox ⟨l.cell, []⟩ := by simp [behind]
      rw [Busy.step]
      simp only [hk, hholds, if_true]
      rw [hctx, stepWriter_behind]
      cases stepWriter i k ⟨l.cell, []⟩ <;> rfl
    · cases h

theorem step_takeUp (cell : Cell μ) (e : RpcEvent) (rest : List RpcEvent) (sd : Bool) :
    (idle ⟨cell, e :: rest⟩).step (.takeUp sd) =
      some (.ok (working rest (takeUp sd e ⟨cell, []⟩).2 none (takeUp sd e ⟨cell, []⟩).1)) := by
  have hctx : (⟨cell, rest⟩ : Ctx μ) = behind rest ⟨cell, []⟩ := by simp [behind]
  show some (Except.ok (⟨(takeUp sd e ⟨cell, rest⟩).1, (takeUp sd e ⟨cell, rest⟩).2, none⟩ : Busy μ)) = _
  rw [hctx, takeUp_behind]
  rfl

/-- **A step that handles an event in one go can be taken step by step**, with the same result or the
same failure, and every other step is a step. -/
theorem ends_of_step {r : Except Fatal (Conn μ)} (h : l.step b = some r) :
    Ends (interleaved l0) (idle l) (idle <$> r) := by
  cases b with
  | deliver t ok m => exact .of_step (a := .deliver t ok m) (step_other rfl h)
  | handle sd script =>
    obtain ⟨cell, inbox⟩ := l
    cases inbox with
    | nil => cases h
    | cons e rest =>
      cases h
      have hs : (interleaved l0).Step (idle ⟨cell, e :: rest⟩) (.takeUp sd)
          (working rest (takeUp sd e ⟨cell, []⟩).2 none (takeUp sd e ⟨cell, []⟩).1) :=
        step_takeUp cell e rest sd
      have hr : idle <$> ((ofCtx rest ·.1) <$> handle sd e script ⟨cell, []⟩) =
          (fun r => working rest [] none r.1) <$> handle sd e script ⟨cell, []⟩ := by
        cases handle sd e script ⟨cell, []⟩ <;> rfl
      exact hr ▸ .step hs (ends_of_alone (idle l0) (ends_handle sd e script ⟨cell, []⟩))
  | lockWriter w => exact .of_step (a := .lockWriter w) (step_other rfl h)
  | stepWriter i => exact .of_step (a := .stepWriter i) (step_other rfl h)

/-- What an `Rpc` can come to when its events are handled in one go, it can come to here. -/
theorem reachable_of_walk {Q : Conn μ → Step μ → Prop} (h : Walks Q l) :
    ∃ l0, Fresh l0 ∧ Reachable (interleaved l0) (idle l) := by
  induction h with
  | @fresh l hf => exact ⟨l, hf, Run.init.reachable⟩
  | step _ _ hs ih =>
    obtain ⟨l0, hf, hr⟩ := ih
    exact ⟨l0, hf, hr.later (ends_of_step hs)⟩

end AsyncGrpc.Single.Interleaving
