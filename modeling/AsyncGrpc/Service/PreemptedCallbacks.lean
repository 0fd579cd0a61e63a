import Mathlib.Data.List.Infix
import AsyncGrpc.Service.Callbacks
import AsyncGrpc.Service.Preemption

/-! # Callbacks and buffers while all threads are at work

`Service.Callbacks` and `Single.Buffers` see an `Rpc` between two events. Here the event thread may be
anywhere in the handling of an event, so that some callbacks of the event have been made and others are
still due. `talk` puts the two together, and `Talking` says what it looks like at every point.

* `preempted_callbacks`: the callbacks made and those still due follow the protocol, with the messages
  that gRPC delivered.
* `preempted_buffers`: gRPC has `response_` and `request_` to itself while it uses them. -/

namespace AsyncGrpc.Service.PreemptedCallbacks

open AsyncGrpc.Lib.Runs AsyncGrpc.Lib.Histories
open AsyncGrpc.Model.Types AsyncGrpc.Model.Rpc AsyncGrpc.Model.Service
open AsyncGrpc.Model.Server AsyncGrpc.Server.EventThreads
open AsyncGrpc.Single.Machine AsyncGrpc.Single.Moves
open AsyncGrpc.Single.Lifecycle AsyncGrpc.Single.Ledger AsyncGrpc.Single.Buffers
open AsyncGrpc.Single.EventThread AsyncGrpc.Single.Interleaving AsyncGrpc.Single.Tasks
open AsyncGrpc.Single.Threads
open AsyncGrpc.Service.Callbacks AsyncGrpc.Service.Preemption
open AsyncGrpc.Service.Wakeups (started_finish_of_pending)

variable {μ : Type} {cfg : Config} {s s' : Busy μ} {a : BusyStep μ} {c c' : Ctx μ} {l0 : Conn μ}

/-! ### What is left to do for an event -/

/-- The tasks of each kind of event, where requests are streamed or not. -/
def agendas (streaming : Bool) : List (List Task) :=
  [[.use .onConnection, .onConnection, .requestStreamingReadIfNeeded, .use .clone], writeTasks,
    [.use .onFinish, .onFinish, .removeIfNotPending]] ++
  if streaming then
    [[.use .onRequest, .onRequest, .use .requestStreamingReadIfNeeded, .requestStreamingReadIfNeeded],
      [.use .onReadsDone, .onReadsDone, .removeIfNotPending]]
  else [[.onRequest, .onReadsDone, .use .clone]]

/-- The tasks are what is left of an event. -/
def Agenda (streaming : Bool) (todo : List Task) : Prop := todo ∈ (agendas streaming).flatMap List.tails

instance instDecidableAgenda (streaming : Bool) (todo : List Task) : Decidable (Agenda streaming todo) :=
  inferInstanceAs (Decidable (todo ∈ (agendas streaming).flatMap List.tails))

section Agendas
variable {streaming : Bool} {todo : List Task} {task : Task}

theorem Agenda.tail (h : Agenda streaming (task :: todo)) : Agenda streaming todo := by
  obtain ⟨full, hfull, hs⟩ := List.mem_flatMap.mp h
  refine List.mem_flatMap.mpr ⟨full, hfull, ?_⟩
  rw [List.mem_tails] at hs ⊢
  exact (List.suffix_cons _ _).trans hs

/-- `OnConnection` is there once, and no callback comes before it. -/
theorem Agenda.onConnection (h : Agenda streaming (.onConnection :: todo)) : .onConnection ∉ todo := by
  have hall : ∀ streaming, ∀ l ∈ (agendas streaming).flatMap List.tails,
      l.head? = some .onConnection → Task.onConnection ∉ l.tail := by decide
  exact hall streaming _ h rfl

/-- The request of a stream is passed on before the next one is read. -/
theorem Agenda.reads (h : Agenda true todo) (hm : .onRequest ∈ todo) :
    .requestStreamingReadIfNeeded ∈ todo := by
  have hall : ∀ l ∈ (agendas true).flatMap List.tails,
      Task.onRequest ∈ l → Task.requestStreamingReadIfNeeded ∈ l := by decide
  exact hall _ h hm

/-- Where requests are streamed, reading the next one is the last thing that concerns the handler. -/
theorem Agenda.last (h : Agenda true (.requestStreamingReadIfNeeded :: todo)) :
    todo = [] ∨ todo = [.use .clone] := by
  have hall : ∀ l ∈ (agendas true).flatMap List.tails,
      l.head? = some .requestStreamingReadIfNeeded → l.tail = [] ∨ l.tail = [.use .clone] := by decide
  exact hall _ h rfl

theorem Agenda.unary (h : Agenda false (.requestStreamingReadIfNeeded :: todo)) :
    Agenda false (.onRequest :: .onReadsDone :: todo) := by
  have hall : ∀ l ∈ (agendas false).flatMap List.tails, l.head? = some .requestStreamingReadIfNeeded →
      .onRequest :: .onReadsDone :: l.tail ∈ (agendas false).flatMap List.tails := by decide
  exact hall _ h rfl

/-- No read is pending while the next one is still to be started. -/
theorem reading_of_ready {handler reading : Bool} (h : ready todo handler reading = true)
    (hm : .requestStreamingReadIfNeeded ∈ todo) : reading = false := by
  induction todo generalizing handler with
  | nil => cases hm
  | cons task todo ih =>
    by_cases ht : task = .requestStreamingReadIfNeeded
    · subst ht
      simp only [ready, Bool.and_eq_true, Bool.not_eq_true'] at h
      exact h.1.1.2
    · have hm' := (List.mem_cons.mp hm).resolve_left (Ne.symm ht)
      cases task with
      | use => exact ih h hm'
      | onConnection => exact ih h hm'
      | requestStreamingReadIfNeeded => exact absurd rfl ht
      | onRequest => exact ih (Bool.and_eq_true_iff.mp h).2 hm'
      | onReadsDone => exact ih (Bool.and_eq_true_iff.mp h).2 hm'
      | onFinish => exact ih (Bool.and_eq_true_iff.mp h).2 hm'
      | handleSendQueue => exact ih h hm'
      | removeIfNotPending =>
        have hnil : todo = [] := List.isEmpty_iff.mp h
        rw [hnil] at hm'
        cases hm'

end Agendas

/-! ### Callbacks made and callbacks due -/

/-- The callbacks that a task leads to, `OnFinish` apart. -/
def dueOf (rpc : Rpc μ) : Task → List (Act μ)
  | .onConnection => [.callback .initializeHandler]
  | .requestStreamingReadIfNeeded =>
    if requestStreaming rpc.rpcHandlerInfo.rpcType then []
    else [.callback (.onRequest rpc.request), .callback .onReadsDone]
  | .onRequest => [.callback (.onRequest rpc.request)]
  | .onReadsDone => [.callback .onReadsDone]
  | _ => []

/-- The callbacks that the event thread has yet to make for its event. -/
def due (s : Busy μ) : List (Act μ) := s.todo.flatMap (dueOf s.ctx.rpc)

/-- The conversation with the handler, up to the end of the event. -/
def talk (s : Busy μ) : List (Act μ) := conversation s.ctx.history ++ due s

/-- Requests are streamed. -/
def streams (s : Busy μ) : Bool := requestStreaming s.ctx.rpc.rpcHandlerInfo.rpcType

/-- There is a handler, or there will be one when the event thread gets to `OnConnection`. -/
def opened (s : Busy μ) : Bool := handles s || decide (.onConnection ∈ s.todo)

/-- The conversation at any point of the handling of an event. Once the reads have failed, no other is
started. -/
structure Talking (s : Busy μ) : Prop where
  agenda : Agenda (streams s) s.todo
  connecting : .onConnection ∈ s.todo → handles s = false
  asked : Asked s.ctx.toCell
  silent : opened s = false → talk s = [] ∧ received s.ctx.history = []
  unary : opened s = true → streams s = false → ∃ m, requested s.ctx.history = [m] ∧
    talk s = [.callback .initializeHandler, .callback (.onRequest (some m)), .callback .onReadsDone]
  streaming : opened s = true → streams s = true → ∃ ms done,
    talk s = .callback .initializeHandler :: (streamed ms ++ ended done) ∧
      (received s.ctx.history).map some = ms ++ waitingRequest (seen s) ∧
      (done = true → (s.ctx.rpc.events .read).pending = false ∧ .requestStreamingReadIfNeeded ∉ s.todo)

/-- The entry is neither a completion nor the beginning of an event. -/
def within : Act μ → Bool
  | .deliver .. | .handle .. => false
  | _ => true

/-- What happens to an `Rpc` between the beginning of one event and that of the next, completions
apart. -/
structure Onward (c c' : Ctx μ) (acts : List (Act μ)) : Prop where
  history : c'.history = c.history ++ acts
  acts : ∀ a ∈ acts, within a = true
  request : c'.rpc.request = c.rpc.request
  info : c'.rpc.rpcHandlerInfo = c.rpc.rpcHandlerInfo
  accepted : c'.accepted = c.accepted
  oks : ∀ t, (c'.rpc.events t).ok = (c.rpc.events t).ok
  inbox : ∀ t, .completion t ∈ c'.outbox ↔ .completion t ∈ c.outbox

section Onward
variable {acts : List (Act μ)}

theorem dueOf_congr {rpc rpc' : Rpc μ} (hreq : rpc'.request = rpc.request)
    (hinfo : rpc'.rpcHandlerInfo = rpc.rpcHandlerInfo) : dueOf rpc' = dueOf rpc := by
  funext task
  cases task <;> simp [dueOf, hreq, hinfo]

theorem Onward.observe {β : Type} {f : Act μ → Option β} (h : Onward c c' acts)
    (hf : ∀ a, within a = true → f a = none) : c'.history.filterMap f = c.history.filterMap f := by
  have hnil : acts.filterMap f = [] := List.filterMap_eq_nil_iff.mpr fun a ha => hf a (h.acts a ha)
  rw [h.history, List.filterMap_append, hnil, List.append_nil]

theorem Onward.requested (h : Onward c c' acts) : requested c'.history = requested c.history :=
  h.observe fun a ha => by cases a <;> simp_all [within, requestedAct]

theorem Onward.received (h : Onward c c' acts) : received c'.history = received c.history :=
  h.observe fun a ha => by cases a <;> simp_all [within, receivedAct]

theorem Onward.waiting (h : Onward c c' acts) :
    waitingRequest (ofCtx [] c') = waitingRequest (ofCtx [] c) := by
  refine if_congr (and_congr ?_ ?_) (congrArg (fun m => [m]) h.request) rfl
  · simpa [ofCtx] using h.inbox .read
  · rw [ofCtx, ofCtx, h.oks]

theorem Onward.asked (h : Onward c c' acts) (ha : Asked c.toCell)
    (hh : c'.rpc.handler = false → c.rpc.handler = false) : Asked c'.toCell :=
  ha.of_eq h.accepted h.requested h.info fun hf => ⟨hh hf, h.request⟩

theorem onward_refl (c : Ctx μ) : Onward c c [] :=
  ⟨(List.append_nil _).symm, by simp, rfl, rfl, rfl, fun _ => rfl, fun _ => Iff.rfl⟩

theorem onward_log (c : Ctx μ) {act : Act μ} (h : within act = true) : Onward c (log act c) [act] :=
  ⟨rfl, by simpa using h, rfl, rfl, rfl, fun _ => rfl, fun _ => Iff.rfl⟩

theorem ok_setPending (t t' : Tag) (p : Bool) (rpc : Rpc μ) :
    ((setPending t p rpc).events t').ok = (rpc.events t').ok := by
  by_cases ht : t' = t
  · subst ht
    simp [setPending]
  · simp [setPending, Function.update_of_ne ht]

theorem onward_begins (op : Op μ) (c : Ctx μ) : Onward c (begins op c) [.start op] :=
  ⟨begins_history c op, by simp [within], rfl, rfl, rfl, fun _ => ok_setPending _ _ _ _, fun _ => Iff.rfl⟩

theorem onward_quiet (hq : Quiet c c') (hacc : c'.accepted = c.accepted) :
    ∃ acts, Onward c c' acts ∧ conversation acts = [] := by
  obtain ⟨acts, h1, h2, -⟩ := hq.history
  refine ⟨acts, ⟨h1, fun a ha => ?_, by rw [hq.rpc], by rw [hq.rpc], hacc, fun _ => by rw [hq.rpc],
    fun _ => by rw [hq.outbox]⟩, List.filterMap_eq_nil_iff.mpr fun a ha => ?_⟩
  · have hs := h2 a ha
    cases a <;> simp_all [silent, within]
  · have hs := h2 a ha
    cases a <;> simp_all [silent, conversationAct]

theorem onward_issues (item : SendItem μ) (rest : List (SendItem μ)) (c : Ctx μ) :
    Onward c (issues item rest c) (issueActs c.rpc.rpcHandlerInfo.rpcType item) := by
  refine ⟨issues_history _ _ _, fun a ha => ?_, ?_, ?_, ?_, fun t => ?_, fun t => ?_⟩
  · unfold issueActs responseActs at ha
    split_ifs at ha <;> simp at ha <;> rcases ha with rfl | rfl <;> rfl
  all_goals
    unfold issues begins startOp
    dsimp only
    split_ifs <;> first | rfl | exact ok_setPending _ _ _ _

end Onward

/-! ### The tasks keep the conversation -/

section Performing
variable {task : Task} {todo new : List Task} {inside : Option Inside}

/-- A task makes the callbacks that were due. -/
theorem onward_performed (hp : Performed c task c' new inside)
    (hh : task = .onConnection → c.rpc.handler = false) :
    ∃ acts, Onward c c' acts ∧ conversation acts ++ new.flatMap (dueOf c.rpc) = dueOf c.rpc task := by
  cases hp with
  | used => exact ⟨_, onward_log c rfl, rfl⟩
  | connected h => cases (hh rfl).symm.trans h
  | connecting => exact ⟨_, onward_log c rfl, rfl⟩
  | streaming ht => exact ⟨_, onward_begins .read c, by simp [dueOf, ht, conversation, conversationAct]⟩
  | unary ht => exact ⟨_, onward_refl c, by simp [dueOf, ht, conversation]⟩
  | entered hcb =>
    refine ⟨_, onward_log c rfl, ?_⟩
    cases task <;> cases hcb <;> rfl
  | sent hq =>
    cases hq with
    | idle => exact ⟨_, onward_refl c, rfl⟩
    | @issued item rest =>
      refine ⟨_, onward_issues item rest c, ?_⟩
      show conversation (issueActs _ item) ++ [] = []
      unfold conversation
      rw [observe_issueActs (fun _ => rfl)]
      rfl
  | tidied =>
    obtain ⟨acts, h, hnil⟩ := onward_quiet (quiet_tidies c) (tidies_accepted c)
    exact ⟨acts, h, by rw [hnil]; rfl⟩

theorem performed_handler (hp : Performed c task c' new inside) : c'.rpc.handler = c.rpc.handler := by
  cases hp with
  | sent hq => exact hq.frame.2.1
  | tidied => rw [tidies_rpc]
  | _ => rfl

theorem performed_read (hp : Performed c task c' new inside) (ht : task ≠ .requestStreamingReadIfNeeded) :
    c'.rpc.events .read = c.rpc.events .read := by
  cases hp with
  | streaming => exact absurd rfl ht
  | sent hq => exact hq.events_of_ne (by decide) (by decide)
  | tidied => rw [tidies_rpc]
  | _ => rfl

/-- Only `OnConnection` leads into `Initialize`. -/
theorem performed_inside (hp : Performed c task c' new inside) (ht : task ≠ .onConnection) :
    inside ≠ some .initializeHandler := by
  cases hp with
  | connecting => exact absurd rfl ht
  | _ => simp

theorem performed_onConnection (hp : Performed c .onConnection c' new inside)
    (hh : c.rpc.handler = false) : inside = some .initializeHandler := by
  cases hp with
  | connected h => cases hh.symm.trans h
  | connecting => rfl
  | entered hcb => cases hcb

theorem performed_new (hp : Performed c task c' new inside) :
    .onConnection ∉ new ∧ .requestStreamingReadIfNeeded ∉ new ∧ .onFinish ∉ new := by
  cases hp with
  | unary => exact ⟨by decide, by decide, by decide⟩
  | _ => exact ⟨List.not_mem_nil, List.not_mem_nil, List.not_mem_nil⟩

theorem performed_agenda (hp : Performed c task c' new inside)
    (h : Agenda (requestStreaming c.rpc.rpcHandlerInfo.rpcType) (task :: todo)) :
    Agenda (requestStreaming c.rpc.rpcHandlerInfo.rpcType) (new ++ todo) := by
  cases hp with
  | unary ht =>
    rw [ht] at h ⊢
    exact h.unary
  | _ => exact h.tail

theorem talk_performed (hp : Performed s.ctx task c' new inside) (htodo : s.todo = task :: todo)
    (hh : task = .onConnection → s.ctx.rpc.handler = false) :
    talk ⟨c', new ++ todo, inside⟩ = talk s := by
  obtain ⟨acts, hon, hdue⟩ := onward_performed hp hh
  unfold talk due
  rw [htodo, List.flatMap_cons, List.flatMap_append, dueOf_congr hon.request hon.info, hon.history,
    conversation_append, ← hdue]
  simp only [List.append_assoc]

/-- The task `OnConnection` goes into `Initialize`, and the others leave the handler alone. -/
theorem opened_performed (hp : Performed s.ctx task c' new inside) (htodo : s.todo = task :: todo)
    (hin : s.inside = none) (hh : task = .onConnection → s.ctx.rpc.handler = false) :
    opened ⟨c', new ++ todo, inside⟩ = opened s := by
  by_cases ht : task = .onConnection
  · subst ht
    have hins := performed_onConnection hp (hh rfl)
    simp [opened, handles, hins, htodo]
  · have hiff : .onConnection ∈ new ++ todo ↔ .onConnection ∈ s.todo := by
      rw [htodo, List.mem_append, List.mem_cons]
      exact ⟨fun hm => .inr (hm.resolve_left (performed_new hp).1),
        fun hm => .inr (hm.resolve_left (Ne.symm ht))⟩
    have hne := performed_inside hp ht
    have hhandles : handles (⟨c', new ++ todo, inside⟩ : Busy μ) = handles s := by
      simp [handles, hin, performed_handler hp, hne]
    unfold opened
    rw [hhandles, decide_eq_decide.mpr hiff]

/-- A step that adds nothing to the conversation, made or due. -/
theorem Talking.frame (h : Talking s) (hagenda : Agenda (streams s') s'.todo)
    (hconn : .onConnection ∈ s'.todo → handles s' = false) (hasked : Asked s'.ctx.toCell)
    (hopened : opened s' = opened s) (htalk : talk s' = talk s) (hstreams : streams s' = streams s)
    (hrequested : requested s'.ctx.history = requested s.ctx.history)
    (hreceived : received s'.ctx.history = received s.ctx.history)
    (hwaiting : opened s = true → streams s = true → waitingRequest (seen s') = waitingRequest (seen s))
    (hread : (s'.ctx.rpc.events .read).pending = true ∨ .requestStreamingReadIfNeeded ∈ s'.todo →
      (s.ctx.rpc.events .read).pending = true ∨ .requestStreamingReadIfNeeded ∈ s.todo) : Talking s' := by
  refine ⟨hagenda, hconn, hasked, fun ho => ?_, fun ho ht => ?_, fun ho ht => ?_⟩
  · rw [htalk, hreceived]
    exact h.silent (hopened ▸ ho)
  · rw [htalk, hrequested]
    exact h.unary (hopened ▸ ho) (hstreams ▸ ht)
  · obtain ⟨ms, done, h1, h2, h3⟩ := h.streaming (hopened ▸ ho) (hstreams ▸ ht)
    refine ⟨ms, done, htalk.trans h1, ?_, fun hd => ?_⟩
    · rw [hreceived, h2, hwaiting (hopened ▸ ho) (hstreams ▸ ht)]
    · obtain ⟨h4, h5⟩ := h3 hd
      refine ⟨Bool.eq_false_iff.mpr fun hp => ?_, fun hm => ?_⟩
      · exact (hread (.inl hp)).elim (Bool.eq_false_iff.mp h4) h5
      · exact (hread (.inr hm)).elim (Bool.eq_false_iff.mp h4) h5

theorem Talking.performed (h : Talking s) (htodo : s.todo = task :: todo) (hin : s.inside = none)
    (hp : Performed s.ctx task c' new inside) : Talking ⟨c', new ++ todo, inside⟩ := by
  have hhandles : handles s = s.ctx.rpc.handler := by simp [handles, hin]
  have hh (ht : task = .onConnection) : s.ctx.rpc.handler = false := by
    rw [← hhandles]
    exact h.connecting (by rw [htodo, ht]; exact List.mem_cons_self)
  obtain ⟨acts, hon, -⟩ := onward_performed hp hh
  obtain ⟨hnew1, hnew2, -⟩ := performed_new hp
  have hagenda := h.agenda
  rw [htodo] at hagenda
  have hhandler := performed_handler hp
  have hstreams : streams (⟨c', new ++ todo, inside⟩ : Busy μ) = streams s :=
    congrArg (fun i : RpcHandlerInfo => requestStreaming i.rpcType) hon.info
  have hother (ht : task ≠ .onConnection) : handles (⟨c', new ++ todo, inside⟩ : Busy μ) = handles s := by
    have hne := performed_inside hp ht
    simp [handles, hin, hhandler, hne]
  have hmem (hm : .onConnection ∈ new ++ todo) : .onConnection ∈ todo :=
    (List.mem_append.mp hm).resolve_left hnew1
  refine h.frame ?_ (fun hm => ?_) (hon.asked h.asked fun hf => hhandler.symm.trans hf) ?_
    (talk_performed hp htodo hh) hstreams hon.requested hon.received (fun _ _ => hon.waiting) ?_
  · rw [hstreams]
    exact performed_agenda hp hagenda
  · by_cases ht : task = .onConnection
    · subst ht
      exact absurd (hmem hm) hagenda.onConnection
    · rw [hother ht]
      exact h.connecting (by rw [htodo]; exact List.mem_cons_of_mem _ (hmem hm))
  · exact opened_performed hp htodo hin hh
  · by_cases ht : task = .requestStreamingReadIfNeeded
    · subst ht
      exact fun _ => .inr (by rw [htodo]; exact List.mem_cons_self)
    · rw [performed_read hp ht, htodo]
      exact Or.imp_right fun hm => List.mem_cons_of_mem _ ((List.mem_append.mp hm).resolve_left hnew2)

end Performing

/-! ### Callbacks and other threads -/

section Others
variable {acts : List (Act μ)}

theorem handles_leave {p : Inside} (hin : s.inside = some p) :
    handles (leave s.ctx s.todo p) = handles s := by
  cases p <;> simp [leave, handles, hin]

theorem leave_todo (p : Inside) : (leave s.ctx s.todo p).todo = s.todo := by
  cases p <;> rfl

theorem opened_leave {p : Inside} (hin : s.inside = some p) :
    opened (leave s.ctx s.todo p) = opened s := by
  unfold opened
  rw [handles_leave hin, leave_todo]

theorem Talking.left (h : Talking s) {p : Inside} (hin : s.inside = some p) :
    Talking (leave s.ctx s.todo p) := by
  have hhandles := handles_leave hin
  have htodo := leave_todo (s := s) p
  have hopened := opened_leave hin
  cases p with
  | initializeHandler =>
    refine h.frame h.agenda (hhandles ▸ h.connecting) ?_ hopened ?_ rfl rfl rfl (fun _ _ => rfl) id
    · exact h.asked.of_eq rfl rfl rfl (fun hf => by cases hf)
    · unfold talk due
      rw [dueOf_congr rfl rfl, htodo]
      rfl
  | throughHandler =>
    have hconn : .onConnection ∈ s.todo → handles (leave s.ctx s.todo .throughHandler) = false := by
      rw [hhandles]
      exact h.connecting
    refine h.frame ?_ hconn ?_ hopened ?_ rfl rfl rfl (fun _ _ => rfl) id
    · exact h.agenda
    · exact h.asked
    · rfl

/-- The `Rpc` goes on while the event thread stays where it is. -/
theorem Talking.onward (h : Talking s) (hon : Onward s.ctx c' acts) (hacts : conversation acts = [])
    (hhandler : c'.rpc.handler = s.ctx.rpc.handler)
    (hread : (c'.rpc.events .read).pending = (s.ctx.rpc.events .read).pending) :
    Talking ⟨c', s.todo, s.inside⟩ := by
  have hhandles : handles (⟨c', s.todo, s.inside⟩ : Busy μ) = handles s := by
    unfold handles
    rw [hhandler]
  have hstreams : streams (⟨c', s.todo, s.inside⟩ : Busy μ) = streams s :=
    congrArg (fun i : RpcHandlerInfo => requestStreaming i.rpcType) hon.info
  refine h.frame (hstreams ▸ h.agenda) (hhandles ▸ h.connecting)
    (hon.asked h.asked fun hf => hhandler.symm.trans hf) ?_ ?_ hstreams hon.requested hon.received
    (fun _ _ => hon.waiting) (Or.imp_left fun hp => hread.symm.trans hp)
  · unfold opened
    rw [hhandles]
  · unfold talk due
    rw [dueOf_congr hon.request hon.info, hon.history, conversation_append, hacts, List.append_nil]

theorem onward_sends (items : List (SendItem μ)) (w : Bool) (c : Ctx μ) :
    Onward c { sends items c with writer := w } (sendActs items) := by
  refine ⟨rfl, fun a ha => ?_, rfl, rfl, rfl, fun _ => rfl, fun t => ?_⟩
  · rcases mem_sendActs ha with ⟨item, rfl⟩ | rfl <;> rfl
  · simp [sends]

theorem onward_writerMoved {l : Conn μ} (hw : WriterMoved (seen s) l) :
    ∃ acts, Onward s.ctx ⟨l.cell, l.inbox⟩ acts ∧ conversation acts = [] := by
  obtain ⟨acts, h1, h2⟩ := hw.history
  refine ⟨acts, ⟨h1, fun a ha => ?_, hw.request, hw.info, hw.accepted, fun t => ?_, hw.inbox⟩,
    List.filterMap_eq_nil_iff.mpr fun a ha => ?_⟩
  · have hb := h2 a ha
    cases a <;> simp_all [byWriter, within]
  · exact congrArg (fun e => (e t).ok) hw.events
  · have hb := h2 a ha
    cases a <;> simp_all [byWriter, conversationAct]

/-- Completions of the other tags. -/
theorem Talking.delivered (h : Talking s) {t : Tag} {ok : Bool} {m : μ} (hn : t ≠ .newConnection)
    (hr : t ≠ .read) :
    Talking ⟨⟨deliver t ok m s.ctx.toCell, s.ctx.outbox ++ [.completion t]⟩, s.todo, s.inside⟩ := by
  have hreq : (deliver t ok m s.ctx.toCell).rpc.request = s.ctx.rpc.request := by
    have hst : storesRequest t ok s.ctx.rpc.rpcHandlerInfo.rpcType = false := by
      cases t <;> simp_all [storesRequest]
    simp [deliver, hst]
  have hev : (deliver t ok m s.ctx.toCell).rpc.events .read = s.ctx.rpc.events .read := by
    simp [deliver, Function.update_of_ne (Ne.symm hr)]
  have hobserve {β : Type} {f : Act μ → Option β} (hf : f (.deliver t ok m) = none) :
      (deliver t ok m s.ctx.toCell).history.filterMap f = s.ctx.history.filterMap f := by
    simp [deliver, hf]
  have hrequested : requested (deliver t ok m s.ctx.toCell).history = requested s.ctx.history :=
    hobserve (by cases t <;> simp_all [requestedAct])
  have hreceived : received (deliver t ok m s.ctx.toCell).history = received s.ctx.history :=
    hobserve (by cases t <;> simp_all [receivedAct])
  refine h.frame ?_ ?_ ?_ rfl ?_ rfl hrequested hreceived (fun _ _ => ?_) ?_
  · exact h.agenda
  · exact h.connecting
  · exact h.asked.of_eq (if_neg hn) hrequested rfl fun hf => ⟨hf, hreq⟩
  · unfold talk due conversation
    rw [hobserve rfl, dueOf_congr hreq rfl]
  · refine if_congr (and_congr ?_ ?_) (congrArg (fun m => [m]) hreq) rfl
    · simp [seen, ofCtx, Ne.symm hr]
    · show ((deliver t ok m s.ctx.toCell).rpc.events .read).ok = true ↔ _
      rw [hev]
      rfl
  · rw [hev]
    exact id

/-- While a read is pending, requests are streamed, there is a handler, and the last request has been
passed on. -/
theorem reading (h : Sound s) (ht : Talking s) (hp : (s.ctx.rpc.events .read).pending = true) :
    streams s = true ∧ handles s = true ∧ .onRequest ∉ s.todo := by
  have hhandles := h.stage.handles_of_pending (by decide) (by decide) hp
  cases h.stage with
  | waiting hi hn =>
    cases ((idle_of_waiting hi hn).quiet .read (by decide) (by decide)).symm.trans hp
  | begun hb =>
    have hstreams : streams s = true := hb.reads hp
    refine ⟨hstreams, hhandles, fun hm => ?_⟩
    have hagenda := ht.agenda
    rw [hstreams] at hagenda
    cases (reading_of_ready hb.ready (hagenda.reads hm)).symm.trans hp

/-- The message of a `READ` comes into `request_` when the last one has been passed on. -/
theorem Talking.delivered_read (h : Talking s) (hs : Sound s) {ok : Bool} {m : μ}
    (hd : deliverable .read s.ctx.toCell = true) :
    Talking ⟨⟨deliver .read ok m s.ctx.toCell, s.ctx.outbox ++ [.completion .read]⟩, s.todo,
      s.inside⟩ := by
  obtain ⟨hpend, hno⟩ := hs.tally.of_deliverable hd
  obtain ⟨hstreams, hhandles, hnot⟩ := reading hs h hpend
  have hopened : opened s = true := by simp [opened, hhandles]
  have hnotstreams : ¬ streams s = false := by simp [hstreams]
  have hnowait : waitingRequest (seen s) = [] := if_neg fun hw => hno hw.1
  obtain ⟨ms, done, htalk, hrec, hdone⟩ := h.streaming hopened hstreams
  have hdone' : done = false := Bool.eq_false_iff.mpr fun hd' => by
    cases (hdone hd').1.symm.trans hpend
  have hrequested : requested (deliver .read ok m s.ctx.toCell).history = requested s.ctx.history := by
    simp [deliver, requested, requestedAct]
  refine ⟨h.agenda, h.connecting, ⟨fun hacc => ?_, fun hacc => ?_⟩, fun ho => ?_, fun _ ht => ?_,
    fun _ _ => ⟨ms, done, ?_, ?_, fun hd' => ?_⟩⟩
  · exact hrequested.trans (h.asked.before hacc)
  · obtain ⟨m', h1, -⟩ := h.asked.after hacc
    exact ⟨m', hrequested.trans h1, fun _ ht => absurd ht hnotstreams⟩
  · cases hopened.symm.trans ho
  · exact absurd ht hnotstreams
  · refine Eq.trans ?_ htalk
    unfold talk due
    congr 1
    · simp [deliver, conversation, conversationAct]
    · refine List.flatMap_congr fun task hm => ?_
      cases task with
      | onRequest => exact absurd hm hnot
      | requestStreamingReadIfNeeded =>
        replace hstreams : requestStreaming s.ctx.rpc.rpcHandlerInfo.rpcType = true := hstreams
        simp [dueOf, deliver, hstreams]
      | _ => rfl
  · rw [hnowait, List.append_nil] at hrec
    have hgrow : received (deliver .read ok m s.ctx.toCell).history =
        received s.ctx.history ++ if ok then [m] else [] := by
      cases ok <;> simp [deliver, received, receivedAct]
    have hwait : waitingRequest (seen ⟨⟨deliver .read ok m s.ctx.toCell,
        s.ctx.outbox ++ [.completion .read]⟩, s.todo, s.inside⟩) = if ok then [some m] else [] := by
      cases ok <;> simp [waitingRequest, seen, ofCtx, deliver, storesRequest]
    show (received (deliver .read ok m s.ctx.toCell).history).map some = _
    rw [hgrow, hwait, List.map_append, hrec]
    cases ok <;> rfl
  · cases hdone'.symm.trans hd'

theorem Talking.delivered_newConnection (h : Talking s) (hs : Sound s) {ok : Bool} {m : μ}
    (hd : deliverable .newConnection s.ctx.toCell = true) :
    Talking ⟨⟨deliver .newConnection ok m s.ctx.toCell, s.ctx.outbox ++ [.completion .newConnection]⟩,
      s.todo, s.inside⟩ := by
  obtain ⟨hpend, -⟩ := hs.tally.of_deliverable hd
  cases hs.stage with
  | begun hb => cases hb.settled.symm.trans hpend
  | waiting hi hn htodo hin =>
    have hidle := idle_of_waiting hi hn
    have hopened : opened s = false := by
      have hh : s.ctx.rpc.handler = false := hidle.handler
      simp [opened, handles, hin, htodo, hh]
    obtain ⟨htalk, hrec⟩ := h.silent hopened
    refine ⟨h.agenda, h.connecting, asked_delivered h.asked hi hd, fun _ => ⟨?_, ?_⟩, fun ho => ?_,
      fun ho => ?_⟩
    · unfold talk due at htalk ⊢
      rw [htodo] at htalk ⊢
      simpa [deliver, conversation, conversationAct] using htalk
    · refine Eq.trans ?_ hrec
      simp [deliver, received, receivedAct]
    · cases hopened.symm.trans ho
    · cases hopened.symm.trans ho

theorem Talking.other (h : Talking s) (hs : Sound s) {b : Step μ} {l : Conn μ}
    (hb : ∀ sd script, b ≠ .handle sd script) (hm : Moved (seen s) b l) :
    Talking ⟨⟨l.cell, l.inbox⟩, s.todo, s.inside⟩ := by
  have hwriter (hw : WriterMoved (seen s) l) : Talking ⟨⟨l.cell, l.inbox⟩, s.todo, s.inside⟩ := by
    obtain ⟨acts, hon, hacts⟩ := onward_writerMoved hw
    exact h.onward hon hacts hw.handler (congrArg (fun e => (e .read).pending) hw.events)
  cases hm.kind with
  | @delivered t ok m hd =>
    by_cases hn : t = .newConnection
    · subst hn
      exact h.delivered_newConnection hs hd
    · by_cases hr : t = .read
      · subst hr
        exact h.delivered_read hs hd
      · exact h.delivered hn hr
  | handled => exact absurd rfl (hb _ _)
  | locked hw => exact hwriter hw
  | stepped hw => exact hwriter hw

end Others

/-! ### The beginning of an event -/

section Beginning
variable {sd : Bool} {rest : List RpcEvent} {todo : List Task}

theorem plain_of_silent {a : Act μ} (h : silent a = true) :
    conversationAct a = none ∧ requestedAct a = none ∧ receivedAct a = none := by
  cases a with
  | use => exact ⟨rfl, rfl, rfl⟩
  | wake => exact ⟨rfl, rfl, rfl⟩
  | remove => exact ⟨rfl, rfl, rfl⟩
  | _ => cases h

theorem talk_of_nil (htodo : s.todo = []) : talk s = conversation s.ctx.history := by
  simp [talk, due, htodo]

theorem opened_of_nil (htodo : s.todo = []) (hin : s.inside = none) : opened s = s.ctx.rpc.handler := by
  simp [opened, handles, htodo, hin]

/-- An event with which the handler has nothing to do, or only in `OnFinish`. -/
theorem Talking.neutral (h : Talking s) (htodo : s.todo = []) (hin : s.inside = none)
    (acts : List (Act μ)) (hhistory : c'.history = s.ctx.history ++ acts)
    (hacts : ∀ a ∈ acts, conversationAct a = none ∧ requestedAct a = none ∧ receivedAct a = none)
    (hrequest : c'.rpc.request = s.ctx.rpc.request)
    (hinfo : c'.rpc.rpcHandlerInfo = s.ctx.rpc.rpcHandlerInfo)
    (hhandler : c'.rpc.handler = s.ctx.rpc.handler) (hacc : c'.accepted = s.ctx.accepted)
    (hread : c'.rpc.events .read = s.ctx.rpc.events .read)
    (hinbox : .completion .read ∈ c'.outbox ↔ .completion .read ∈ s.ctx.outbox)
    (hagenda : Agenda (streams s) todo)
    (hdue : ∀ task ∈ todo, dueOf s.ctx.rpc task = [] ∧ task ≠ .onConnection ∧
      task ≠ .requestStreamingReadIfNeeded) : Talking ⟨c', todo, none⟩ := by
  have hobserve {β : Type} {f : Act μ → Option β} (hf : ∀ a ∈ acts, f a = none) :
      c'.history.filterMap f = s.ctx.history.filterMap f := by
    rw [hhistory, List.filterMap_append, List.filterMap_eq_nil_iff.mpr hf, List.append_nil]
  have hconn : .onConnection ∉ todo := fun hm => (hdue _ hm).2.1 rfl
  have hstreams : streams (⟨c', todo, none⟩ : Busy μ) = streams s :=
    congrArg (fun i : RpcHandlerInfo => requestStreaming i.rpcType) hinfo
  have hrequested : requested c'.history = requested s.ctx.history := hobserve fun a ha => (hacts a ha).2.1
  refine h.frame (hstreams ▸ hagenda) (fun hm => absurd hm hconn) ?_ ?_ ?_ hstreams hrequested
    (hobserve fun a ha => (hacts a ha).2.2) (fun _ _ => ?_) ?_
  · exact h.asked.of_eq hacc hrequested hinfo fun hf => ⟨hhandler.symm.trans hf, hrequest⟩
  · rw [opened_of_nil htodo hin]
    simp [opened, handles, hconn, hhandler]
  · rw [talk_of_nil htodo]
    have hnil : due (⟨c', todo, none⟩ : Busy μ) = [] := by
      unfold due
      rw [dueOf_congr hrequest hinfo, List.flatMap_eq_nil_iff]
      exact fun task hm => (hdue task hm).1
    unfold talk
    rw [hnil, List.append_nil]
    exact hobserve fun a ha => (hacts a ha).1
  · refine if_congr (and_congr ?_ ?_) (congrArg (fun m => [m]) hrequest) rfl
    · simpa [seen, ofCtx] using hinbox
    · show (c'.rpc.events .read).ok = true ↔ _
      rw [hread]
      rfl
  · rintro (hp | hm)
    · exact .inl (hread ▸ hp)
    · exact absurd rfl (hdue _ hm).2.2

theorem requested_pops (t : Tag) (c : Ctx μ) : requested (pops t c).history = requested c.history := by
  rw [pops_history]
  simp [requested, requestedAct, List.filterMap_cons]

theorem received_pops (t : Tag) (c : Ctx μ) : received (pops t c).history = received c.history := by
  rw [pops_history]
  simp [received, receivedAct, List.filterMap_cons]

theorem head_mem_inbox {e : RpcEvent} (hout : s.ctx.outbox = e :: rest) : e ∈ (seen s).inbox := by
  show e ∈ s.ctx.outbox
  rw [hout]
  exact List.mem_cons_self

theorem mem_rest {e : RpcEvent} (hout : s.ctx.outbox = e :: rest) (he : e ≠ .completion .read) :
    .completion .read ∈ rest ↔ .completion .read ∈ s.ctx.outbox := by
  rw [hout, List.mem_cons]
  exact ⟨.inr, fun h => h.resolve_left he.symm⟩

/-- A `READ` is taken up: its message is passed on, or the reads are done. -/
theorem Talking.takenUp_read (h : Talking s) (hs : Sound s)
    (hout : s.ctx.outbox = .completion .read :: rest) (htodo : s.todo = []) (hin : s.inside = none) :
    Talking ⟨(completionTasks sd .read (s.ctx.rpc.events .read).ok
        (pops .read { s.ctx with outbox := rest })).1,
      (completionTasks sd .read (s.ctx.rpc.events .read).ok (pops .read { s.ctx with outbox := rest })).2,
      none⟩ := by
  have hmem := head_mem_inbox hout
  obtain ⟨hpend, -, hcount⟩ := hs.tally.of_mem hmem
  obtain ⟨hstreams, hhandles, -⟩ := reading hs h hpend
  have hno : .completion .read ∉ rest := by
    replace hcount : s.ctx.outbox.count (.completion .read) = 1 := hcount
    rw [hout, List.count_cons_self] at hcount
    exact List.count_eq_zero.mp (by omega)
  have hopened : opened s = true := by simp [opened, hhandles]
  obtain ⟨ms, done, htalk, hrec, hdone⟩ := h.streaming hopened hstreams
  obtain rfl : done = false := Bool.eq_false_iff.mpr fun hd => by cases (hdone hd).1.symm.trans hpend
  rw [talk_of_nil htodo] at htalk
  have hhandler : s.ctx.rpc.handler = true := by
    rw [← opened_of_nil htodo hin]
    exact hopened
  let c1 : Ctx μ := pops .read { s.ctx with outbox := rest }
  have hconv : conversation c1.history =
      conversation s.ctx.history ++ [.handle .read (s.ctx.rpc.events .read).ok] :=
    conversation_pops .read { s.ctx with outbox := rest }
  have hrequested : requested c1.history = requested s.ctx.history := requested_pops _ _
  have hreceived : received c1.history = received s.ctx.history := received_pops _ _
  have hwait (todo : List Task) : waitingRequest (seen ⟨c1, todo, none⟩) = [] := if_neg fun hw => hno hw.1
  have hasked : Asked c1.toCell := h.asked.of_eq rfl hrequested rfl fun hf => ⟨hf, rfl⟩
  -- What is the same in both cases.
  have hbegin {todo : List Task} (hagenda : Agenda true todo) (hconn : .onConnection ∉ todo)
      (hnext : ∃ ms done, talk (⟨c1, todo, none⟩ : Busy μ) =
          .callback .initializeHandler :: (streamed ms ++ ended done) ∧
        (received s.ctx.history).map some = ms ∧
        (done = true → .requestStreamingReadIfNeeded ∉ todo)) : Talking ⟨c1, todo, none⟩ := by
    have hstreams' : streams (⟨c1, todo, none⟩ : Busy μ) = true := hstreams
    refine ⟨by rw [hstreams']; exact hagenda, fun hm => absurd hm hconn, hasked, fun ho => ?_,
      fun _ ht => ?_, fun _ _ => ?_⟩
    · simp [opened, handles, show c1.rpc.handler = true from hhandler] at ho
    · cases hstreams'.symm.trans ht
    · obtain ⟨ms', done', h1, h2, h3⟩ := hnext
      refine ⟨ms', done', h1, ?_, fun hd => ⟨pops_pending_self _ _, h3 hd⟩⟩
      show (received c1.history).map some = _
      rw [hwait, hreceived, h2, List.append_nil]
  replace hstreams : requestStreaming s.ctx.rpc.rpcHandlerInfo.rpcType = true := hstreams
  cases hok : (s.ctx.rpc.events .read).ok with
  | true =>
    show Talking ⟨c1, [.use .onRequest, .onRequest, .use .requestStreamingReadIfNeeded,
      .requestStreamingReadIfNeeded], none⟩
    refine hbegin (by decide) (by decide) ⟨ms ++ [s.ctx.rpc.request], false, ?_, ?_, fun hd => by cases hd⟩
    · unfold talk
      rw [hconv, htalk, hok]
      simp [due, dueOf, streamed, ended, c1, pops, use, log, setPending, hstreams]
    · have hw : waitingRequest (seen s) = [s.ctx.rpc.request] := if_pos ⟨hmem, hok⟩
      rw [hrec, hw]
  | false =>
    show Talking ⟨c1, [.use .onReadsDone, .onReadsDone, .removeIfNotPending], none⟩
    refine hbegin (by decide) (by decide) ⟨ms, true, ?_, ?_, fun _ => by decide⟩
    · unfold talk
      rw [hconv, htalk, hok]
      simp [due, dueOf, ended]
    · have hw : waitingRequest (seen s) = [] := if_neg fun hw => by cases hok.symm.trans hw.2
      rw [hrec, hw, List.append_nil]

/-- A `NEW_CONNECTION` is taken up: it is refused, or the conversation begins. -/
theorem Talking.takenUp_newConnection (h : Talking s) (hs : Sound s)
    (hout : s.ctx.outbox = .completion .newConnection :: rest) (htodo : s.todo = [])
    (hin : s.inside = none) :
    Talking ⟨(completionTasks sd .newConnection (s.ctx.rpc.events .newConnection).ok
        (pops .newConnection { s.ctx with outbox := rest })).1,
      (completionTasks sd .newConnection (s.ctx.rpc.events .newConnection).ok
        (pops .newConnection { s.ctx with outbox := rest })).2, none⟩ := by
  let c1 : Ctx μ := pops .newConnection { s.ctx with outbox := rest }
  have hread : c1.rpc.events .read = s.ctx.rpc.events .read := pops_events_of_ne (by decide) _
  -- The entry is removed, and the handler never hears of it.
  have hrefused {todo : List Task} (hagenda : Agenda (streams s) todo)
      (hdue : ∀ task ∈ todo, dueOf s.ctx.rpc task = [] ∧ task ≠ .onConnection ∧
        task ≠ .requestStreamingReadIfNeeded) :
      Talking ⟨remove .handleNewConnection c1, todo, none⟩ := by
    obtain ⟨acts, h1, h2, -⟩ := (quiet_remove .handleNewConnection c1).history
    refine h.neutral htodo hin ([.handle .newConnection (s.ctx.rpc.events .newConnection).ok,
      .use .service] ++ acts) ?_ (fun a ha => ?_) ?_ ?_ ?_ ?_ ?_ ?_ hagenda hdue
    · rw [h1, pops_history, List.append_assoc]
    · rcases List.mem_append.mp ha with ha | ha
      · simp only [List.mem_cons, List.not_mem_nil, or_false] at ha
        rcases ha with rfl | rfl <;> exact ⟨rfl, rfl, rfl⟩
      · exact plain_of_silent (h2 a ha)
    · rw [remove_rpc]; rfl
    · rw [remove_rpc]; rfl
    · rw [remove_rpc]; rfl
    · rw [remove_accepted]; rfl
    · rw [remove_rpc, hread]
    · rw [remove_outbox]
      exact mem_rest hout (by simp)
  have hpend : (s.ctx.rpc.events .newConnection).pending = true := (hs.tally.of_mem (head_mem_inbox hout)).1
  cases hs.stage with
  | begun hb => cases hb.settled.symm.trans hpend
  | waiting hi hn =>
    have hidle := idle_of_waiting hi hn
    cases sd with
    | true =>
      show Talking ⟨remove .handleNewConnection c1, [], none⟩
      exact hrefused (by cases streams s <;> decide) (by simp)
    | false =>
      cases hok : (s.ctx.rpc.events .newConnection).ok with
      | false =>
        show Talking ⟨remove .handleNewConnection c1, [.use .clone], none⟩
        exact hrefused (by cases streams s <;> decide) (by simp [dueOf])
      | true =>
        have hh : s.ctx.rpc.handler = false := hidle.handler
        obtain ⟨htalk, hrec⟩ := h.silent ((opened_of_nil htodo hin).trans hh)
        rw [talk_of_nil htodo] at htalk
        have hconv : conversation c1.history = [] :=
          (conversation_pops .newConnection { s.ctx with outbox := rest }).trans (by rw [htalk]; rfl)
        have hrequested : requested c1.history = requested s.ctx.history := requested_pops _ _
        have hreceived : received c1.history = received s.ctx.history := received_pops _ _
        have hno : .completion .read ∉ rest := by
          rw [mem_rest hout (by simp)]
          exact (hs.tally.of_not_pending (hidle.quiet .read (by decide) (by decide))).2
        show Talking ⟨c1, [.use .onConnection, .onConnection, .requestStreamingReadIfNeeded, .use .clone],
          none⟩
        refine ⟨?_, fun _ => ?_, h.asked.of_eq rfl hrequested rfl fun hf => ⟨hf, rfl⟩, fun ho => ?_,
          fun _ ht => ?_, fun _ ht => ⟨[], false, ?_, ?_, fun hd => by cases hd⟩⟩
        · show Agenda (streams s)
            [.use .onConnection, .onConnection, .requestStreamingReadIfNeeded, .use .clone]
          cases streams s <;> decide
        · show (s.ctx.rpc.handler || false) = false
          rw [hh]
          rfl
        · simp [opened] at ho
        · have hacc : s.ctx.accepted = some true := by
            cases hi.phase with
            | listening _ _ _ _ _ hnil =>
              replace hnil : s.ctx.outbox = [] := hnil
              cases hnil.symm.trans hout
            | delivered _ _ hacc => exact hacc.trans (congrArg some hok)
            | connected hc => cases hc.settled.symm.trans hn
            | refused _ _ _ hno => cases hno.symm.trans hn
          replace ht : requestStreaming s.ctx.rpc.rpcHandlerInfo.rpcType = false := ht
          obtain ⟨m, hm, hrequest⟩ := h.asked.after hacc
          refine ⟨m, hrequested.trans hm, ?_⟩
          unfold talk
          rw [hconv]
          simp [due, dueOf, c1, pops, use, log, setPending, ht, hrequest hh ht]
        · replace ht : requestStreaming s.ctx.rpc.rpcHandlerInfo.rpcType = true := ht
          unfold talk
          rw [hconv]
          simp [due, dueOf, c1, pops, use, log, setPending, ht, streamed, ended]
        · show (received c1.history).map some = _
          have hwait : waitingRequest (seen (⟨c1, [.use .onConnection, .onConnection,
            .requestStreamingReadIfNeeded, .use .clone], none⟩ : Busy μ)) = [] := if_neg fun hw => hno hw.1
          rw [hreceived, hrec, hwait]
          rfl

/-- An event is taken up. -/
theorem Talking.takenUp (h : Talking s) (hs : Sound s) {e : RpcEvent} (hout : s.ctx.outbox = e :: rest)
    (htodo : s.todo = []) (hin : s.inside = none) :
    Talking ⟨(takeUp sd e { s.ctx with outbox := rest }).1, (takeUp sd e { s.ctx with outbox := rest }).2,
      none⟩ := by
  have htag {t : Tag} (he : e = .completion t) (hn : t ≠ .newConnection) (hr : t ≠ .read)
      (todo : List Task) (hagenda : Agenda (streams s) todo)
      (hdue : ∀ task ∈ todo, dueOf s.ctx.rpc task = [] ∧ task ≠ .onConnection ∧
        task ≠ .requestStreamingReadIfNeeded) :
      Talking ⟨pops t { s.ctx with outbox := rest }, todo, none⟩ := by
    refine h.neutral htodo hin _ (pops_history _ t) (fun a ha => ?_) rfl rfl rfl rfl
      (pops_events_of_ne (Ne.symm hr) _) (mem_rest hout (by simp [he, hr])) hagenda hdue
    simp only [List.mem_cons, List.not_mem_nil, or_false] at ha
    rcases ha with rfl | rfl
    · cases t <;> simp_all [conversationAct, requestedAct, receivedAct]
    · exact ⟨rfl, rfl, rfl⟩
  cases e with
  | completion t =>
    rw [takeUp_completion]
    cases t with
    | newConnection => exact h.takenUp_newConnection hs hout htodo hin
    | read => exact h.takenUp_read hs hout htodo hin
    | write =>
      exact htag rfl (by simp) (by simp) writeTasks (by cases streams s <;> decide)
        (by simp [writeTasks, dueOf])
    | finish =>
      exact htag rfl (by simp) (by simp) [.use .onFinish, .onFinish, .removeIfNotPending]
        (by cases streams s <;> decide) (by simp [dueOf])
    | done =>
      exact htag rfl (by simp) (by simp) [.removeIfNotPending] (by cases streams s <;> decide)
        (by simp [dueOf])
  | writeNeeded =>
    have hinbox := mem_rest (s := s) hout (by simp)
    unfold takeUp
    dsimp only
    split_ifs
    · show Talking ⟨wakes { s.ctx with outbox := rest }, writeTasks, none⟩
      refine h.neutral htodo hin _ (wakes_history _) (fun a ha => ?_) rfl rfl rfl rfl rfl hinbox
        (by cases streams s <;> decide) (by simp [writeTasks, dueOf])
      simp only [List.mem_cons, List.not_mem_nil, or_false] at ha
      rcases ha with rfl | rfl <;> exact ⟨rfl, rfl, rfl⟩
    · show Talking ⟨{ s.ctx with outbox := rest }, [], none⟩
      exact h.neutral htodo hin [] (List.append_nil _).symm (by simp) rfl rfl rfl rfl rfl hinbox
        (by cases streams s <;> decide) (by simp)

end Beginning

theorem Talking.stepped (h : Talking s) (hs : Sound s) (hstep : Stepped s a s') : Talking s' := by
  cases hstep with
  | takenUp hout htodo hin => exact h.takenUp hs hout htodo hin
  | performed htodo hin hp => exact h.performed htodo hin hp
  | left hin => exact h.left hin
  | @called _ _ items w _ hsent =>
    refine h.onward (onward_sends items w s.ctx) ?_ rfl rfl
    exact observe_sendActs (fun _ => rfl) rfl items
  | other hb hm => exact h.other hs (otherStep_ne_handle hb) hm

/-! ### The connection is accepted -/

section Opening

/-- `OnConnection` is a task of one event only. -/
theorem onConnection_mem_takeUp (sd : Bool) (e : RpcEvent) (c : Ctx μ) : .onConnection ∈ (takeUp sd e c).2 ↔
    e = .completion .newConnection ∧ sd = false ∧ (c.rpc.events .newConnection).ok = true := by
  cases e with
  | completion t =>
    rw [takeUp_completion]
    cases t with
    | newConnection => cases sd <;> cases (c.rpc.events .newConnection).ok <;> simp [completionTasks]
    | read => cases (c.rpc.events .read).ok <;> simp [completionTasks]
    | write => simp [completionTasks, writeTasks]
    | finish => simp [completionTasks]
    | done => simp [completionTasks]
  | writeNeeded =>
    unfold takeUp
    dsimp only
    split_ifs <;> simp [writeTasks]

theorem handler_takeUp (sd : Bool) (e : RpcEvent) (c : Ctx μ) :
    (takeUp sd e c).1.rpc.handler = c.rpc.handler := by
  cases e with
  | completion t =>
    rw [takeUp_completion, (quiet_completionTasks sd t _ _).rpc]
    rfl
  | writeNeeded =>
    unfold takeUp
    dsimp only
    split_ifs <;> rfl

/-- A step leads to a handler exactly if it takes up an accepted `NEW_CONNECTION` outside shutdown. -/
theorem opened_stepped (h : Talking s) (hstep : Stepped s a s') :
    opened s' = true ↔ opened s = true ∨ a = .takeUp false ∧
      s.ctx.outbox.head? = some (.completion .newConnection) ∧
      (s.ctx.rpc.events .newConnection).ok = true := by
  have hother (ha : ∀ sd, a ≠ .takeUp sd) (ho : opened s' = opened s) :
      opened s' = true ↔ opened s = true ∨ a = .takeUp false ∧
        s.ctx.outbox.head? = some (.completion .newConnection) ∧
        (s.ctx.rpc.events .newConnection).ok = true := by
    rw [ho]
    exact (or_iff_left fun hn => ha false hn.1).symm
  cases hstep with
  | @takenUp sd e rest hout htodo hin =>
    have hmem := onConnection_mem_takeUp sd e { s.ctx with outbox := rest }
    rw [opened_of_nil htodo hin]
    simp only [opened, handles, handler_takeUp, Bool.or_eq_true, decide_eq_true_eq, hmem, hout]
    simp [and_left_comm]
  | performed htodo hin hp =>
    refine hother (by simp) (opened_performed hp htodo hin fun ht => ?_)
    have hconn := h.connecting (by rw [htodo, ht]; exact List.mem_cons_self)
    simpa [handles, hin] using hconn
  | left hin => exact hother (by simp) (opened_leave hin)
  | called => exact hother (by simp) rfl
  | @other _ _ l hb hm =>
    refine hother (fun sd ha => by subst ha; cases hb) ?_
    have hhandler : l.cell.rpc.handler = s.ctx.rpc.handler := by
      cases hm.kind with
      | delivered => rfl
      | handled => exact absurd rfl (otherStep_ne_handle hb _ _)
      | locked hw => exact hw.handler
      | stepped hw => exact hw.handler
    unfold opened handles
    rw [hhandler]

end Opening

theorem talking_of_fresh (hf : Fresh l0) : Talking (idle l0) := by
  obtain ⟨_, _, _, info, _, rfl⟩ := Single.Project.fresh_eq hf
  refine ⟨?_, fun hm => (by cases hm), asked_of_fresh hf, fun _ => ⟨rfl, rfl⟩, fun ho => ?_, fun ho => ?_⟩
  · show Agenda (requestStreaming info.rpcType) []
    cases requestStreaming info.rpcType <;> decide
  · cases ho
  · cases ho

/-! ### The history -/

/-- The entries that a step adds to the history. -/
inductive Grown (s : Busy μ) : List (Act μ) → Prop
  | plain {acts : List (Act μ)} (h : ∀ a ∈ acts, a ≠ .start .read ∧ (∀ m, a ≠ .setResponse m) ∧
      a ≠ .callback .onFinish) : Grown s acts
  | read (hhead : s.todo.head? = some .requestStreamingReadIfNeeded) (ht : streams s = true) :
      Grown s [.start .read]
  | issued {item : SendItem μ} (hw : (s.ctx.rpc.events .write).pending = false)
      (hf : (s.ctx.rpc.events .finish).pending = false) :
      Grown s (issueActs s.ctx.rpc.rpcHandlerInfo.rpcType item)
  | finished (hhead : s.todo.head? = some .onFinish) : Grown s [.callback .onFinish]

theorem grown_quiet (hq : Quiet s.ctx c') : ∃ acts, c'.history = s.ctx.history ++ acts ∧ Grown s acts := by
  obtain ⟨acts, h1, h2, -⟩ := hq.history
  refine ⟨acts, h1, .plain fun a ha => ?_⟩
  have hsil := h2 a ha
  refine ⟨?_, fun m => ?_, ?_⟩ <;> rintro rfl <;> cases hsil

theorem grown_of_stepped (hs : Stepped s a s') :
    ∃ acts, s'.ctx.history = s.ctx.history ++ acts ∧ Grown s acts := by
  have hone {act : Act μ} (h1 : act ≠ .start .read) (h2 : ∀ m, act ≠ .setResponse m)
      (h3 : act ≠ .callback .onFinish) : Grown s [act] := by
    refine .plain fun a ha => ?_
    rw [List.mem_singleton.mp ha]
    exact ⟨h1, h2, h3⟩
  have hnone : Grown s [] := .plain (by simp)
  cases hs with
  | @takenUp sd e rest =>
    cases e with
    | completion t =>
      let c1 : Ctx μ := pops t { s.ctx with outbox := rest }
      obtain ⟨acts, h1, h2, -⟩ := (quiet_completionTasks sd t (s.ctx.rpc.events t).ok c1).history
      refine ⟨[.handle t (s.ctx.rpc.events t).ok, .use .service] ++ acts, ?_, .plain fun a ha => ?_⟩
      · refine Eq.trans h1 ?_
        rw [pops_history, List.append_assoc]
      · rcases List.mem_append.mp ha with ha | ha
        · simp only [List.mem_cons, List.not_mem_nil, or_false] at ha
          rcases ha with rfl | rfl <;> simp
        · have hsil := h2 a ha
          refine ⟨?_, fun m => ?_, ?_⟩ <;> rintro rfl <;> cases hsil
    | writeNeeded =>
      unfold takeUp
      dsimp only
      split_ifs
      · exact ⟨_, wakes_history _, .plain (by simp)⟩
      · exact ⟨[], (List.append_nil _).symm, hnone⟩
  | @performed task todo new inside c' htodo hin hp =>
    cases hp with
    | used => exact ⟨_, rfl, hone (by simp) (by simp) (by simp)⟩
    | connected => exact ⟨[], (List.append_nil _).symm, hnone⟩
    | connecting => exact ⟨_, rfl, hone (by simp) (by simp) (by simp)⟩
    | streaming ht => exact ⟨_, rfl, .read (by rw [htodo]; rfl) ht⟩
    | unary => exact ⟨[], (List.append_nil _).symm, hnone⟩
    | entered hcb =>
      refine ⟨_, rfl, ?_⟩
      cases task with
      | onRequest => cases hcb; exact hone (by simp) (by simp) (by simp)
      | onReadsDone => cases hcb; exact hone (by simp) (by simp) (by simp)
      | onFinish => cases hcb; exact .finished (by rw [htodo]; rfl)
      | _ => cases hcb
    | sent hq =>
      cases hq with
      | idle => exact ⟨[], (List.append_nil _).symm, hnone⟩
      | issued _ hw hf => exact ⟨_, issues_history _ _ _, .issued hw hf⟩
    | tidied => exact grown_quiet (quiet_tidies _)
  | @left p => exact ⟨[], by cases p <;> exact (List.append_nil _).symm, hnone⟩
  | @called _ _ items =>
    refine ⟨sendActs items, rfl, .plain fun a ha => ?_⟩
    rcases mem_sendActs ha with ⟨item, rfl⟩ | rfl <;> simp
  | other hb hm =>
    have hwriter {l : Conn μ} (hw : WriterMoved (seen s) l) :
        ∃ acts, l.cell.history = s.ctx.history ++ acts ∧ Grown s acts := by
      obtain ⟨acts, h1, h2⟩ := hw.history
      refine ⟨acts, h1, .plain fun a ha => ?_⟩
      have hby := h2 a ha
      refine ⟨?_, fun m => ?_, ?_⟩ <;> rintro rfl <;> cases hby
    cases hm.kind with
    | delivered => exact ⟨_, rfl, hone (by simp) (by simp) (by simp)⟩
    | handled => exact absurd rfl (otherStep_ne_handle hb _ _)
    | locked hw => exact hwriter hw
    | stepped hw => exact hwriter hw

/-- The entries of the history are in order, `OnFinish` is due only when it may be called, and there is a
handler only for an accepted connection. -/
structure Careful (s : Busy μ) : Prop where
  responses : Orderly ResponseFree s.ctx.history
  requests : Orderly RequestPassed s.ctx.history
  finishes : Orderly FinishIssued s.ctx.history
  finishing : .onFinish ∈ s.todo →
    started .finish s.ctx.history ≠ [] ∧ .callback .initializeHandler ∈ s.ctx.history
  accepted : opened s = true → .handle .newConnection true ∈ s.ctx.history

section Careful

/-- What has been passed to the handler and what is due to be passed. -/
theorem passed_talk (s : Busy μ) : (talk s).filterMap passedAct = passed s.ctx.history ++ passed (due s) := by
  have hobserve := observe_conversation (f := passedAct)
    (fun a ha => by unfold conversationAct at ha; split at ha <;> simp_all [passedAct]) s.ctx.history
  unfold passed talk
  rw [List.filterMap_append, hobserve]

theorem passed_of_talk {ms : List (Option μ)} {done : Bool}
    (htalk : talk s = .callback .initializeHandler :: (streamed ms ++ ended done)) :
    passed s.ctx.history ++ passed (due s) = ms := by
  have htail : (ended done : List (Act μ)).filterMap passedAct = [] := by cases done <;> rfl
  calc passed s.ctx.history ++ passed (due s)
      = (talk s).filterMap passedAct := (passed_talk s).symm
    _ = passed (streamed ms) ++ (ended done).filterMap passedAct := by
        rw [htalk]
        exact List.filterMap_append
    _ = ms := by rw [passed_streamed, htail, List.append_nil]

/-- A read is started when everything received has been passed on. -/
theorem passed_of_reading (h : Talking s) (hs : Sound s)
    (hhead : s.todo.head? = some .requestStreamingReadIfNeeded) (ht : streams s = true) :
    Settled .read s.ctx.history ∧ (received s.ctx.history).map some = passed s.ctx.history := by
  have hp := hs.stage.no_read hhead
  refine ⟨settled_of_accounted hs.accounted hp, ?_⟩
  obtain ⟨todo, htodo⟩ : ∃ todo, s.todo = .requestStreamingReadIfNeeded :: todo := by
    cases hl : s.todo with
    | nil => rw [hl] at hhead; cases hhead
    | cons task todo => rw [hl] at hhead; cases hhead; exact ⟨todo, rfl⟩
  have hhandles : handles s = true := by
    cases hs.stage with
    | waiting _ _ hnil => cases hnil.symm.trans htodo
    | begun hb =>
      have hready := hb.ready
      rw [htodo] at hready
      simp only [ready, Bool.and_eq_true] at hready
      exact hready.1.1.1
  have hdue : due s = [] := by
    have hagenda := h.agenda
    rw [ht, htodo] at hagenda
    replace ht : requestStreaming s.ctx.rpc.rpcHandlerInfo.rpcType = true := ht
    rcases hagenda.last with rfl | rfl <;> simp [due, htodo, dueOf, ht]
  obtain ⟨ms, done, htalk, hrec, -⟩ := h.streaming (by simp [opened, hhandles]) ht
  have hwait : waitingRequest (seen s) = [] := if_neg fun hw => (hs.tally.of_not_pending hp).2 hw.1
  have hpassed := passed_of_talk htalk
  rw [hdue] at hpassed
  rw [hrec, hwait, List.append_nil, ← hpassed]
  exact List.append_nil _

theorem issueActs_plain {rpcType : RpcType} {item : SendItem μ} {act : Act μ}
    (h : act ∈ issueActs rpcType item) : act ≠ .start .read ∧ act ≠ .callback .onFinish := by
  have hop : opOf rpcType item ≠ .read := by
    intro hop
    rcases opOf_tag rpcType item with ht | ht <;> rw [hop] at ht <;> cases ht
  unfold issueActs responseActs at h
  split_ifs at h <;> simp only [List.cons_append, List.nil_append, List.mem_cons, List.not_mem_nil,
    or_false] at h
  · rcases h with rfl | rfl
    · simp
    · simpa using hop
  · subst h
    simpa using hop

theorem responses_grown {acts : List (Act μ)} (ho : Orderly ResponseFree s.ctx.history) (hs : Sound s)
    (hg : Grown s acts) : Orderly ResponseFree (s.ctx.history ++ acts) := by
  cases hg with
  | plain h => exact ho.append_of_forall fun a ha _ => responseFree_of_ne (h a ha).2.1
  | read => exact orderly_snoc.mpr ⟨ho, responseFree_of_ne (by simp)⟩
  | finished => exact orderly_snoc.mpr ⟨ho, responseFree_of_ne (by simp)⟩
  | issued hw hf =>
    have hfree (m : Option μ) : ResponseFree s.ctx.history (.setResponse m) := fun _ _ =>
      ⟨settled_of_accounted hs.accounted hw, settled_of_accounted hs.accounted hf⟩
    rw [issueActs, responseActs]
    split_ifs
    · rw [← List.append_assoc, orderly_snoc, orderly_snoc]
      exact ⟨⟨ho, hfree _⟩, responseFree_of_ne (by simp)⟩
    · rw [List.nil_append, orderly_snoc]
      exact ⟨ho, responseFree_of_ne (by simp)⟩

theorem requests_grown {acts : List (Act μ)} (ho : Orderly RequestPassed s.ctx.history) (h : Talking s)
    (hs : Sound s) (hg : Grown s acts) : Orderly RequestPassed (s.ctx.history ++ acts) := by
  cases hg with
  | plain h => exact ho.append_of_forall fun a ha _ => requestPassed_of_ne (h a ha).1
  | read hhead ht => exact orderly_snoc.mpr ⟨ho, fun _ => passed_of_reading h hs hhead ht⟩
  | finished => exact orderly_snoc.mpr ⟨ho, requestPassed_of_ne (by simp)⟩
  | issued => exact ho.append_of_forall fun a ha _ => requestPassed_of_ne (issueActs_plain ha).1

theorem finishes_grown {acts : List (Act μ)} (h : Careful s) (hg : Grown s acts) :
    Orderly FinishIssued (s.ctx.history ++ acts) := by
  cases hg with
  | plain hp => exact h.finishes.append_of_forall fun a ha _ => finishIssued_of_ne (hp a ha).2.2
  | read => exact orderly_snoc.mpr ⟨h.finishes, finishIssued_of_ne (by simp)⟩
  | finished hhead =>
    exact orderly_snoc.mpr ⟨h.finishes, fun _ => h.finishing (List.mem_of_mem_head? hhead)⟩
  | issued => exact h.finishes.append_of_forall fun a ha _ => finishIssued_of_ne (issueActs_plain ha).2

/-- The handler was initialised before anything else was done with it. -/
theorem initialized_of_handles (h : Talking s) (hhandles : handles s = true) (htodo : s.todo = []) :
    .callback .initializeHandler ∈ s.ctx.history := by
  have hopened : opened s = true := by simp [opened, hhandles]
  have htalk : .callback .initializeHandler ∈ talk s := by
    cases ht : streams s with
    | false =>
      obtain ⟨m, -, h1⟩ := h.unary hopened ht
      rw [h1]
      exact List.mem_cons_self
    | true =>
      obtain ⟨ms, done, h1, -⟩ := h.streaming hopened ht
      rw [h1]
      exact List.mem_cons_self
  rw [talk_of_nil htodo] at htalk
  obtain ⟨act, hm, hact⟩ := List.mem_filterMap.mp htalk
  have heq : act = .callback .initializeHandler := by
    unfold conversationAct at hact
    split at hact <;> simp_all
  exact heq ▸ hm

theorem onFinish_of_takeUp {sd : Bool} {e : RpcEvent} (h : .onFinish ∈ (takeUp sd e c).2) :
    e = .completion .finish := by
  cases e with
  | completion t =>
    rw [takeUp_completion] at h
    generalize (c.rpc.events t).ok = ok at h
    cases t with
    | finish => rfl
    | newConnection => cases sd <;> cases ok <;> simp [completionTasks] at h
    | read => cases ok <;> simp [completionTasks] at h
    | write => simp [completionTasks, writeTasks] at h
    | done => simp [completionTasks] at h
  | writeNeeded =>
    unfold takeUp at h
    dsimp only at h
    split_ifs at h <;> simp [writeTasks] at h

theorem Careful.finishing_stepped (h : Careful s) (ht : Talking s) (hs : Sound s) (hstep : Stepped s a s')
    (hm : .onFinish ∈ s'.todo) :
    started .finish s.ctx.history ≠ [] ∧ .callback .initializeHandler ∈ s.ctx.history := by
  cases hstep with
  | @takenUp sd e rest hout htodo hin =>
    obtain rfl := onFinish_of_takeUp hm
    have hpend : (s.ctx.rpc.events .finish).pending = true := (hs.tally.of_mem (head_mem_inbox hout)).1
    have hhandles := hs.stage.handles_of_pending (by decide) (by decide) hpend
    exact ⟨started_finish_of_pending hs.accounted hpend, initialized_of_handles ht hhandles htodo⟩
  | @performed task todo new inside c' htodo hin hp =>
    refine h.finishing ?_
    rw [htodo]
    exact List.mem_cons_of_mem _ ((List.mem_append.mp hm).resolve_left (performed_new hp).2.2)
  | @left p => exact h.finishing (by cases p <;> exact hm)
  | called => exact h.finishing hm
  | other => exact h.finishing hm

/-- The event taken up is in the history. -/
theorem handle_mem_takeUp (sd : Bool) (t : Tag) (c : Ctx μ) :
    .handle t (c.rpc.events t).ok ∈ (takeUp sd (.completion t) c).1.history := by
  obtain ⟨acts, hacts, -⟩ := (quiet_completionTasks sd t (c.rpc.events t).ok (pops t c)).history
  rw [takeUp_completion, hacts, pops_history]
  simp

theorem Careful.accepted_stepped (h : Careful s) (ht : Talking s) (hstep : Stepped s a s')
    (ho : opened s' = true) : .handle .newConnection true ∈ s'.ctx.history := by
  rcases (opened_stepped ht hstep).mp ho with ho | ⟨rfl, hhead, hok⟩
  · obtain ⟨acts, hhistory, -⟩ := grown_of_stepped hstep
    rw [hhistory]
    exact List.mem_append_left _ (h.accepted ho)
  · cases hstep with
    | @takenUp sd e rest hout =>
      rw [hout] at hhead
      cases hhead
      have hmem := handle_mem_takeUp false .newConnection { s.ctx with outbox := rest }
      rwa [hok] at hmem
    | other hb => cases hb

theorem Careful.stepped (h : Careful s) (ht : Talking s) (hs : Sound s) (hstep : Stepped s a s') :
    Careful s' := by
  obtain ⟨acts, hhistory, hgrown⟩ := grown_of_stepped hstep
  refine ⟨?_, ?_, ?_, fun hm => ?_, h.accepted_stepped ht hstep⟩ <;> rw [hhistory]
  · exact responses_grown h.responses hs hgrown
  · exact requests_grown h.requests ht hs hgrown
  · exact finishes_grown h hgrown
  · obtain ⟨h1, h2⟩ := h.finishing_stepped ht hs hstep hm
    rw [started_append]
    exact ⟨fun hnil => h1 (List.append_eq_nil_iff.mp hnil).1, List.mem_append_left _ h2⟩

theorem careful_of_fresh (hf : Fresh l0) : Careful (idle l0) := by
  obtain ⟨ty, hh⟩ := Single.Project.fresh_history hf
  have hb := buffered_of_fresh hf
  refine ⟨hb.responses, hb.requests, ?_, fun hm => (by cases hm), fun ho => ?_⟩
  · show Orderly FinishIssued l0.cell.history
    rw [hh]
    exact (orderly_nil _).append_of_forall fun a hm _ => finishIssued_of_ne (by rintro rfl; simp at hm)
  · obtain ⟨_, _, _, _, _, rfl⟩ := Single.Project.fresh_eq hf
    cases ho

/-- What holds of an `Rpc` whatever runs between two steps of its event thread. -/
theorem careful_of_threaded {s : Threaded μ} {r : ℕ} {b : Busy μ} (hs : Reachable (threaded μ cfg) s)
    (hb : busy s r = some b) : Sound b ∧ Talking b ∧ Careful b := by
  obtain ⟨l0, hf, hr⟩ := interleaved_of_reachable hs hb
  refine inv_of_reachable (M := interleaved l0) (I := fun b => Sound b ∧ Talking b ∧ Careful b)
    ⟨sound_of_fresh hf, talking_of_fresh hf, careful_of_fresh hf⟩ (fun b a b' hi hstep => ?_) hr
  have hgo := stepped_of_step hstep
  exact ⟨hi.1.stepped hgo, hi.2.1.stepped hi.1 hgo, hi.2.2.stepped hi.2.1 hi.1 hgo⟩

end Careful

/-! ### The results -/

/-- A step of the server leads to a handler for an `Rpc` exactly if it takes up its accepted
`NEW_CONNECTION` while the service is not shutting down. -/
theorem opened_step {s s' : Threaded μ} {r : ℕ} {b b' : Busy μ} {a : ThreadStep μ}
    (hs : Reachable (threaded μ cfg) s) (hstep : (threaded μ cfg).Step s a s') (hb : busy s r = some b)
    (hb' : busy s' r = some b') : opened b' = true ↔ opened b = true ∨
      ∃ q rest, a = .takeUp q ∧ s.state.eventQueues q = (r, .completion .newConnection) :: rest ∧
        s.state.shuttingDown b.ctx.rpc.service = false ∧
        (b.ctx.rpc.events .newConnection).ok = true := by
  have htakeUp {q : ℕ} {e : RpcEvent} {rest : List (ℕ × RpcEvent)}
      (hq : s.state.eventQueues q = (r, e) :: rest) : stepOf s (.takeUp q) r =
        some (.takeUp (s.state.shuttingDown b.ctx.rpc.service)) := by
    obtain ⟨l, hl, rfl⟩ := busy_eq_some.mp hb
    have hservice : (viewed (s.threads l.cell.rpc.eventQueue) r l).ctx.rpc.service = l.cell.rpc.service := by
      unfold viewed
      split_ifs <;> rfl
    rw [stepOf_takeUp hq (Single.Project.conn_eq_some.mp hl).1, if_pos rfl, hservice]
  rcases step_or_eq hs hstep hb hb' with ⟨hnone, rfl⟩ | ⟨st, hst, hgo⟩
  · refine (or_iff_left ?_).symm
    rintro ⟨q, rest, rfl, hq, -⟩
    cases (htakeUp hq).symm.trans hnone
  · rw [opened_stepped (careful_of_threaded hs hb).2.1 (stepped_of_step hgo)]
    refine or_congr_right ⟨?_, ?_⟩
    · rintro ⟨rfl, hhead, hok⟩
      cases actsAs_of_stepOf hst with
      | @takeUp q e rest _ hq =>
        rw [outbox_of_queue hs hb hq] at hhead
        cases hhead
        have hsd : s.state.shuttingDown b.ctx.rpc.service = false := by
          simpa using (htakeUp hq).symm.trans hst
        exact ⟨q, rest, rfl, hq, hsd, hok⟩
    · rintro ⟨q, rest, rfl, hq, hsd, hok⟩
      cases (htakeUp hq).symm.trans hst
      rw [hsd, outbox_of_queue hs hb hq]
      exact ⟨rfl, rfl, hok⟩

theorem due_callback {act : Act μ} (h : act ∈ due s) : ∃ cb, act = .callback cb := by
  obtain ⟨task, -, hm⟩ := List.mem_flatMap.mp h
  cases task with
  | onConnection => exact ⟨_, List.mem_singleton.mp hm⟩
  | requestStreamingReadIfNeeded =>
    unfold dueOf at hm
    dsimp only at hm
    split_ifs at hm
    · cases hm
    · rcases List.mem_cons.mp hm with rfl | hm
      · exact ⟨_, rfl⟩
      · exact ⟨_, List.mem_singleton.mp hm⟩
  | onRequest => exact ⟨_, List.mem_singleton.mp hm⟩
  | onReadsDone => exact ⟨_, List.mem_singleton.mp hm⟩
  | _ => cases hm

/-- The messages of the conversation are those of the reads handled. -/
theorem messages_of_talk {ms w : List (Option μ)} {done : Bool}
    (htalk : talk s = .callback .initializeHandler :: (streamed ms ++ ended done))
    (hrec : (received s.ctx.history).map some = ms ++ w) :
    (handledMessages s.ctx.history).map some = ms ∧ readsFailed s.ctx.history = done := by
  have hoks : handledOks .read s.ctx.history =
      List.replicate ms.length true ++ if done then [false] else [] := by
    have hobserve := observe_conversation (f := handledAct .read) (fun a ha => by
      cases a with
      | handle t ok => cases t <;> first | rfl | cases ha
      | _ => rfl) s.ctx.history
    have hdue : (due s).filterMap (handledAct .read) = [] := by
      refine List.filterMap_eq_nil_iff.mpr fun a ha => ?_
      obtain ⟨cb, rfl⟩ := due_callback ha
      rfl
    have hall : handledOks .read (talk s) = handledOks .read s.ctx.history := by
      unfold talk handledOks
      rw [List.filterMap_append, hobserve, hdue, List.append_nil]
    rw [← hall, htalk]
    show handledOks .read (streamed ms ++ ended done) = _
    unfold handledOks
    rw [List.filterMap_append]
    show handledOks .read (streamed ms) ++ _ = _
    rw [handledOks_streamed]
    cases done <;> rfl
  have hcount : (handledOks .read s.ctx.history).count true = ms.length := by
    rw [hoks]
    cases done <;> simp
  refine ⟨?_, ?_⟩
  · unfold handledMessages
    rw [hcount, List.map_take, hrec, List.take_left]
  · unfold readsFailed
    rw [hoks]
    cases done <;> simp

/-- **Callbacks with all threads at work.** At any point of the handling of an event, the callbacks made on
the handler of an `Rpc`, with the `READ` events handled, and those still due for the event make up the
protocol: none if the connection is not opened; `Initialize`, `OnRequest` with the request that gRPC
stored and `OnReadsDone`, where requests are not streamed; and where they are, `Initialize`, `OnRequest`
with the messages of the successful reads in order, each after its `READ`, and `OnReadsDone` after the
first `READ` that failed. `OnFinish` is called only after a `Finish` was issued. A connection is opened
only if its `NEW_CONNECTION` was taken up with `ok`, and it is by the step that takes up
`NEW_CONNECTION` with `ok` outside shutdown, and by no other. -/
theorem preempted_callbacks {s : Threaded μ} {r : ℕ} {b : Busy μ} (hs : Reachable (threaded μ cfg) s)
    (hb : busy s r = some b) :
    (opened b = false → ∀ cb, .callback cb ∉ b.ctx.history) ∧
      (opened b = true → streams b = false → ∃ m, requested b.ctx.history = [m] ∧
        conversation b.ctx.history ++ due b =
          [.callback .initializeHandler, .callback (.onRequest (some m)), .callback .onReadsDone]) ∧
      (opened b = true → streams b = true → conversation b.ctx.history ++ due b =
        .callback .initializeHandler :: (streamed ((handledMessages b.ctx.history).map some) ++
          ended (readsFailed b.ctx.history))) ∧
      Orderly FinishIssued b.ctx.history ∧
      (opened b = true → .handle .newConnection true ∈ b.ctx.history) ∧
      ∀ (a : ThreadStep μ) (s' : Threaded μ) (b' : Busy μ), (threaded μ cfg).Step s a s' →
        busy s' r = some b' → (opened b' = true ↔ opened b = true ∨
          ∃ q rest, a = .takeUp q ∧ s.state.eventQueues q = (r, .completion .newConnection) :: rest ∧
            s.state.shuttingDown b.ctx.rpc.service = false ∧
            (b.ctx.rpc.events .newConnection).ok = true) := by
  obtain ⟨-, htalking, hcareful⟩ := careful_of_threaded hs hb
  refine ⟨fun ho cb hm => ?_, htalking.unary, fun ho ht => ?_, hcareful.finishes, hcareful.accepted,
    fun a s' b' hstep hb' => opened_step hs hstep hb hb'⟩
  · have hconv : conversation b.ctx.history = [] := (List.append_eq_nil_iff.mp (htalking.silent ho).1).1
    have hnone (cb : Callback μ) (hne : cb ≠ .onFinish) : .callback cb ∉ b.ctx.history := by
      intro hm
      have hmem : .callback cb ∈ conversation b.ctx.history :=
        List.mem_filterMap.mpr ⟨_, hm, by cases cb <;> first | rfl | contradiction⟩
      rw [hconv] at hmem
      cases hmem
    by_cases hcb : cb = .onFinish
    · subst hcb
      obtain ⟨pre, post, hsplit⟩ := List.append_of_mem hm
      refine hnone .initializeHandler (by simp) ?_
      rw [hsplit]
      exact List.mem_append_left _ (hcareful.finishes pre _ post hsplit rfl).2
    · exact hnone cb hcb hm
  · obtain ⟨ms, done, htalk, hrec, -⟩ := htalking.streaming ho ht
    obtain ⟨h1, h2⟩ := messages_of_talk htalk hrec
    rw [h1, h2]
    exact htalk

/-- A connection of the first method has been accepted and its first request received, and the thread
has taken up the `READ`; meanwhile the other thread has taken up a connection. -/
def receiving : List (ThreadStep ℕ) :=
  [.other (.deliver 0 .newConnection true 7), .takeUp 0, .goOn 0, .goOn 0, .goOn 0, .goOn 0, .goOn 0,
    .other (.deliver 1 .newConnection true 8), .takeUp 1, .other (.deliver 0 .read true 5), .takeUp 0]

/-- The `READ` has been taken up, and `OnRequest` is still to be called. -/
theorem preempted_callbacks_receiving : ∃ (s : Threaded ℕ) (b : Busy ℕ),
    Reachable (threaded ℕ (twoMethods .bidiStreaming)) s ∧ busy s 0 = some b ∧
      .handle .newConnection true ∈ b.ctx.history ∧ due b = [.callback (.onRequest (some 5))] ∧ conversation b.ctx.history ++ due b =
        [.callback .initializeHandler, .handle .read true, .callback (.onRequest (some 5))] := by
  obtain ⟨s, hr, hp⟩ := exists_run (threaded ℕ (twoMethods .bidiStreaming)) receiving
    (fun s => (busy s 0).any fun b : Busy ℕ => decide (opened b = true ∧ streams b = true ∧
      due b = [.callback (.onRequest (some 5))] ∧ handledMessages b.ctx.history = [5] ∧
      readsFailed b.ctx.history = false)) (by decide)
  obtain ⟨b, hb, hp⟩ := (Option.any_eq_true _ _).mp hp
  obtain ⟨ho, ht, hdue, hms, hfailed⟩ := of_decide_eq_true hp
  obtain ⟨-, -, hall, -, haccepted, -⟩ := preempted_callbacks hr.reachable hb
  refine ⟨s, b, hr.reachable, hb, haccepted ho, hdue, ?_⟩
  rw [hall ho ht, hms, hfailed]
  rfl

/-- **Buffers with all threads at work.** `response_` is replaced only when neither a `WRITE` nor a
`FINISH` is outstanding, and `request_` is handed to a `Read` only when no other is outstanding and every
message received has been passed to the handler. Where requests are streamed, what was received is, at any
point and in order, what was passed to the handler, then what is due to be passed, and then the message
whose `READ` waits. -/
theorem preempted_buffers {s : Threaded μ} {r : ℕ} {b : Busy μ} (hs : Reachable (threaded μ cfg) s)
    (hb : busy s r = some b) :
    Orderly ResponseFree b.ctx.history ∧ Orderly RequestPassed b.ctx.history ∧
      (streams b = true → (received b.ctx.history).map some =
        passed b.ctx.history ++ passed (due b) ++ waitingRequest (seen b)) := by
  obtain ⟨hsound, htalking, hcareful⟩ := careful_of_threaded hs hb
  refine ⟨hcareful.responses, hcareful.requests, fun ht => ?_⟩
  cases ho : opened b with
  | true =>
    obtain ⟨ms, done, htalk, hrec, -⟩ := htalking.streaming ho ht
    rw [passed_of_talk htalk]
    exact hrec
  | false =>
    -- Without a handler no read is outstanding, so that nothing waits either.
    obtain ⟨htalk, hrec⟩ := htalking.silent ho
    have hpend : (b.ctx.rpc.events .read).pending = false := Bool.eq_false_iff.mpr fun hp => by
      simp [opened, (reading hsound htalking hp).2.1] at ho
    have hwait : waitingRequest (seen b) = [] :=
      if_neg fun hw => (hsound.tally.of_not_pending hpend).2 hw.1
    rw [← passed_talk, htalk, hrec, hwait]
    rfl

/-- The request of the `READ` that was taken up has been received and is due to be passed. -/
theorem preempted_buffers_receiving : ∃ (s : Threaded ℕ) (b : Busy ℕ),
    Reachable (threaded ℕ (twoMethods .bidiStreaming)) s ∧ busy s 0 = some b ∧
      received b.ctx.history = [5] ∧ passed b.ctx.history = [] ∧ passed (due b) = [some 5] ∧
      waitingRequest (seen b) = [] ∧ Orderly RequestPassed b.ctx.history := by
  obtain ⟨s, hr, hp⟩ := exists_run (threaded ℕ (twoMethods .bidiStreaming)) receiving
    (fun s => (busy s 0).any fun b : Busy ℕ => decide (streams b = true ∧
      received b.ctx.history = [5] ∧ passed b.ctx.history = [] ∧ passed (due b) = [some 5])) (by decide)
  obtain ⟨b, hb, hp⟩ := (Option.any_eq_true _ _).mp hp
  obtain ⟨ht, hrec, hpassed, hdue⟩ := of_decide_eq_true hp
  obtain ⟨-, hreq, hall⟩ := preempted_buffers hr.reachable hb
  have hwait := hall ht
  rw [hrec, hpassed, hdue] at hwait
  exact ⟨s, b, hr.reachable, hb, hrec, hpassed, hdue, by simpa using hwait, hreq⟩

end AsyncGrpc.Service.PreemptedCallbacks
