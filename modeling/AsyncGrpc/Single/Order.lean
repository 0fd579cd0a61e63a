import AsyncGrpc.Single.Ledger

/-! # Which operations a handled event starts

An event starts at most one operation: a `Read` when a connection was accepted or a message was read,
or the operation for the head of `send_queue_` when a `WRITE` or `WRITE_NEEDED` is handled and
neither `WRITE` nor `FINISH` is pending. `Began` says which, and where in the history.

`along_orderly` turns the exact condition for one step to keep a history orderly into the exact
condition for whole runs. -/

namespace AsyncGrpc.Single.Order

open AsyncGrpc.Lib.Runs AsyncGrpc.Lib.Histories
open AsyncGrpc.Model.Types AsyncGrpc.Model.Rpc AsyncGrpc.Model.Service AsyncGrpc.Model.Server
open AsyncGrpc.Single.Machine AsyncGrpc.Single.Moves AsyncGrpc.Single.Project
open AsyncGrpc.Single.Lifecycle AsyncGrpc.Single.Ledger

variable {μ : Type} {cfg : Config}

/-- The entry starts no operation and removes nothing. -/
def plain : Act μ → Bool
  | .start _ | .remove _ => false
  | _ => true

/-- The entry starts no operation. -/
def startless : Act μ → Bool
  | .start _ => false
  | _ => true

/-- The operation that is started, if one is. -/
def operation : Act μ → Option (Op μ)
  | .start op => some op
  | _ => none

theorem operation_eq_some (a : Act μ) (op : Op μ) : operation a = some op ↔ a = .start op := by
  cases a <;> simp [operation]

/-- What a handled event starts. -/
inductive Began (e : RpcEvent) (c c' : Ctx μ) : Prop
  | nothing (acts : List (Act μ)) (hh : c'.history = c.history ++ acts)
      (ha : ∀ a ∈ acts, startless a = true)
      (hidle : e = .writeNeeded → c.alive = true → c.rpc.sendQueue = [] ∨
        (c.rpc.events .write).pending = true ∨ (c.rpc.events .finish).pending = true)
      (hkeep : ∀ t, t ≠ .read → (c'.rpc.events t).pending = true → (c.rpc.events t).pending = true)
  | reads (pre post : List (Act μ)) (hh : c'.history = c.history ++ (pre ++ .start .read :: post))
      (hpre : ∀ a ∈ pre, plain a = true) (hpost : ∀ a ∈ post, startless a = true)
      (he : e = .completion .newConnection ∨ e = .completion .read)
      (hkeep : ∀ t, t ≠ .read → (c'.rpc.events t).pending = true → (c.rpc.events t).pending = true)
  | sends (pre post : List (Act μ)) {item : SendItem μ} {rest : List (SendItem μ)}
      (hh : c'.history =
        c.history ++ (pre ++ .start (opOf c.rpc.rpcHandlerInfo.rpcType item) :: post))
      (hpre : ∀ a ∈ pre, plain a = true) (hpost : ∀ a ∈ post, startless a = true)
      (hq : c.rpc.sendQueue = item :: rest)
      (he : e = .completion .write ∨
        e = .writeNeeded ∧ c.alive = true ∧ (c.rpc.events .write).pending = false)
      (hf : (c.rpc.events .finish).pending = false)
      (hset : (c'.rpc.events (opOf c.rpc.rpcHandlerInfo.rpcType item).tag).pending = true)

section Began
variable {sd : Bool} {e : RpcEvent} {c c' c1 c2 : Ctx μ}

theorem plain_sendActs (items : List (SendItem μ)) : ∀ a ∈ sendActs items, plain a = true := by
  intro a ha
  unfold sendActs at ha
  rw [List.mem_flatMap] at ha
  obtain ⟨item, -, ha⟩ := ha
  rcases List.mem_cons.mp ha with rfl | ha
  · rfl
  · rw [List.mem_singleton.mp ha]; rfl

theorem startless_of_plain {a : Act μ} (h : plain a = true) : startless a = true := by
  cases a <;> simp_all [plain, startless]

theorem startless_of_byWriter {a : Act μ} (h : byWriter a = true) : startless a = true := by
  cases a <;> simp_all [byWriter, startless]

theorem startless_tidies (c : Ctx μ) :
    ∃ acts, (tidies c).history = c.history ++ acts ∧ ∀ a ∈ acts, startless a = true := by
  refine ⟨_, tidies_history c, ?_⟩
  split_ifs <;> simp [startless]

/-- The entries of `c2` are those of `c1` and some that are plain. -/
def Plainly (c1 c2 : Ctx μ) : Prop :=
  ∃ acts, c2.history = c1.history ++ acts ∧ ∀ a ∈ acts, plain a = true

theorem Plainly.trans {c3 : Ctx μ} (h : Plainly c1 c2) (h' : Plainly c2 c3) : Plainly c1 c3 := by
  obtain ⟨acts, h1, h2⟩ := h
  obtain ⟨acts', h3, h4⟩ := h'
  refine ⟨acts ++ acts', by rw [h3, h1, List.append_assoc], fun a ha => ?_⟩
  exact (List.mem_append.mp ha).elim (h2 a) (h4 a)

theorem plainly_use (m : Member) (c : Ctx μ) : Plainly c (use m c) :=
  ⟨_, use_history c m, by simp [plain]⟩

theorem plainly_pops (t : Tag) (c : Ctx μ) : Plainly c (pops t c) :=
  ⟨_, pops_history c t, by simp [plain]⟩

theorem plainly_wakes (c : Ctx μ) : Plainly c (wakes c) := ⟨_, wakes_history c, by simp [plain]⟩

theorem plainly_calledBack (cb : Callback μ) (items : List (SendItem μ)) (w : Bool) (c : Ctx μ) :
    Plainly c (calledBack cb items w c) :=
  ⟨_, calledBack_history c cb items w, by simpa [plain] using plain_sendActs items⟩

theorem plainly_initialized (items : List (SendItem μ)) (w : Bool) (c : Ctx μ) :
    Plainly c (initialized items w c) :=
  ⟨_, initialized_history c items w, by simpa [plain] using plain_sendActs items⟩

/-- No flag but that of `READ` has been set. -/
def KeepsFlags (c c' : Ctx μ) : Prop :=
  ∀ t, t ≠ .read → (c'.rpc.events t).pending = true → (c.rpc.events t).pending = true

theorem keepsFlags_pops (t : Tag) (h : c1.rpc.events = (pops t c).rpc.events) : KeepsFlags c c1 := by
  intro t' _ hp
  rw [h] at hp
  exact pending_of_pops hp

theorem began_nothing {post : List (Act μ)} (hp : Plainly c c1) (hk : KeepsFlags c c')
    (hh : c'.history = c1.history ++ post) (hpost : ∀ a ∈ post, startless a = true)
    (hidle : e = .writeNeeded → c.alive = true → c.rpc.sendQueue = [] ∨
      (c.rpc.events .write).pending = true ∨ (c.rpc.events .finish).pending = true) :
    Began e c c' := by
  obtain ⟨pre, h1, h2⟩ := hp
  refine .nothing (pre ++ post) (by rw [hh, h1, List.append_assoc]) (fun a ha => ?_) hidle hk
  exact (List.mem_append.mp ha).elim (fun h => startless_of_plain (h2 a h)) (hpost a)

theorem began_invited {post : List (Act μ)} (hv : Invited c1 c2) (hp : Plainly c c1)
    (hk : KeepsFlags c c1) (hh : c'.history = c2.history ++ post) (hrpc : c'.rpc = c2.rpc)
    (hpost : ∀ a ∈ post, startless a = true)
    (he : e = .completion .newConnection ∨ e = .completion .read) : Began e c c' := by
  have hk' : KeepsFlags c c' := by
    intro t ht hpend
    rw [hrpc, hv.events_of_ne ht] at hpend
    exact hk t ht hpend
  cases hv with
  | streaming =>
    obtain ⟨pre, h1, h2⟩ := hp
    refine .reads pre post ?_ h2 hpost he hk'
    rw [hh, begins_history, h1]
    simp
  | unary =>
    refine began_nothing ((hp.trans (plainly_calledBack _ _ _ _)).trans (plainly_calledBack _ _ _ _))
      hk' hh hpost (fun h => ?_)
    rcases he with rfl | rfl <;> cases h

theorem began_sentQueue {post : List (Act μ)} (hq : SentQueue c1 c2) (hp : Plainly c c1)
    (hk : KeepsFlags c c1) (hh : c'.history = c2.history ++ post) (hrpc : c'.rpc = c2.rpc)
    (hpost : ∀ a ∈ post, startless a = true) (hqueue : c1.rpc.sendQueue = c.rpc.sendQueue)
    (hinfo : c1.rpc.rpcHandlerInfo = c.rpc.rpcHandlerInfo)
    (hfin : c1.rpc.events .finish = c.rpc.events .finish)
    (he : e = .completion .write ∨ e = .writeNeeded ∧ c.alive = true ∧
      c1.rpc.events .write = c.rpc.events .write) : Began e c c' := by
  cases hq with
  | idle h =>
    refine began_nothing hp (fun t ht hpend => ?_) hh hpost (fun hn _ => ?_)
    · rw [hrpc] at hpend
      exact hk t ht hpend
    · rcases he with rfl | ⟨-, -, hw⟩
      · cases hn
      · rwa [hqueue, hw, hfin] at h
  | @issued item rest hq hw hf =>
    obtain ⟨pre, h1, h2⟩ := hp
    rw [hqueue] at hq
    rw [hfin] at hf
    have hset : ∀ a ∈ responseActs c.rpc.rpcHandlerInfo.rpcType item, plain a = true := by
      unfold responseActs
      split_ifs <;> simp [plain]
    refine .sends (pre ++ responseActs c.rpc.rpcHandlerInfo.rpcType item) post ?_ (fun a ha => ?_)
      hpost hq ?_ hf ?_
    · rw [hh, issues_history, issueActs, h1, hinfo]
      simp
    · exact (List.mem_append.mp ha).elim (h2 a) (hset a)
    · refine he.imp id (fun h => ⟨h.1, h.2.1, ?_⟩)
      rw [← h.2.2]
      exact hw
    · rw [hrpc, ← hinfo]
      exact begins_pending_self _ _

/-- **A handled event starts at most one operation.** -/
theorem began_of_handled (hh : Handled sd e c c') : Began e c c' := by
  have hnil : ∀ c : Ctx μ, c.history = c.history ++ [] := fun c => by simp
  cases hh with
  | refused =>
    refine began_nothing (plainly_pops _ _) (keepsFlags_pops .newConnection (by rw [remove_rpc]))
      (remove_history _ _) ?_ (fun h => nomatch h)
    split_ifs <;> simp [startless]
  | failed =>
    have hrem : (use .clone (remove .handleNewConnection (pops .newConnection c))).history =
        (pops .newConnection c).history ++ ((if (pops .newConnection c).active then
          [.remove .handleNewConnection] else []) ++ [.use .clone]) := by
      rw [use_history, remove_history, List.append_assoc]
    have hrpc : (use .clone (remove .handleNewConnection (pops .newConnection c))).rpc =
        (pops .newConnection c).rpc := remove_rpc _ _
    refine began_nothing (plainly_pops _ _) (keepsFlags_pops .newConnection (by rw [hrpc])) hrem ?_
      (fun h => nomatch h)
    split_ifs <;> simp [startless]
  | accepted _ _ _ hv =>
    exact began_invited hv
      (((plainly_pops _ _).trans (plainly_use _ _)).trans (plainly_initialized _ _ _))
      (keepsFlags_pops .newConnection rfl) (use_history _ _) rfl (by simp [startless]) (Or.inl rfl)
  | reaccepted _ _ hv =>
    exact began_invited hv ((plainly_pops _ _).trans (plainly_use _ _))
      (keepsFlags_pops .newConnection rfl) (use_history _ _) rfl (by simp [startless]) (Or.inl rfl)
  | read _ _ _ hv =>
    exact began_invited hv ((((plainly_pops _ _).trans (plainly_use _ _)).trans
      (plainly_calledBack _ _ _ _)).trans (plainly_use _ _)) (keepsFlags_pops .read rfl)
      (hnil _) rfl (by simp) (Or.inr rfl)
  | @readsDone _ _ items w _ _ _ =>
    obtain ⟨acts, h1, h2⟩ := startless_tidies (calledBack .onReadsDone items w
      (use .onReadsDone (pops .read c)))
    exact began_nothing (((plainly_pops _ _).trans (plainly_use _ _)).trans
      (plainly_calledBack _ _ _ _)) (keepsFlags_pops .read (by rw [tidies_rpc]; rfl)) h1 h2
      (fun h => nomatch h)
  | @write _ _ c2 hq =>
    obtain ⟨acts, h1, h2⟩ := startless_tidies c2
    exact began_sentQueue hq ((plainly_pops _ _).trans (plainly_use _ _))
      (keepsFlags_pops .write rfl) h1 (tidies_rpc _) h2 rfl rfl
      (pops_events_of_ne (by decide) _) (Or.inl rfl)
  | @finish _ _ items w _ _ =>
    obtain ⟨acts, h1, h2⟩ := startless_tidies (calledBack .onFinish items w
      (use .onFinish (pops .finish c)))
    exact began_nothing (((plainly_pops _ _).trans (plainly_use _ _)).trans
      (plainly_calledBack _ _ _ _)) (keepsFlags_pops .finish (by rw [tidies_rpc]; rfl)) h1 h2
      (fun h => nomatch h)
  | done =>
    obtain ⟨acts, h1, h2⟩ := startless_tidies (pops .done c)
    exact began_nothing (plainly_pops _ _) (keepsFlags_pops .done (by rw [tidies_rpc])) h1 h2
      (fun h => nomatch h)
  | @writeNeeded _ _ c2 ha hq =>
    obtain ⟨acts, h1, h2⟩ := startless_tidies c2
    exact began_sentQueue hq ((plainly_wakes _).trans (plainly_use _ _)) (fun _ _ hp => hp) h1
      (tidies_rpc _) h2 rfl rfl rfl (Or.inr ⟨rfl, ha, rfl⟩)
  | stale ha =>
    have hsame : Plainly c c := ⟨[], by simp, by simp⟩
    exact began_nothing hsame (fun _ _ hp => hp) (hnil c) (by simp)
      (fun _ h => by cases ha.symm.trans h)

end Began

/-! ### Histories in which every entry is allowed -/

section Orderly
variable {l l' : Conn μ} {b : Step μ} {P : List (Act μ) → Act μ → Prop}
  {Q : Conn μ → Step μ → Prop}

/-- The history only grows. -/
theorem history_grows (hm : Moved l b l') : ∃ acts, l'.cell.history = l.cell.history ++ acts := by
  cases hm.kind with
  | delivered => exact ⟨_, rfl⟩
  | handled _ hh =>
    cases began_of_handled hh with
    | nothing acts h => exact ⟨_, h⟩
    | reads pre post h => exact ⟨_, h⟩
    | sends pre post h => exact ⟨_, h⟩
  | locked hw =>
    obtain ⟨acts, h1, -⟩ := hw.history
    exact ⟨acts, h1⟩
  | stepped hw =>
    obtain ⟨acts, h1, -⟩ := hw.history
    exact ⟨acts, h1⟩

theorem orderly_writerMoved (hP : ∀ a, byWriter a = true → ∀ pre, P pre a)
    (ho : Orderly P l.cell.history) (hw : WriterMoved l l') : Orderly P l'.cell.history := by
  obtain ⟨acts, h1, h2⟩ := hw.history
  rw [h1]
  exact ho.append_of_forall (fun a ha => hP a (h2 a ha))

/-- Of what a handled event adds, only the operation that it starts has to be allowed. -/
theorem orderly_start {h h' pre post : List (Act μ)} {op : Op μ}
    (hP : ∀ a, startless a = true → ∀ pre, P pre a) (hh : h' = h ++ (pre ++ .start op :: post))
    (hpre : ∀ a ∈ pre, plain a = true) (hpost : ∀ a ∈ post, startless a = true) :
    Orderly P h' ↔ Orderly P h ∧ P (h ++ pre) (.start op) := by
  rw [hh]
  exact orderly_append_one (fun a ha => hP a (startless_of_plain (hpre a ha)))
    (fun a ha => hP a (hpost a ha))

/-- **The exact condition for whole runs.** If `Q` is what makes the history orderly after a step,
then the histories of a run are orderly exactly if `Q` holds along it. -/
theorem along_orderly (h0 : ∀ l, Fresh l → Orderly P l.cell.history)
    (hmoved : ∀ l b l', Walks (fun _ _ => True) l → Orderly P l.cell.history → Moved l b l' →
      (Orderly P l'.cell.history ↔ Q l b)) {as : List (Action μ)} {s : State μ}
    (hr : Run (server μ cfg) as s) :
    Along (server μ cfg) ((components μ cfg).Each Q) as ↔
      ∀ (r : ℕ) (c : Cell μ), s.cells[r]? = some c → Orderly P c.history := by
  refine Iff.trans ((components μ cfg).along_iff (G := fun l => Orderly P l.cell.history) h0 ?_ ?_ hr)
    (forall_conn (G := fun c => Orderly P c.history))
  · intro l b l' _ hs ho
    obtain ⟨acts, hacts⟩ := history_grows (moved_of_step hs)
    rw [hacts] at ho
    exact (orderly_append.mp ho).1
  · intro l b l' hw ho hs
    exact hmoved l b l' hw ho (moved_of_step hs)

end Orderly

end AsyncGrpc.Single.Order
