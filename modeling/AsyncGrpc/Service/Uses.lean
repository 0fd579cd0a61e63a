import AsyncGrpc.Service.Lifetime
import AsyncGrpc.Single.Removal

/-! # Uses of an `Rpc` after its entry was dropped

While an event that came through a completion queue is handled, nothing but the entry in `ActiveRpcs`
keeps the `Rpc` of the event alive. `UsedWhileListed`: no member is used after the entry is gone.
There are three ways to break this, `HandleNewConnection` has two of them and the third is a
`WRITE_NEEDED` event that finds something to send for a removed `Rpc`. -/

namespace AsyncGrpc.Service.Uses

open AsyncGrpc.Lib.Runs AsyncGrpc.Lib.Histories
open AsyncGrpc.Model.Types AsyncGrpc.Model.Rpc AsyncGrpc.Model.Service AsyncGrpc.Model.Server
open AsyncGrpc.Single.Machine AsyncGrpc.Single.Moves AsyncGrpc.Single.Project
open AsyncGrpc.Single.Lifecycle AsyncGrpc.Single.Order AsyncGrpc.Single.Removal
open AsyncGrpc.Service.Lifetime

variable {μ : Type} {cfg : Config} {l l' : Conn μ} {b : Step μ} {c c' : Ctx μ} {sd : Bool}
  {e : RpcEvent} {rest : List RpcEvent} {h acts : List (Act μ)}

/-! ### Uses and events -/

/-- Where an event begins to be handled, and whether it came through a completion queue. -/
def eventAct : Act μ → Option Bool
  | .handle _ _ => some true
  | .wake => some false
  | _ => none

/-- The event handled last came through a completion queue. -/
def viaCompletion (h : List (Act μ)) : Bool := (h.filterMap eventAct).getLast? == some true

/-- While an event from a completion queue is handled, the `Rpc` is used only as long as its entry is
in `ActiveRpcs`; and it is only cloned then. -/
def UsedWhileListed (pre : List (Act μ)) (a : Act μ) : Prop :=
  ∀ m, a = .use m → m = .clone ∨ viaCompletion pre = true → ∀ site, .remove site ∉ pre

/-- The member that is used, if one is. -/
def member : Act μ → Option Member
  | .use m => some m
  | _ => none

theorem member_eq_some (a : Act μ) (m : Member) : member a = some m ↔ a = .use m := by
  cases a <;> simp [member]

instance instDecidableUsedWhileListed [DecidableEq μ] (pre : List (Act μ)) (a : Act μ) :
    Decidable (UsedWhileListed pre a) :=
  decidableOfReads member member_eq_some
    (fun m => m = .clone ∨ viaCompletion pre = true → ∀ site, Act.remove site ∉ pre) a

/-- The entry is not a use. -/
def useless : Act μ → Bool
  | .use _ => false
  | _ => true

theorem used_of_useless {a : Act μ} (ha : useless a = true) (pre : List (Act μ)) :
    UsedWhileListed pre a := by
  rintro m rfl
  cases ha

theorem viaCompletion_append (hacts : ∀ a ∈ acts, eventAct a = none) :
    viaCompletion (h ++ acts) = viaCompletion h := by
  unfold viaCompletion
  rw [List.filterMap_append, List.filterMap_eq_nil_iff.mpr hacts, List.append_nil]

theorem viaCompletion_wake : viaCompletion (h ++ [.wake]) = false := by
  simp [viaCompletion, eventAct]

theorem viaCompletion_handle (t : Tag) (ok : Bool) : viaCompletion (h ++ [.handle t ok]) = true := by
  simp [viaCompletion, eventAct]

/-- As long as nothing is removed, everything may be used. -/
theorem used_of_unremoved (hn : ∀ site, .remove site ∉ h) : Orderly UsedWhileListed h := by
  rintro pre a post rfl m - - site hm
  exact hn site (List.mem_append_left _ hm)

/-- What is used while a `WRITE_NEEDED` event is handled is held by the reference of the event. -/
theorem used_of_woken (ho : Orderly UsedWhileListed h)
    (hacts : ∀ a ∈ acts, eventAct a = none ∧ a ≠ .use .clone) :
    Orderly UsedWhileListed (h ++ .wake :: acts) := by
  rw [List.append_cons, orderly_append, orderly_snoc]
  refine ⟨⟨ho, used_of_useless rfl _⟩, fun pre a post he m ha hv => ?_⟩
  have hpre : ∀ a ∈ pre, eventAct a = none := fun x hx =>
    (hacts x (by rw [he]; exact List.mem_append_left _ hx)).1
  rw [viaCompletion_append hpre, viaCompletion_wake] at hv
  have hne := (hacts a (by rw [he]; simp)).2
  rcases hv with rfl | hv
  · exact absurd ha hne
  · cases hv

/-! ### One event -/

/-- The handling of an event from a completion queue begins with a use of the `Rpc`. -/
theorem handled_opens {t : Tag} (hl : Invariant l) (hi : l.inbox = .completion t :: rest)
    (hh : Handled sd (.completion t) ⟨l.cell, []⟩ c') :
    ∃ acts, c'.history = (pops t ⟨l.cell, []⟩).history ++ acts := by
  have hgrow : ∀ {c1 c2 : Ctx μ} {acts : List (Act μ)}, c2.history = c1.history ++ acts →
      (∃ acts, c1.history = (pops t ⟨l.cell, []⟩).history ++ acts) →
        ∃ acts, c2.history = (pops t ⟨l.cell, []⟩).history ++ acts := by
    rintro c1 c2 acts h2 ⟨acts1, h1⟩
    exact ⟨acts1 ++ acts, by rw [h2, h1, List.append_assoc]⟩
  refine Handled.rule (J := fun c1 => ∃ acts, c1.history = (pops t ⟨l.cell, []⟩).history ++ acts)
    (fun c1 c2 hq hj => ?_) (fun cb items w c1 _ hj => hgrow (calledBack_history c1 cb items w) hj)
    (fun items w c1 hj => hgrow (initialized_history c1 items w) hj)
    (fun c1 _ _ hj => hgrow (begins_history c1 .read) hj)
    (fun c1 item rest' _ _ _ hj => hgrow (issues_history c1 item rest') hj) hh
    (fun t' ht => ?_) (fun he => nomatch he) (hl.no_read hi)
  · obtain ⟨acts, hacts, -⟩ := hq.history
    exact hgrow hacts hj
  · cases ht
    exact ⟨[], (List.append_nil _).symm⟩

/-- Handling a `WRITE_NEEDED` event keeps the uses in order. -/
theorem used_needed (ho : Orderly UsedWhileListed c.history) (hh : Handled sd .writeNeeded c c') :
    Orderly UsedWhileListed c'.history := by
  cases hh with
  | stale => exact ho
  | @writeNeeded _ _ c1 _ hq =>
    have hsent : ∃ acts, c1.history = (use .handleSendQueue (wakes c)).history ++ acts ∧
        ∀ a ∈ acts, eventAct a = none ∧ a ≠ .use .clone := by
      cases hq with
      | idle => exact ⟨[], (List.append_nil _).symm, by simp⟩
      | issued =>
        refine ⟨_, issues_history _ _ _, fun a ha => ?_⟩
        unfold issueActs responseActs at ha
        split_ifs at ha <;> simp at ha
        · rcases ha with rfl | rfl <;> simp [eventAct]
        · subst ha
          simp [eventAct]
    obtain ⟨acts, h1, h2⟩ := hsent
    rw [tidies_history, h1, use_history, wakes_history]
    simp only [List.append_assoc, List.cons_append, List.nil_append]
    refine used_of_woken ho (fun a ha => ?_)
    simp only [List.mem_cons, List.mem_append] at ha
    rcases ha with rfl | rfl | ha | rfl | ha
    · simp [eventAct]
    · simp [eventAct]
    · exact h2 a ha
    · simp [eventAct]
    · split_ifs at ha <;> simp at ha
      subst ha
      simp [eventAct]

/-- The condition on one event: the entry is there, and it is not dropped before the clone. -/
def HandledWhileListed (l : Conn μ) : Step μ → Prop
  | .handle sd _ => ∀ t, l.inbox.head? = some (.completion t) → l.cell.active = true ∧
      (t = .newConnection → (l.cell.rpc.events .newConnection).ok = false → sd = true)
  | _ => True

theorem used_completion {t : Tag} (hl : Invariant l) (hrec : Recorded l.cell)
    (hi : l.inbox = .completion t :: rest) (hh : Handled sd (.completion t) ⟨l.cell, []⟩ c') :
    Orderly UsedWhileListed c'.history ↔ l.cell.active = true ∧
      (t = .newConnection → (l.cell.rpc.events .newConnection).ok = false → sd = true) := by
  rcases ha : l.cell.active with _ | _
  · -- the entry is gone: already the first use is one too many
    refine iff_of_false (fun ho => ?_) (fun h => nomatch h.1)
    obtain ⟨acts, hacts⟩ := handled_opens hl hi hh
    rw [hacts, pops_history] at ho
    have hno : ∀ site, Act.remove site ∉ l.cell.history := fun site hm =>
      ho (l.cell.history ++ [.handle t (l.cell.rpc.events t).ok]) (.use .service) acts (by simp)
        .service rfl (Or.inr (viaCompletion_handle _ _)) site (List.mem_append_left _ hm)
    have hlisted := hrec.mpr hno
    simp [ha] at hlisted
  have hno := hrec.mp ha
  obtain ⟨c1, he, h1, hback⟩ := hh.ended
  have hno1 : ∀ site, Act.remove site ∉ c1.history := fun site hm => hno site (hback site hm)
  cases he with
  | kept =>
    refine iff_of_true (used_of_unremoved hno1) ⟨rfl, fun ht hok => ?_⟩
    subst ht
    have hgone : c'.active = false := (handled_refuses hh ha).1.mpr (Or.inr hok)
    cases (h1.trans ha).symm.trans hgone
  | tidied he =>
    refine iff_of_true ?_ ⟨rfl, fun ht => absurd (by rw [ht]) he⟩
    rw [tidies_history, List.append_cons]
    refine (used_of_unremoved (fun site hm => ?_)).append_of_forall (fun a hm => ?_)
    · rcases List.mem_append.mp hm with hm | hm
      · exact hno1 site hm
      · simp at hm
    · refine used_of_useless ?_
      split_ifs at hm <;> simp at hm
      rw [hm]
      rfl
  | refused he hsd =>
    refine iff_of_true ?_ ⟨rfl, fun _ _ => hsd⟩
    rw [remove_history]
    refine (used_of_unremoved hno1).append_of_forall (fun a hm => used_of_useless ?_)
    split_ifs at hm <;> simp at hm
    rw [hm]
    rfl
  | failed he hsd hok =>
    -- the clone is made of an `Rpc` that was just removed
    refine iff_of_false (fun ho => ?_) (fun h => ?_)
    · rw [use_history, remove_history, h1, ha, if_pos rfl] at ho
      exact (orderly_snoc.mp ho).2 .clone rfl (Or.inl rfl) .handleNewConnection (by simp)
    · have hstops := h.2 (RpcEvent.completion.inj he) hok
      cases hsd.symm.trans hstops

/-- **The exact condition for one step**: nothing is used after the entry was dropped. -/
theorem used_moved (hl : Invariant l) (hrec : Recorded l.cell)
    (ho : Orderly UsedWhileListed l.cell.history) (hm : Moved l b l') :
    Orderly UsedWhileListed l'.cell.history ↔ HandledWhileListed l b := by
  have hwriter : ∀ a : Act μ, byWriter a = true → ∀ pre, UsedWhileListed pre a := by
    intro a ha
    refine used_of_useless ?_
    cases a <;> simp_all [byWriter, useless]
  cases hm.kind with
  | delivered => exact iff_of_true (orderly_snoc.mpr ⟨ho, used_of_useless rfl _⟩) trivial
  | @handled sd script e rest c' hi hh =>
    have hhead : ∀ t, l.inbox.head? = some (.completion t) ↔ e = .completion t := by simp [hi]
    unfold HandledWhileListed
    simp only [hhead]
    cases e with
    | writeNeeded => exact iff_of_true (used_needed ho hh) (by rintro t ⟨⟩)
    | completion t =>
      refine (used_completion hl hrec hi hh).trans ⟨fun h t' ht => ?_, fun h => h t rfl⟩
      cases ht
      exact h
  | locked hw => exact iff_of_true (orderly_writerMoved hwriter ho hw) trivial
  | stepped hw => exact iff_of_true (orderly_writerMoved hwriter ho hw) trivial

theorem used_of_fresh (hf : Fresh l) : Orderly UsedWhileListed l.cell.history := by
  obtain ⟨ty, hh⟩ := fresh_history hf
  rw [hh]
  exact used_of_unremoved (by simp)

/-! ### Whole runs -/

/-- A connection fails only when the service is shutting down. -/
def FailsOnlyAtShutdown (l : Conn μ) : Step μ → Prop
  | .handle sd _ => l.inbox.head? = some (.completion .newConnection) →
      (l.cell.rpc.events .newConnection).ok = false → sd = true
  | _ => True

/-- Every event from a completion queue finds the entry: as long as no accepted connection is
refused, and nothing is sent for a removed `Rpc`. -/
theorem active_of_completion {t : Tag} (hl : Invariant l) (hn : NotAbandoned l.cell)
    (hover : SendsOver l.cell) (ho : Orderly NotAfterRemoval l.cell.history)
    (hi : l.inbox = .completion t :: rest) : l.cell.active = true := by
  have hp := (hl.tally.of_mem (t := t) (by rw [hi]; simp)).1
  cases hl.phase with
  | listening _ ha => exact ha
  | delivered _ ha => exact ha
  | connected hc =>
    by_contra hne
    have ha : l.cell.active = false := by simpa using hne
    cases t with
    | newConnection => cases hc.settled.symm.trans hp
    | read => cases (hc.ended ha).1.symm.trans hp
    | write => cases (hover ho ha).1.symm.trans hp
    | finish => cases (hover ho ha).2.symm.trans hp
    | done => cases (hc.ended ha).2.symm.trans hp
  | refused hidle ha =>
    have hdead : Dead l := ⟨hidle.handler, ha, hn hidle.handler ha⟩
    cases (hdead.inbox hl).symm.trans hi

/-- What a walk keeps that avoids the three causes. -/
theorem used_of_walk (h : Walks (fun l b => RefusesOnlyFailed l b ∧ FailsOnlyAtShutdown l b ∧
    DrainedWhenRemoved l b) l) :
    NotAbandoned l.cell ∧ Orderly NotAfterRemoval l.cell.history ∧
      Orderly UsedWhileListed l.cell.history := by
  induction h with
  | fresh hf => exact ⟨notAbandoned_of_fresh hf, notAfterRemoval_of_fresh hf, used_of_fresh hf⟩
  | @step l l' b hw hq hs ih =>
    obtain ⟨hn, ho, hu⟩ := ih
    obtain ⟨hq1, hq2, hq3⟩ := hq
    have hm := moved_of_step hs
    have hl := invariant_of_walk hw
    have hrec := recorded_of_walk hw
    have hover := sendsOver_of_walk hw
    refine ⟨(notAbandoned_moved hl hn hm).mpr hq1, (notAfterRemoval_moved hl hrec hover ho hm).mpr hq3,
      (used_moved hl hrec hu hm).mpr ?_⟩
    cases b with
    | handle sd script =>
      intro t hhead
      obtain ⟨rest, hi⟩ := List.head?_eq_some_iff.mp hhead
      refine ⟨active_of_completion hl hn hover ho hi, fun ht => hq2 ?_⟩
      rw [hhead, ht]
    | _ => trivial

/-- **When no `Rpc` is used after its entry was dropped.** A run uses no `Rpc` in the handling of an
event from a completion queue after its entry was dropped exactly if every such event finds the entry
and no connection fails while the service is not shutting down. The events find it in every run in
which, besides, no connection is refused that gRPC has accepted and nothing is sent for an `Rpc` that
is removed. -/
theorem used_while_listed_iff {as : List (Action μ)} {s : State μ} (hr : Run (server μ cfg) as s) :
    (Along (server μ cfg) ((components μ cfg).Each HandledWhileListed) as ↔
        ∀ (r : ℕ) (c : Cell μ), s.cells[r]? = some c → Orderly UsedWhileListed c.history) ∧
      (Along (server μ cfg) ((components μ cfg).Each RefusesOnlyFailed) as →
        Along (server μ cfg) ((components μ cfg).Each FailsOnlyAtShutdown) as →
        Along (server μ cfg) ((components μ cfg).Each DrainedWhenRemoved) as →
        ∀ (r : ℕ) (c : Cell μ), s.cells[r]? = some c → Orderly UsedWhileListed c.history) := by
  constructor
  · exact along_orderly (fun _ hf => used_of_fresh hf) (fun _ _ _ hw ho hm =>
      used_moved (invariant_of_walk hw) (recorded_of_walk hw) ho hm) hr
  · intro h1 h2 h3 r c hc
    have hwalk := (components μ cfg).walk
      (Q := fun l b => RefusesOnlyFailed l b ∧ FailsOnlyAtShutdown l b ∧ DrainedWhenRemoved l b)
      (fun s a i l b h hl hb => ⟨h.1 i l b hl hb, h.2.1 i l b hl hb, h.2.2 i l b hl hb⟩) hr
      (along_and.mpr ⟨h1, along_and.mpr ⟨h2, h3⟩⟩) (conn_of_cell hc)
    exact (used_of_walk hwalk).2.2

/-- A call is answered, and its listener fails when the service shuts down. -/
theorem used_while_listed_iff_shutdown : ∃ (as : List (Action ℕ)) (s : State ℕ),
    Run (server ℕ (.single .normalRpc)) as s ∧ s.cells.all (fun c : Cell ℕ => !c.active) = true ∧
      ∀ (r : ℕ) (c : Cell ℕ), s.cells[r]? = some c → Orderly UsedWhileListed c.history := by
  obtain ⟨s, hr, hp⟩ := exists_run (server ℕ (.single .normalRpc))
    [.deliver 0 .newConnection true 7, .handle 0 { onRequest := [.send (some 8)] }, .handle 0 {},
      .stopServing 0, .deliver 0 .finish true 0, .handle 0 {}, .deliver 1 .newConnection false 0,
      .handle 0 {}, .deliver 0 .done true 0, .handle 0 {}]
    (fun s => s.cells.all (fun c : Cell ℕ => !c.active) &&
      s.cells.all (fun c : Cell ℕ => decide (Orderly UsedWhileListed c.history) &&
        (c.rpc.handler || c.active || decide (c.accepted ≠ some true)) &&
        decide (Orderly NotAfterRemoval c.history))) (by decide)
  rw [Bool.and_eq_true] at hp
  obtain ⟨hgone, hall⟩ := hp
  simp only [Bool.and_eq_true, List.all_eq_true, decide_eq_true_eq, Bool.or_eq_true] at hall
  obtain ⟨hiff, hused⟩ := used_while_listed_iff hr
  have hlisted := hiff.mpr (fun r c hc => (hall c (List.mem_of_getElem? hc)).1.1)
  refine ⟨_, s, hr, hgone, hused ?_ ?_ ?_⟩
  · exact (along_notAbandoned hr).mpr (fun r c hc hh ha =>
      (hall c (List.mem_of_getElem? hc)).1.2.resolve_left (by simp [hh, ha]))
  · intro pre a post s he hs i l b hl hb
    have := hlisted pre a post s he hs i l b hl hb
    cases b with
    | handle sd script => exact fun hhead => (this _ hhead).2 rfl
    | _ => trivial
  · exact (along_notAfterRemoval hr).mpr (fun r c hc => (hall c (List.mem_of_getElem? hc)).2)

/-- A connection fails while the service is serving: `HandleNewConnection` removes the `Rpc` and then
clones it. -/
theorem cloned_after_removal : ∃ (as : List (Action ℕ)) (s : State ℕ) (c : Cell ℕ),
    Run (server ℕ (.single .normalRpc)) as s ∧ s.cells[0]? = some c ∧
      (∃ pre post, c.history = pre ++ .use .clone :: post ∧ .remove .handleNewConnection ∈ pre) ∧
      ¬ Orderly UsedWhileListed c.history := by
  obtain ⟨s, hr, hp⟩ := exists_run (server ℕ (.single .normalRpc))
    [.deliver 0 .newConnection false 0, .handle 0 {}]
    (fun s => s.cells[0]?.any (fun c : Cell ℕ => decide (c.history =
      [.start .asyncNotifyWhenDone, .start (.requestAsync .normalRpc),
        .deliver .newConnection false 0, .handle .newConnection false, .use .service,
        .remove .handleNewConnection] ++ [.use .clone]) &&
      decide (¬ Orderly UsedWhileListed c.history))) (by decide)
  simp only [Option.any_eq_true, Bool.and_eq_true, decide_eq_true_eq] at hp
  obtain ⟨c, hc, hh, hn⟩ := hp
  exact ⟨_, s, c, hr, hc, ⟨_, [], hh, by simp⟩, hn⟩

end AsyncGrpc.Service.Uses
