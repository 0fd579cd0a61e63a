import Mathlib.Data.List.Nodup
import AsyncGrpc.Service.Tags
import AsyncGrpc.Single.Failures

/-! # The listeners of a running server

`Service::StartServing` makes one listening `Rpc` for each method and each completion queue, in a loop
over the same map from which the constructor registered the methods; from then on a listener that gets
a connection is replaced by a clone. So there is one listener for each pair until the service stops
(`listeners_kept`), and the index with which it asks gRPC for a call is that of its own method. -/

namespace AsyncGrpc.Service.Listeners

open AsyncGrpc.Lib.Runs AsyncGrpc.Model.Types AsyncGrpc.Model.Rpc AsyncGrpc.Model.Service
open AsyncGrpc.Model.Server AsyncGrpc.Single.Machine AsyncGrpc.Single.Moves AsyncGrpc.Single.Project
open AsyncGrpc.Single.Lifecycle AsyncGrpc.Single.Failures AsyncGrpc.Service.Tags

variable {μ : Type} {cfg : Config} {s s' : State μ} {l l' : Conn μ} {b : Step μ}

/-! ### Registration -/

/-- What a listener asks for: the service, the position of the method and the completion queue. -/
abbrev Key := ℕ × ℕ × ℕ

/-- The key of an `Rpc`, which never changes. -/
def key (rpc : Rpc μ) : Key := (rpc.service, rpc.methodIndex, rpc.serverCompletionQueue)

/-- The keys that the loops of `StartServing` go through, with the handler infos. -/
def registrations (cfg : Config) : List (Key × RpcHandlerInfo) :=
  cfg.services.zipIdx.flatMap fun p => p.1.zipIdx.flatMap fun m =>
    (List.range cfg.completionQueues).map fun q => ((p.2, m.2, q), m.1)

/-- The key of an `Rpc` with the handler info it holds. -/
def registration (rpc : Rpc μ) : Key × RpcHandlerInfo := (key rpc, rpc.rpcHandlerInfo)

theorem registration_of_fixed {a b : Rpc μ} (h : fixedPart a = fixedPart b) :
    registration a = registration b := by
  simp only [fixedPart, Prod.mk.injEq] at h
  simp [registration, key, h]

theorem mem_registrations {k : Key} {info : RpcHandlerInfo} :
    (k, info) ∈ registrations cfg ↔ ∃ infos, cfg.services[k.1]? = some infos ∧
      infos[k.2.1]? = some info ∧ k.2.2 < cfg.completionQueues := by
  obtain ⟨service, methodIndex, completionQueue⟩ := k
  simp only [registrations, List.mem_flatMap, List.mem_map, List.mem_range, Prod.exists,
    List.mem_zipIdx_iff_getElem?, Prod.mk.injEq]
  constructor
  · rintro ⟨infos, sv, h1, info', i, h2, q, h3, ⟨rfl, rfl, rfl⟩, rfl⟩
    exact ⟨infos, h1, h2, h3⟩
  · rintro ⟨infos, h1, h2, h3⟩
    exact ⟨infos, service, h1, info, methodIndex, h2, completionQueue, h3, ⟨rfl, rfl, rfl⟩, rfl⟩

/-- Loops over different positions meet different positions. -/
theorem pairwise_zipIdx {α : Type} (l : List α) : l.zipIdx.Pairwise fun p p' => p.2 ≠ p'.2 := by
  have hnodup : (l.zipIdx.map Prod.snd).Nodup := by
    rw [List.zipIdx_map_snd]
    exact List.nodup_range'
  exact List.pairwise_map.mp hnodup

/-- No key is registered twice. -/
theorem nodup_keys (cfg : Config) : ((registrations cfg).map Prod.fst).Nodup := by
  unfold registrations
  rw [List.map_flatMap, List.nodup_flatMap]
  refine ⟨fun p _ => ?_, (pairwise_zipIdx _).imp fun {p p'} hne k hk hk' => ?_⟩
  · rw [List.map_flatMap, List.nodup_flatMap]
    refine ⟨fun m _ => ?_, (pairwise_zipIdx _).imp fun {m m'} hne k hk hk' => ?_⟩
    · rw [List.map_map]
      refine List.Nodup.map ?_ List.nodup_range
      intro q q' hq
      simpa using hq
    · simp only [List.mem_map, List.mem_range] at hk hk'
      obtain ⟨_, ⟨q, -, rfl⟩, rfl⟩ := hk
      obtain ⟨_, ⟨q', -, rfl⟩, h⟩ := hk'
      exact hne (congrArg (·.2.1) h).symm
  · simp only [List.mem_map, List.mem_flatMap, List.mem_range] at hk hk'
    obtain ⟨_, ⟨m, -, q, -, rfl⟩, rfl⟩ := hk
    obtain ⟨_, ⟨m', -, q', -, rfl⟩, h⟩ := hk'
    exact hne (congrArg (·.1) h).symm

/-- **`StartServing` makes the `Rpc`s of the registrations, in their order.** -/
theorem start_registrations (h : start cfg = .ok s) :
    s.cells.map (fun c => registration c.rpc) = registrations cfg := by
  have hlisten : ∀ service i info (s : State μ) q s',
      startListening cfg service i info s q = .ok s' →
        s'.cells.map (fun c => registration c.rpc) =
          s.cells.map (fun c => registration c.rpc) ++ [((service, i, q), info)] := by
    intro service i info s q s' h
    obtain ⟨c, hc, rfl⟩ := addRpc_eq_ok h
    cases (listen_newRpc _ _ _ _ _).symm.trans hc
    rw [List.map_append]
    rfl
  have hloop := foldlM_append (g := fun s : State μ => s.cells.map (fun c => registration c.rpc))
    (fun s p s' h => foldlM_append (fun s m s' h => foldlM_append (hlisten p.2 m.2 m.1) h) h) h
  rw [hloop]
  simp [State.empty, registrations, List.map_eq_flatMap]

/-- The constructor registers the methods at the positions that `StartServing` counts. -/
theorem addMethods_eq (infos : List RpcHandlerInfo) :
    addMethods infos = infos.map fun info => ⟨info.fullyQualifiedName, info.rpcType⟩ := by
  unfold addMethods
  rw [List.foldl_append_eq_append]
  rw [List.nil_append, ← List.flatMap_def, List.map_eq_flatMap]

/-! ### Listening -/

/-- The `Rpc` is in `ActiveRpcs`, and its `NEW_CONNECTION` event is pending. -/
def Waits (c : Cell μ) : Prop := c.active = true ∧ (c.rpc.events .newConnection).pending = true

/-- The `Rpc` number `r` listens for the key `k`. -/
def Listening (cells : List (Cell μ)) (k : Key) (r : ℕ) : Prop :=
  ∃ c, cells[r]? = some c ∧ Waits c ∧ key c.rpc = k

theorem listening_iff {cells : List (Cell μ)} {k : Key} {r : ℕ} {c : Cell μ}
    (hc : cells[r]? = some c) : Listening cells k r ↔ Waits c ∧ key c.rpc = k := by
  simp [Listening, hc]

/-- An `Rpc` listens for one key only. -/
theorem Listening.key_eq {cells : List (Cell μ)} {k k' : Key} {r : ℕ} (h : Listening cells k r)
    (h' : Listening cells k' r) : k = k' := by
  obtain ⟨c, hc, -, rfl⟩ := h
  obtain ⟨c', hc', -, rfl⟩ := h'
  cases hc.symm.trans hc'
  rfl

theorem not_listening_of_le {cells : List (Cell μ)} {k : Key} {r : ℕ} (h : cells.length ≤ r) :
    ¬ Listening cells k r := by
  simp [Listening, List.getElem?_eq_none h]

theorem listening_set {cells : List (Cell μ)} {k : Key} {r r0 : ℕ} {c0 c : Cell μ}
    (h0 : cells[r0]? = some c0) : Listening (cells.set r0 c) k r ↔
      r = r0 ∧ Waits c ∧ key c.rpc = k ∨ r ≠ r0 ∧ Listening cells k r := by
  have hlt : r0 < cells.length := (List.getElem?_eq_some_iff.mp h0).1
  by_cases hr : r = r0
  · subst hr
    simp [listening_iff (List.getElem?_set_self hlt)]
  · simp [Listening, List.getElem?_set_ne (Ne.symm hr), hr]

theorem listening_append {cells : List (Cell μ)} {k : Key} {r : ℕ} {c : Cell μ} :
    Listening (cells ++ [c]) k r ↔
      Listening cells k r ∨ r = cells.length ∧ Waits c ∧ key c.rpc = k := by
  rcases Nat.lt_trichotomy r cells.length with hr | hr | hr
  · simp [Listening, List.getElem?_append_left hr, Nat.ne_of_lt hr]
  · subst hr
    simp [Listening]
  · have hlen : (cells ++ [c]).length ≤ r := by
      rw [List.length_append, List.length_singleton]
      omega
    simp [not_listening_of_le hlen, not_listening_of_le (Nat.le_of_lt hr), Nat.ne_of_gt hr]

/-- The step handles the `NEW_CONNECTION` event. -/
def Connects (l : Conn μ) : Step μ → Prop
  | .handle _ _ => l.inbox.head? = some (.completion .newConnection)
  | _ => False

/-- After `NEW_CONNECTION` was handled it is not pending, and no other event makes it so. -/
theorem newConnection_handled {sd : Bool} {e : RpcEvent} {c c' : Ctx μ} (hh : Handled sd e c c')
    (hr : e = .completion .newConnection → (c.rpc.events .read).pending = false) :
    (c'.rpc.events .newConnection).pending = true →
      e ≠ .completion .newConnection ∧ (c.rpc.events .newConnection).pending = true := by
  refine hh.rule (J := fun c' => (c'.rpc.events .newConnection).pending = true →
    e ≠ .completion .newConnection ∧ (c.rpc.events .newConnection).pending = true)
    (fun _ _ hq h => by rw [hq.rpc]; exact h) (fun _ _ _ _ _ h => h) (fun _ _ _ h => h)
    (fun c1 ht _ h => ?_) (fun c1 item rest hq hw hf h => ?_) (fun t he hp => ⟨?_, ?_⟩)
    (fun he hp => ⟨by simp [he], hp⟩) hr
  · rw [(Invited.streaming ht).events_of_ne (by decide)]
    exact h
  · rw [(SentQueue.issued hq hw hf).events_of_ne (by decide) (by decide)]
    exact h
  · rintro rfl
    cases he
    cases (pops_pending_self _ _).symm.trans hp
  · exact pending_of_pops hp

/-- A step starts or ends no listening, except that of the listener that gets its connection. -/
theorem waits_moved (hl : Invariant l) (hm : Moved l b l') :
    (¬ Connects l b ∧ (Waits l'.cell ↔ Waits l.cell)) ∨
      (Connects l b ∧ Waits l.cell ∧ ¬ Waits l'.cell) := by
  cases hm with
  | @delivered t ok m hd =>
    refine Or.inl ⟨id, ?_⟩
    unfold Waits
    rw [pending_deliver]
    rfl
  | @handled sd script e rest c' hi hh =>
    have hnew := newConnection_handled hh (hl.no_read hi)
    by_cases he : e = .completion .newConnection
    · subst he
      refine Or.inr ⟨by simp [Connects, hi], ⟨(hl.idle hi).2.1, ?_⟩, fun hw => (hnew hw.2).1 rfl⟩
      exact (hl.tally.of_mem (by rw [hi]; simp)).1
    · have hsettled : (l.cell.rpc.events .newConnection).pending = false := by
        cases hl.phase with
        | listening _ _ _ _ _ hin => cases hin.symm.trans hi
        | delivered _ _ _ _ _ hin => exact absurd (List.cons.inj (hi.symm.trans hin)).1 he
        | connected hc => exact hc.settled
        | refused _ _ _ hn => exact hn
      refine Or.inl ⟨by simp [Connects, hi, he], ⟨fun hw => ?_, fun hw => ?_⟩⟩
      · cases hsettled.symm.trans (hnew hw.2).2
      · cases hsettled.symm.trans hw.2
  | _ => exact Or.inl ⟨id, Iff.rfl⟩

/-! ### The steps of the server -/

/-- What a step of the server does to the list of `Rpc`s: nothing, when a service stops, or it moves
one of them, and a connection to a service that is not shutting down adds a listener like it. -/
theorem cells_of_step {a : Action μ} (hs : Reachable (server μ cfg) s)
    (hstep : (server μ cfg).Step s a s') :
    (s'.cells = s.cells ∧ ∃ service,
        s'.shuttingDown = Function.update s.shuttingDown service true) ∨
      s'.shuttingDown = s.shuttingDown ∧ ∃ r l b l', conn s r = some l ∧ Moved l b l' ∧
        (s'.cells = s.cells.set r l'.cell ∧
            (Connects l b → s.shuttingDown l.cell.rpc.service = true) ∨
          Connects l b ∧ s.shuttingDown l.cell.rpc.service = false ∧
            ∃ n, s'.cells = s.cells.set r l'.cell ++
              [relistener (cfg.eventQueueSelector n) l'.cell.rpc]) := by
  cases a with
  | stopServing service => cases hstep; exact Or.inl ⟨rfl, service, rfl⟩
  | handle q script =>
    obtain ⟨r, e, rest, c, hq, hc, hn⟩ := handleNext_of_step hstep
    obtain ⟨c1, hc1, hl⟩ := conn_head hs hq
    cases hc.symm.trans hc1
    obtain ⟨c', new, h1, h2⟩ := handleNext_eq_ok hn
    have hm : Moved ⟨c, e :: pick r rest⟩ (.handle (s.shuttingDown c.rpc.service) script)
        (ofCtx (pick r rest) c') := .handled rfl (handled_of_handle h1)
    have hnew := handle_new_eq h1
    rcases h2 with ⟨rfl, rfl⟩ | ⟨rfl, rfl⟩
    · refine Or.inr ⟨rfl, r, _, _, _, hl, hm, Or.inl ⟨rfl, fun hcon => ?_⟩⟩
      by_contra hsd
      rw [if_pos ⟨Bool.eq_false_iff.mpr hsd, Option.some.inj hcon⟩] at hnew
      cases hnew
    · split_ifs at hnew with hcond
      exact Or.inr ⟨rfl, r, _, _, _, hl, hm,
        Or.inr ⟨congrArg some hcond.2, hcond.1, _, rfl⟩⟩
  | _ =>
    obtain ⟨r, c, c', b, hc, hb, ha, rfl⟩ := own_of_step hstep (by simp) (by simp)
    refine Or.inr ⟨rfl, r, _, b, _, conn_of_cell hc, moved_of_step (hb _), Or.inl ⟨rfl, ?_⟩⟩
    cases b with
    | handle sd script =>
      obtain ⟨_, _, _, ha', -⟩ := exists_of_actOf ((ha r).trans (if_pos rfl)) hc
      cases ha'
    | _ => exact False.elim

/-- What a step of the server does to the listeners: nothing; or one of them gets its connection,
and it is replaced unless its service is shutting down. -/
inductive Relisted (s s' : State μ) : Prop
  | same (h : ∀ k r, Listening s'.cells k r ↔ Listening s.cells k r)
      (hsd : ∀ service, s'.shuttingDown service = false → s.shuttingDown service = false)
  | closed {k0 : Key} {r0 : ℕ} (h0 : Listening s.cells k0 r0) (hstop : s.shuttingDown k0.1 = true)
      (h : ∀ k r, Listening s'.cells k r ↔ r ≠ r0 ∧ Listening s.cells k r)
      (hsd : s'.shuttingDown = s.shuttingDown)
  | replaced {k0 : Key} {r0 r1 : ℕ} (h0 : Listening s.cells k0 r0)
      (h1 : ∀ k, ¬ Listening s.cells k r1)
      (h : ∀ k r, Listening s'.cells k r ↔ r ≠ r0 ∧ Listening s.cells k r ∨ k = k0 ∧ r = r1)
      (hsd : s'.shuttingDown = s.shuttingDown)

theorem relisted_of_step {a : Action μ} (hs : Reachable (server μ cfg) s)
    (hstep : (server μ cfg).Step s a s') : Relisted s s' := by
  obtain ⟨hcells, service, hsd⟩ | ⟨hsd, r, l, b, l', hl, hm, hcells⟩ := cells_of_step hs hstep
  · refine .same (fun k r => by rw [hcells]) (fun sv h => ?_)
    rw [hsd] at h
    by_cases hsv : sv = service
    · subst hsv
      rw [Function.update_self] at h
      cases h
    · rwa [Function.update_of_ne hsv] at h
  have hc := (conn_eq_some.mp hl).1
  have hkey : registration l'.cell.rpc = registration l.cell.rpc := registration_of_fixed hm.fixed
  have hkey' : key l'.cell.rpc = key l.cell.rpc := congrArg Prod.fst hkey
  rcases waits_moved (invariant_of_reachable hs hl) hm with ⟨hcon, hw⟩ | ⟨hcon, hw, hw'⟩
  · obtain ⟨hcells, -⟩ | ⟨hcon', -⟩ := hcells
    · refine .same (fun k r1 => ?_) (fun sv h => by rwa [hsd] at h)
      rw [hcells, listening_set hc, hkey', hw]
      by_cases hr : r1 = r
      · subst hr
        simp [listening_iff hc]
      · simp [hr]
    · exact absurd hcon' hcon
  · have h0 : Listening s.cells (key l.cell.rpc) r := (listening_iff hc).mpr ⟨hw, rfl⟩
    obtain ⟨hcells, hstop⟩ | ⟨-, -, n, hcells⟩ := hcells
    · refine .closed h0 (hstop hcon) (fun k r1 => ?_) hsd
      rw [hcells, listening_set hc]
      simp [hw']
    · have hnew : ∀ q, Waits (relistener q l'.cell.rpc) := fun q => ⟨rfl, rfl⟩
      have hkeynew : ∀ q, key (relistener q l'.cell.rpc).rpc = key l.cell.rpc := fun q => hkey'
      refine .replaced h0 (fun k => not_listening_of_le (Nat.le_refl _)) (fun k r1 => ?_) hsd
      rw [hcells, listening_append, listening_set hc, List.length_set, hkeynew]
      simp [hw', hnew, and_comm, eq_comm]

/-! ### Whole runs -/

/-- At most one `Rpc` listens for a key, and one does for every registered key of a service that is
not shutting down. -/
structure Attended (cfg : Config) (s : State μ) : Prop where
  atMost : ∀ k r r', Listening s.cells k r → Listening s.cells k r' → r = r'
  served : ∀ k info, (k, info) ∈ registrations cfg → s.shuttingDown k.1 = false →
    ∃ r, Listening s.cells k r

theorem Attended.relisted (h : Attended cfg s) (hr : Relisted s s') : Attended cfg s' := by
  cases hr with
  | same hiff hsd =>
    refine ⟨fun k r r' h1 h2 => ?_, fun k info hk hstop => ?_⟩
    · exact h.atMost k r r' ((hiff k r).mp h1) ((hiff k r').mp h2)
    · obtain ⟨r, hr⟩ := h.served k info hk (hsd _ hstop)
      exact ⟨r, (hiff k r).mpr hr⟩
  | @closed k0 r0 h0 hstop hiff hsd =>
    refine ⟨fun k r r' h1 h2 => ?_, fun k info hk hrun => ?_⟩
    · exact h.atMost k r r' ((hiff k r).mp h1).2 ((hiff k r').mp h2).2
    · rw [hsd] at hrun
      obtain ⟨r, hr⟩ := h.served k info hk hrun
      refine ⟨r, (hiff k r).mpr ⟨?_, hr⟩⟩
      rintro rfl
      -- its service is not the one that is shutting down
      rw [hr.key_eq h0] at hrun
      cases hstop.symm.trans hrun
  | @replaced k0 r0 r1 h0 h1 hiff hsd =>
    have hsole : ∀ k r, Listening s'.cells k r → k = k0 → r = r1 := by
      rintro k r hl rfl
      rcases (hiff k r).mp hl with ⟨hne, hold⟩ | ⟨-, rfl⟩
      · exact absurd (h.atMost k r r0 hold h0) hne
      · rfl
    refine ⟨fun k r r' hl hl' => ?_, fun k info hk hrun => ?_⟩
    · by_cases hk : k = k0
      · rw [hsole k r hl hk, hsole k r' hl' hk]
      · have hold : ∀ r, Listening s'.cells k r → Listening s.cells k r := fun r hr =>
          ((hiff k r).mp hr).elim (fun h => h.2) (fun h => absurd h.1 hk)
        exact h.atMost k r r' (hold r hl) (hold r' hl')
    · by_cases hk0 : k = k0
      · exact ⟨r1, (hiff k r1).mpr (Or.inr ⟨hk0, rfl⟩)⟩
      · rw [hsd] at hrun
        obtain ⟨r, hr⟩ := h.served k info hk hrun
        refine ⟨r, (hiff k r).mpr (Or.inl ⟨?_, hr⟩)⟩
        rintro rfl
        exact hk0 (hr.key_eq h0)

/-- After `StartServing` the `Rpc` at a position listens for the key registered there. -/
theorem listening_init {k : Key} {r : ℕ} : Listening (server μ cfg).init.cells k r ↔
    ∃ info, (registrations cfg)[r]? = some (k, info) := by
  have hreg := start_registrations (start_eq (μ := μ) cfg)
  have hfresh := (started_init : Started (server μ cfg).init).2
  rw [← hreg, List.getElem?_map]
  simp only [Option.map_eq_some_iff]
  constructor
  · rintro ⟨c, hc, -, rfl⟩
    exact ⟨c.rpc.rpcHandlerInfo, c, hc, rfl⟩
  · rintro ⟨info, c, hc, hk⟩
    obtain ⟨i, q, q', info', sv, he⟩ := fresh_eq (hfresh c (List.mem_of_getElem? hc))
    have hcell : c = (listening (newRpc i q q' info' sv)).toCell := congrArg Conn.cell he
    have hwaits : Waits c := by
      rw [hcell]
      exact ⟨rfl, rfl⟩
    exact ⟨c, hc, hwaits, congrArg Prod.fst hk⟩

theorem attended_init : Attended cfg (server μ cfg).init := by
  refine ⟨fun k r r' h h' => ?_, fun k info hk _ => ?_⟩
  · obtain ⟨info, hr⟩ := listening_init.mp h
    obtain ⟨info', hr'⟩ := listening_init.mp h'
    have hk : ((registrations cfg).map Prod.fst)[r]? = ((registrations cfg).map Prod.fst)[r']? := by
      rw [List.getElem?_map, List.getElem?_map, hr, hr']
      rfl
    refine (List.getElem?_inj ?_ (nodup_keys cfg)).mp hk
    rw [List.length_map]
    exact (List.getElem?_eq_some_iff.mp hr).1
  · obtain ⟨r, hr⟩ := List.mem_iff_getElem?.mp hk
    exact ⟨r, listening_init.mpr ⟨info, hr⟩⟩

theorem attended_of_reachable (hs : Reachable (server μ cfg) s) : Attended cfg s := by
  obtain ⟨as, hr⟩ := hs
  induction hr with
  | init => exact attended_init
  | step hr hstep ih => exact ih.relisted (relisted_of_step hr.reachable hstep)

/-- What holds of the `Rpc`s that `StartServing` makes and of the clones of an `Rpc` of which it holds
is true of every `Rpc`, if it is about the fixed fields. -/
theorem forall_cells_of_reachable {P : Rpc μ → Prop}
    (h0 : ∀ c ∈ (server μ cfg).init.cells, P c.rpc)
    (hfixed : ∀ a b : Rpc μ, fixedPart a = fixedPart b → P b → P a)
    (hclone : ∀ n (rpc : Rpc μ), P rpc → P (relistener (cfg.eventQueueSelector n) rpc).rpc)
    (hs : Reachable (server μ cfg) s) : ∀ c ∈ s.cells, P c.rpc := by
  obtain ⟨as, hr⟩ := hs
  induction hr with
  | init => exact h0
  | @step as s s' a hr hstep ih =>
    obtain ⟨hcells, -⟩ | ⟨-, r, l, b, l', hl, hm, hcells⟩ := cells_of_step hr.reachable hstep
    · rw [hcells]
      exact ih
    have hmoved : P l'.cell.rpc :=
      hfixed _ _ hm.fixed (ih _ (List.mem_of_getElem? (conn_eq_some.mp hl).1))
    have hset : ∀ c ∈ s.cells.set r l'.cell, P c.rpc := by
      intro c hc
      rcases List.mem_or_eq_of_mem_set hc with hc | rfl
      · exact ih c hc
      · exact hmoved
    obtain ⟨hcells, -⟩ | ⟨-, -, n, hcells⟩ := hcells
    · rw [hcells]
      exact hset
    · intro c hc
      rw [hcells, List.mem_append, List.mem_singleton] at hc
      rcases hc with hc | rfl
      · exact hset c hc
      · exact hclone n _ hmoved

/-- Every `Rpc` is for a registered key and holds the handler info registered with it. -/
theorem registered_of_reachable (hs : Reachable (server μ cfg) s) :
    ∀ c ∈ s.cells, registration c.rpc ∈ registrations cfg := by
  refine forall_cells_of_reachable (P := fun rpc => registration rpc ∈ registrations cfg)
    (fun c hc => ?_) (fun a b hab hb => ?_) (fun n rpc h => h) hs
  · rw [← start_registrations (start_eq (μ := μ) cfg)]
    exact List.mem_map_of_mem hc
  · rwa [registration_of_fixed hab]

/-- The `Rpc` number `r` is in the `ActiveRpcs` of the service, for the method at `methodIndex` and
the completion queue, and its `NEW_CONNECTION` tag is outstanding. -/
def Listener (s : State μ) (service methodIndex completionQueue r : ℕ) : Prop :=
  ∃ c, s.cells[r]? = some c ∧ c.active = true ∧ c.rpc.service = service ∧
    c.rpc.methodIndex = methodIndex ∧ c.rpc.serverCompletionQueue = completionQueue ∧
    outstanding s r c .newConnection = 1

theorem listener_iff (hs : Reachable (server μ cfg) s) {service methodIndex completionQueue r : ℕ} :
    Listener s service methodIndex completionQueue r ↔
      Listening s.cells (service, methodIndex, completionQueue) r := by
  unfold Listener Listening Waits key
  refine exists_congr fun c => and_congr_right fun hc => ?_
  have hl := conn_of_cell hc
  have hout : outstanding s r c .newConnection = flag c.rpc .newConnection :=
    (outstanding_eq hl _).trans ((invariant_of_reachable hs hl).tally _)
  rw [hout, flag_eq_one]
  simp only [Prod.mk.injEq]
  tauto

/-- **One listener for each method and completion queue.** In every state of every run, a method of a
service that is not shutting down has exactly one listener on each completion queue, and there are
never two. Every `Rpc` in `ActiveRpcs` carries the position at which its method was registered.
Neither `StartServing` nor a later step fails the `CHECK` of `ActiveRpcs::Add`. (A listener whose
connection failed is replaced too; it is cloned after its entry was removed.) -/
theorem listeners_kept (hs : Reachable (server μ cfg) s) :
    (∀ service infos methodIndex completionQueue, cfg.services[service]? = some infos →
        methodIndex < infos.length → completionQueue < cfg.completionQueues →
        s.shuttingDown service = false →
          ∃! r, Listener s service methodIndex completionQueue r) ∧
      (∀ service methodIndex completionQueue r r',
        Listener s service methodIndex completionQueue r →
        Listener s service methodIndex completionQueue r' → r = r') ∧
      (∀ (r : ℕ) (c : Cell μ), s.cells[r]? = some c → c.active = true →
        ∃ infos, cfg.services[c.rpc.service]? = some infos ∧
          infos[c.rpc.methodIndex]? = some c.rpc.rpcHandlerInfo ∧
          (addMethods infos)[c.rpc.methodIndex]? = some
            ⟨c.rpc.rpcHandlerInfo.fullyQualifiedName, c.rpc.rpcHandlerInfo.rpcType⟩) ∧
      start cfg = .ok (server μ cfg).init ∧
      ∀ a, ¬ (server μ cfg).Aborts s a .rpcAlreadyActive := by
  have hatt := attended_of_reachable hs
  refine ⟨fun service infos i q h1 h2 h3 h4 => ?_, fun service i q r r' h h' => ?_,
    fun r c hc _ => ?_, start_eq cfg, fun a ha => ?_⟩
  · have hk : ((service, i, q), infos.get ⟨i, h2⟩) ∈ registrations cfg :=
      mem_registrations.mpr ⟨infos, h1, List.getElem?_eq_getElem h2, h3⟩
    obtain ⟨r, hr⟩ := hatt.served _ _ hk h4
    refine ⟨r, (listener_iff hs).mpr hr, fun r' hr' => ?_⟩
    exact hatt.atMost _ r' r ((listener_iff hs).mp hr') hr
  · exact hatt.atMost _ r r' ((listener_iff hs).mp h) ((listener_iff hs).mp h')
  · obtain ⟨infos, h1, h2, -⟩ :=
      mem_registrations.mp (registered_of_reachable hs c (List.mem_of_getElem? hc))
    refine ⟨infos, h1, h2, ?_⟩
    replace h2 : infos[c.rpc.methodIndex]? = some c.rpc.rpcHandlerInfo := h2
    rw [addMethods_eq, List.getElem?_map, h2]
    rfl
  · obtain ⟨r, l, b, hl, -, hstep⟩ := step_of_aborts hs ha
    have hwalk := walks_of_reachable hs hl
    rcases step_fails (invariant_of_walk hwalk) (equipped_of_walk hwalk) hstep with
      ⟨⟨hf, -⟩, -⟩ | ⟨hf, -⟩ <;> cases hf

/-- Two methods on two completion queues: the listener of the second method on the second queue has
got a connection, and a fifth `Rpc` listens in its place. -/
theorem listeners_kept_replaced : ∃ s : State ℕ,
    Reachable (server ℕ ⟨[[⟨⟨"A"⟩, .normalRpc, "/proto.Service/A"⟩, ⟨⟨"B"⟩, .bidiStreaming, "/proto.Service/B"⟩]],
      2, fun n => n % 2⟩) s ∧ s.cells.length = 5 ∧ (∃! r, Listener s 0 1 1 r) ∧
      ¬ Listener s 0 1 1 3 := by
  obtain ⟨s, hr, hp⟩ := exists_run (server ℕ
    ⟨[[⟨⟨"A"⟩, .normalRpc, "/proto.Service/A"⟩, ⟨⟨"B"⟩, .bidiStreaming, "/proto.Service/B"⟩]], 2,
      fun n => n % 2⟩)
    [.deliver 3 .newConnection true 0, .handle 1 {}]
    (fun s => decide (s.cells.length = 5) && !s.shuttingDown 0 &&
      s.cells[3]?.any (fun c : Cell ℕ => decide (outstanding s 3 c .newConnection = 0)))
    (by decide)
  simp only [Bool.and_eq_true, decide_eq_true_eq, Bool.not_eq_true', Option.any_eq_true] at hp
  obtain ⟨⟨hlen, hsd⟩, c, hc, hout⟩ := hp
  refine ⟨s, hr.reachable, hlen, ?_, ?_⟩
  · exact (listeners_kept hr.reachable).1 0 _ 1 1 rfl (by decide) (by decide) hsd
  · rintro ⟨c', hc', -, -, -, -, hout'⟩
    cases hc.symm.trans hc'
    cases hout.symm.trans hout'

end AsyncGrpc.Service.Listeners
