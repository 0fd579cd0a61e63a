import AsyncGrpc.Server.MethodNames
import AsyncGrpc.Service.Listeners

/-! # From `RegisterHandler` to the listening `Rpc`s

* `infoOf_registerHandlers`: after any number of registrations a method has the handler that was registered
  for it first.
* `registered_methods_served`: in every state of a server that was built from the registrations, each
  completion queue has exactly one `Rpc` that listens for each of the methods, with the handler registered
  first, and there is no other `Rpc`. -/

namespace AsyncGrpc.Server.Registration

open AsyncGrpc.Lib.Runs AsyncGrpc.Lib.Maps
open AsyncGrpc.Model.Types AsyncGrpc.Model.Builder AsyncGrpc.Model.Server
open AsyncGrpc.Single.Project AsyncGrpc.Single.Lifecycle AsyncGrpc.Service.Tags
open AsyncGrpc.Service.Listeners AsyncGrpc.Server.MethodNames

/-! ### Registrations -/

section Registered
variable {pool : DescriptorPool} {handlers : List HandlerType} {registered : RpcHandlers}

/-- The handler is for this method of this service. -/
def isFor (p : String × String) (handler : HandlerType) : Bool :=
  match parseMethodFullName handler.methodName with
  | .ok p' => p' = p
  | .error _ => false

/-- The handler that was registered first for the method. -/
def firstFor (handlers : List HandlerType) (p : String × String) : Option HandlerType :=
  handlers.find? (isFor p)

/-- **What is registered.** A method has the handler that was registered for it first. -/
theorem infoOf_registerHandlers (h : registerHandlers pool handlers = .ok registered) (p : String × String) :
    infoOf registered p = (firstFor handlers p).map entryOf := by
  suffices hrun : ∀ (handlers : List HandlerType) (start registered : RpcHandlers),
      handlers.foldlM (fun before handler => registerHandler pool handler before) start =
        .ok registered → infoOf registered p = (infoOf start p).or ((firstFor handlers p).map entryOf) from
    hrun handlers empty registered h
  clear h
  intro handlers
  induction handlers with
  | nil =>
    intro start registered h
    cases h
    simp [firstFor]
  | cons handler handlers ih =>
    intro start registered h
    rw [List.foldlM_cons] at h
    obtain ⟨next, hnext, h⟩ := bind_eq_ok.mp h
    obtain ⟨service, method, hparse, -, rfl⟩ := registerHandler_eq_ok hnext
    rw [ih _ _ h, infoOf_emplaceIn]
    by_cases hp : p = (service, method)
    · have hfor : isFor p handler = true := by simp [isFor, hparse, hp]
      simp only [if_pos hp, firstFor, List.find?_cons, hfor, Option.map_some]
      cases infoOf start p <;> simp
    · have hfor : isFor p handler = false := by simp [isFor, hparse, Ne.symm hp]
      simp only [if_neg hp, firstFor, List.find?_cons, hfor]

theorem parse_of_firstFor {p : String × String} {handler : HandlerType}
    (h : firstFor handlers p = some handler) : parseMethodFullName handler.methodName = .ok p := by
  have hfor := List.find?_some h
  unfold isFor at hfor
  split at hfor
  · next p' hp =>
    rw [hp]
    simpa using hfor
  · cases hfor

end Registered

/-! ### Listeners -/

section Served
variable {μ : Type} {pool : DescriptorPool} {handlers : List HandlerType} {registered : RpcHandlers}
  {completionQueues : ℕ} {eventQueueSelector : ℕ → ℕ} {s : State μ}

/-- The server that is built from the registrations. -/
def configOf (registered : RpcHandlers) (completionQueues : ℕ) (eventQueueSelector : ℕ → ℕ) : Config :=
  ⟨build registered, completionQueues, eventQueueSelector⟩

/-- The `Rpc` number `r` listens with the completion queue `q`, for the method of `info`. -/
def Serves (s : State μ) (q : ℕ) (info : RpcHandlerInfo) (r : ℕ) : Prop :=
  ∃ c, s.cells[r]? = some c ∧ c.active = true ∧ c.rpc.rpcHandlerInfo = info ∧
    c.rpc.serverCompletionQueue = q ∧ outstanding s r c .newConnection = 1

/-- The handler info at a position of the tables. -/
def Placed (registered : RpcHandlers) (i j : ℕ) (p : String × String) (info : RpcHandlerInfo) : Prop :=
  ∃ infos, registered.entries[i]? = some (p.1, infos) ∧ infos.entries[j]? = some (p.2, info)

theorem exists_placed {p : String × String} {info : RpcHandlerInfo}
    (h : infoOf registered p = some info) : ∃ i j, Placed registered i j p info := by
  obtain ⟨infos, h1, h2⟩ := Option.bind_eq_some_iff.mp h
  obtain ⟨i, hi⟩ := exists_position h1
  obtain ⟨j, hj⟩ := exists_position h2
  exact ⟨i, j, infos, hi, hj⟩

theorem Placed.infoOf {i j : ℕ} {p : String × String} {info : RpcHandlerInfo}
    (h : Placed registered i j p info) : infoOf registered p = some info := by
  obtain ⟨infos, hi, hj⟩ := h
  unfold MethodNames.infoOf
  rw [get_of_position hi, Option.bind_some]
  exact get_of_position hj

theorem Placed.unique {i j i' j' : ℕ} {p : String × String} {info info' : RpcHandlerInfo}
    (h : Placed registered i j p info) (h' : Placed registered i' j' p info') : i = i' ∧ j = j' := by
  obtain ⟨infos, hi, hj⟩ := h
  obtain ⟨infos', hi', hj'⟩ := h'
  cases position_unique hi hi'
  cases hi.symm.trans hi'
  exact ⟨rfl, position_unique hj hj'⟩

theorem mem_registrations_iff {i j q : ℕ} {info : RpcHandlerInfo} :
    ((i, j, q), info) ∈ registrations (configOf registered completionQueues eventQueueSelector) ↔
      (∃ p, Placed registered i j p info) ∧ q < completionQueues := by
  rw [mem_registrations]
  simp only [configOf, build, List.getElem?_map, Option.map_eq_some_iff, Prod.exists]
  constructor
  · rintro ⟨infos, ⟨service, table, hi, rfl⟩, hj, hq⟩
    rw [List.getElem?_map, Option.map_eq_some_iff] at hj
    obtain ⟨⟨method, info'⟩, hj, rfl⟩ := hj
    exact ⟨⟨service, method, table, hi, hj⟩, hq⟩
  · rintro ⟨⟨service, method, table, hi, hj⟩, hq⟩
    refine ⟨_, ⟨service, table, hi, rfl⟩, ?_, hq⟩
    rw [List.getElem?_map, hj]
    rfl

/-- **What is registered is served.** In every state of a server built from the registrations, and for each
method of a service that is not shutting down, each completion queue has exactly one `Rpc` that listens, with
the handler that was registered for the method first. Every `Rpc` that was ever created has such a handler. -/
theorem registered_methods_served (h : registerHandlers pool handlers = .ok registered)
    (hs : Reachable (server μ (configOf registered completionQueues eventQueueSelector)) s) :
    (∀ p handler q, firstFor handlers p = some handler → q < completionQueues →
        (∀ i, (registered.entries.map Prod.fst)[i]? = some p.1 → s.shuttingDown i = false) →
          ∃! r, Serves s q (entryOf handler) r) ∧
      ∀ c ∈ s.cells, ∃ p handler, firstFor handlers p = some handler ∧
        c.rpc.rpcHandlerInfo = entryOf handler := by
  have hinfo := infoOf_registerHandlers h
  have hatt := attended_of_reachable hs
  -- every `Rpc` holds the info at the position of its key, which names its method
  have hcell : ∀ c ∈ s.cells, ∃ p handler, Placed registered c.rpc.service c.rpc.methodIndex p
      c.rpc.rpcHandlerInfo ∧ firstFor handlers p = some handler ∧
        c.rpc.rpcHandlerInfo = entryOf handler := by
    intro c hc
    obtain ⟨⟨p, hp⟩, -⟩ := mem_registrations_iff.mp (registered_of_reachable hs c hc)
    have hlook := (hinfo p).symm.trans hp.infoOf
    obtain ⟨handler, hfirst, hentry⟩ := Option.map_eq_some_iff.mp hlook
    exact ⟨p, handler, hp, hfirst, hentry.symm⟩
  have hkey : ∀ {q r : ℕ} {p : String × String} {handler : HandlerType} {i j : ℕ},
      firstFor handlers p = some handler → Placed registered i j p (entryOf handler) →
        (Serves s q (entryOf handler) r ↔ Listening s.cells (i, j, q) r) := by
    intro q r p handler i j hfirst hplace
    rw [← listener_iff hs]
    constructor
    · rintro ⟨c, hc, hact, hin, hq, hout⟩
      obtain ⟨p', handler', hp', hfirst', hentry⟩ := hcell c (List.mem_of_getElem? hc)
      have hname : handler.methodName = handler'.methodName :=
        congrArg RpcHandlerInfo.fullyQualifiedName (hin.symm.trans hentry)
      have hpp : p = p' := by
        have h1 := parse_of_firstFor hfirst
        rw [hname, parse_of_firstFor hfirst'] at h1
        exact (Except.ok.inj h1).symm
      subst hpp
      obtain ⟨h1, h2⟩ := hp'.unique hplace
      exact ⟨c, hc, hact, h1, h2, hq, hout⟩
    · rintro ⟨c, hc, hact, rfl, rfl, hq, hout⟩
      refine ⟨c, hc, hact, ?_, hq, hout⟩
      obtain ⟨p', handler', hp', -, -⟩ := hcell c (List.mem_of_getElem? hc)
      obtain ⟨infos, h1, h2⟩ := hplace
      obtain ⟨infos', h1', h2'⟩ := hp'
      rw [h1] at h1'
      obtain rfl : infos = infos' := congrArg Prod.snd (Option.some.inj h1')
      rw [h2] at h2'
      exact (congrArg Prod.snd (Option.some.inj h2')).symm
  refine ⟨fun p handler q hfirst hq hsd => ?_, fun c hc => ?_⟩
  · have hlook : infoOf registered p = some (entryOf handler) := by rw [hinfo, hfirst]; rfl
    obtain ⟨i, j, hplace⟩ := exists_placed hlook
    have hname : (registered.entries.map Prod.fst)[i]? = some p.1 := by
      obtain ⟨infos, hi, -⟩ := hplace
      rw [List.getElem?_map, hi]
      rfl
    obtain ⟨r, hr⟩ := hatt.served _ _ (mem_registrations_iff.mpr ⟨⟨p, hplace⟩, hq⟩) (hsd i hname)
    refine ⟨r, (hkey hfirst hplace).mpr hr, fun r' hr' => ?_⟩
    exact hatt.atMost _ r' r ((hkey hfirst hplace).mp hr') hr
  · obtain ⟨p, handler, -, hfirst, hentry⟩ := hcell c hc
    exact ⟨p, handler, hfirst, hentry⟩

/-- One service with two methods. -/
def mathService : DescriptorPool :=
  [("proto.MathService", [("GetSum", ⟨"Request", "Response", true, false⟩),
    ("GetSquare", ⟨"Request", "Response", false, false⟩)])]

/-- Two of three registrations are for the same method. -/
def mathHandlers : List HandlerType :=
  [⟨"GetSumHandler", "/proto.MathService/GetSum", "Request", "Response", .clientStreaming⟩,
    ⟨"OtherGetSumHandler", "/proto.MathService/GetSum", "Request", "Response", .clientStreaming⟩,
    ⟨"GetSquareHandler", "/proto.MathService/GetSquare", "Request", "Response", .normalRpc⟩]

/-- What they lead to: the entries are in the order of the names. -/
def mathRegistered : RpcHandlers :=
  ⟨[("proto.MathService",
    ⟨[("GetSquare", ⟨⟨"GetSquareHandler"⟩, .normalRpc, "/proto.MathService/GetSquare"⟩),
      ("GetSum", ⟨⟨"GetSumHandler"⟩, .clientStreaming, "/proto.MathService/GetSum"⟩)], by decide⟩)], by decide⟩

/-- A connection was accepted, and the method still has its one listener with the second queue, with the
handler of the first registration. -/
theorem registered_methods_served_math : ∃ s : State ℕ,
    registerHandlers mathService mathHandlers = .ok mathRegistered ∧
      Reachable (server ℕ (configOf mathRegistered 2 fun _ => 0)) s ∧ s.cells.length = 5 ∧
      ∃! r, Serves s 1 ⟨⟨"GetSumHandler"⟩, .clientStreaming, "/proto.MathService/GetSum"⟩ r := by
  have hreg : registerHandlers mathService mathHandlers = .ok mathRegistered := by rfl
  obtain ⟨s, hr, hp⟩ := exists_run (server ℕ (configOf mathRegistered 2 fun _ => 0))
    [.deliver 3 .newConnection true 0, .handle 0 {}]
    (fun s => decide (s.cells.length = 5) && !s.shuttingDown 0) (by decide)
  simp only [Bool.and_eq_true, Bool.not_eq_true', decide_eq_true_eq] at hp
  refine ⟨s, hreg, hr.reachable, hp.1, ?_⟩
  refine (registered_methods_served hreg hr.reachable).1 ("proto.MathService", "GetSum")
    ⟨"GetSumHandler", "/proto.MathService/GetSum", "Request", "Response", .clientStreaming⟩ 1 (by rfl)
    (by decide) ?_
  intro i hi
  have h0 : i = 0 := by
    have hlt := (List.getElem?_eq_some_iff.mp hi).1
    simpa [mathRegistered] using hlt
  rw [h0]
  exact hp.2

end Served

end AsyncGrpc.Server.Registration
