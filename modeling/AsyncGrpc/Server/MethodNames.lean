import AsyncGrpc.Lib.Runs
import AsyncGrpc.Model.Builder
import Mathlib.Data.List.TakeWhile
import Mathlib.Tactic.Common

/-! # The names of methods

* `parseMethodFullName_eq_ok_iff`: the names that `ParseMethodFullName` accepts, and what it returns.
* `parse_method_full_name_iff`: it takes a name for what the documentation says unless something follows
  the method name, after a further slash.
* `registered_as_checked`: the names under which handlers are registered with gRPC. -/

namespace AsyncGrpc.Server.MethodNames

open AsyncGrpc.Lib.Runs AsyncGrpc.Lib.Maps AsyncGrpc.Model.Types AsyncGrpc.Model.Builder

/-! ### `getline` -/

section Getline

variable {delim : Char} {field rest str : List Char}

theorem ne_delim (h : delim ∉ field) : ∀ c ∈ field, (!decide (c = delim)) = true := by
  intro c hc
  have hne : c ≠ delim := fun he => h (he ▸ hc)
  simpa using hne

theorem getline_field (h : delim ∉ field) :
    getline delim str ⟨field ++ delim :: rest, true⟩ = (field, ⟨rest, true⟩) := by
  simp [getline, List.takeWhile_append_of_pos (ne_delim h), List.dropWhile_append_of_pos (ne_delim h)]

theorem getline_last (h : delim ∉ field) :
    getline delim str ⟨field, true⟩ = (field, ⟨[], false⟩) := by
  simp [getline, List.takeWhile_eq_self_iff.mpr (ne_delim h),
    List.dropWhile_eq_nil_iff.mpr (ne_delim h)]

theorem getline_of_not_good : getline delim str ⟨rest, false⟩ = (str, ⟨rest, false⟩) := rfl

/-- The characters are one field, or a field, a delimiter and the rest. -/
theorem field_or (delim : Char) (chars : List Char) :
    delim ∉ chars ∨ ∃ field rest, delim ∉ field ∧ chars = field ++ delim :: rest := by
  by_cases h : delim ∈ chars
  · obtain ⟨field, rest, rfl, hf⟩ := List.eq_append_cons_of_mem h
    exact .inr ⟨field, rest, hf, rfl⟩
  · exact .inl h

end Getline

/-! ### The names that are accepted -/

/-- A part of a name: not empty and without a slash. -/
def Part (name : String) : Prop := name ≠ "" ∧ '/' ∉ name.toList

/-- The documented form of a name. -/
def Documented (name : String) : Prop :=
  ∃ service method, Part service ∧ Part method ∧ name = "/" ++ service ++ "/" ++ method

/-- Something follows the method name, after a further slash. -/
def Surplus (name : String) : Prop :=
  ∃ service method rest, Part service ∧ Part method ∧
    name = "/" ++ service ++ "/" ++ method ++ "/" ++ rest

/-- What is read of the characters after the first slash. -/
def fields (chars : List Char) : List Char × List Char :=
  let (service, stream) := getline '/' [] ⟨chars, true⟩
  (service, (getline '/' [] stream).1)

theorem fields_last {service : List Char} (h : '/' ∉ service) : fields service = (service, []) := by
  simp [fields, getline_last h, getline_of_not_good]

theorem fields_two {service method : List Char} (hs : '/' ∉ service) (hm : '/' ∉ method) :
    fields (service ++ '/' :: method) = (service, method) := by
  simp [fields, getline_field hs, getline_last hm]

theorem fields_more {service method rest : List Char} (hs : '/' ∉ service) (hm : '/' ∉ method) :
    fields (service ++ '/' :: (method ++ '/' :: rest)) = (service, method) := by
  simp [fields, getline_field hs, getline_field hm]

theorem fields_cases (chars : List Char) :
    ('/' ∉ chars ∧ fields chars = (chars, [])) ∨
      ∃ service method, '/' ∉ service ∧ '/' ∉ method ∧ fields chars = (service, method) ∧
        (chars = service ++ '/' :: method ∨
          ∃ rest, chars = service ++ '/' :: (method ++ '/' :: rest)) := by
  rcases field_or '/' chars with h | ⟨service, rest, hs, rfl⟩
  · exact .inl ⟨h, fields_last h⟩
  · rcases field_or '/' rest with hm | ⟨method, rest, hm, rfl⟩
    · exact .inr ⟨service, rest, hs, hm, fields_two hs hm, .inl rfl⟩
    · exact .inr ⟨service, method, hs, hm, fields_more hs hm, .inr ⟨rest, rfl⟩⟩

theorem parseMethodFullName_slash {name : String} {chars : List Char}
    (h : name.toList = '/' :: chars) :
    parseMethodFullName name =
      if !(fields chars).1.isEmpty && !(fields chars).2.isEmpty then
        .ok (String.ofList (fields chars).1, String.ofList (fields chars).2)
      else .error .emptyName := by
  simp only [parseMethodFullName, h, if_true, fields]
  rfl

theorem slash_of_parse {name : String} {p : String × String} (h : parseMethodFullName name = .ok p) :
    ∃ chars, name.toList = '/' :: chars := by
  unfold parseMethodFullName at h
  cases hl : name.toList with
  | nil => simp [hl] at h
  | cons c chars =>
    by_cases hc : c = '/'
    · exact ⟨chars, by rw [hc]⟩
    · simp [hl, hc] at h

theorem part_ofList {chars : List Char} (hne : chars ≠ []) (hslash : '/' ∉ chars) :
    Part (String.ofList chars) := by
  refine ⟨fun h => hne ?_, by simpa using hslash⟩
  have hnil : (String.ofList chars).toList = [] := String.toList_eq_nil_iff.mpr h
  simpa using hnil

theorem Part.isEmpty {name : String} (h : Part name) : name.toList.isEmpty = false := by
  have hne : name.toList ≠ [] := fun hnil => h.1 (String.toList_eq_nil_iff.mp hnil)
  simpa using hne

/-- The name begins with a slash, and two parts follow that a slash separates. -/
theorem parseMethodFullName_eq_ok_iff {name service method : String} :
    parseMethodFullName name = .ok (service, method) ↔
      Part service ∧ Part method ∧
        (name = "/" ++ service ++ "/" ++ method ∨
          ∃ rest, name = "/" ++ service ++ "/" ++ method ++ "/" ++ rest) := by
  constructor
  · intro h
    obtain ⟨chars, hchars⟩ := slash_of_parse h
    rw [parseMethodFullName_slash hchars] at h
    rcases fields_cases chars with ⟨-, hf⟩ | ⟨s, m, hs, hm, hf, hform⟩
    · simp [hf] at h
    · simp only [hf] at h
      split at h
      · rename_i hne
        obtain ⟨rfl, rfl⟩ := Prod.mk.inj (Except.ok.inj h)
        obtain ⟨hsne, hmne⟩ : s ≠ [] ∧ m ≠ [] := by simpa using hne
        refine ⟨part_ofList hsne hs, part_ofList hmne hm, ?_⟩
        rcases hform with rfl | ⟨rest, rfl⟩
        · exact .inl (String.toList_inj.mp (by simp [hchars]))
        · exact .inr ⟨String.ofList rest, String.toList_inj.mp (by simp [hchars])⟩
      · cases h
  · rintro ⟨hs, hm, hname⟩
    obtain ⟨chars, hchars, hf⟩ : ∃ chars, name.toList = '/' :: chars ∧
        fields chars = (service.toList, method.toList) := by
      rcases hname with rfl | ⟨rest, rfl⟩
      · exact ⟨service.toList ++ '/' :: method.toList, by simp, fields_two hs.2 hm.2⟩
      · exact ⟨service.toList ++ '/' :: (method.toList ++ '/' :: rest.toList), by simp,
          fields_more hs.2 hm.2⟩
    simp [parseMethodFullName_slash hchars, hf, hs.isEmpty, hm.isEmpty]

/-! ### Names as documented -/

/-- `ParseMethodFullName` takes the name for what the documentation says: it accepts the documented form
and no other, what it returns recomposes the name, and a handler of that name is registered with gRPC under
the name of the method that it was checked against. -/
structure TakenAsDocumented (name : String) : Prop where
  accepts_iff : (∃ p, parseMethodFullName name = .ok p) ↔ Documented name
  recomposes : ∀ service method, parseMethodFullName name = .ok (service, method) →
    "/" ++ service ++ "/" ++ method = name
  registers : ∀ pool handler handlers registered, handler.methodName = name →
    registerHandler pool handler handlers = .ok registered →
      ∃ service method, checkHandlerCompatibility pool handler service method = .ok () ∧
        registered = emplaceIn service method
          ⟨⟨handler.rpcHandlerType⟩, handler.streamType, "/" ++ service ++ "/" ++ method⟩ handlers

/-- The handler info that `RegisterHandler` makes. -/
def entryOf (handler : HandlerType) : RpcHandlerInfo :=
  ⟨⟨handler.rpcHandlerType⟩, handler.streamType, handler.methodName⟩

theorem registerHandler_eq_ok {pool : DescriptorPool} {handler : HandlerType}
    {handlers registered : RpcHandlers} (h : registerHandler pool handler handlers = .ok registered) :
    ∃ service method, parseMethodFullName handler.methodName = .ok (service, method) ∧
      checkHandlerCompatibility pool handler service method = .ok () ∧
      registered = emplaceIn service method (entryOf handler) handlers := by
  obtain ⟨⟨service, method⟩, hparse, h⟩ := bind_eq_ok.mp h
  obtain ⟨⟨⟩, hcheck, h⟩ := bind_eq_ok.mp h
  exact ⟨service, method, hparse, hcheck, (Except.ok.inj h).symm⟩

/-- A name with something behind the method name is accepted and cut off. -/
theorem surplus_accepted :
    parseMethodFullName "/a/b/c" = .ok ("a", "b") ∧ ¬ TakenAsDocumented "/a/b/c" := by
  have hparse : parseMethodFullName "/a/b/c" = .ok ("a", "b") := rfl
  refine ⟨hparse, fun h => ?_⟩
  have hname := h.recomposes "a" "b" hparse
  revert hname
  decide

/-- **When a name is taken as documented.** Exactly if nothing follows the method name after a further
slash. -/
theorem parse_method_full_name_iff (name : String) : TakenAsDocumented name ↔ ¬ Surplus name := by
  constructor
  · rintro h ⟨service, method, rest, hs, hm, hname⟩
    have hparse : parseMethodFullName name = .ok (service, method) :=
      parseMethodFullName_eq_ok_iff.mpr ⟨hs, hm, .inr ⟨rest, hname⟩⟩
    have hre := congrArg (·.toList.length) ((h.recomposes service method hparse).trans hname)
    simp at hre
  · intro h
    have hname : ∀ service method, parseMethodFullName name = .ok (service, method) →
        Part service ∧ Part method ∧ name = "/" ++ service ++ "/" ++ method := by
      intro service method hparse
      obtain ⟨hs, hm, heq | ⟨rest, heq⟩⟩ := parseMethodFullName_eq_ok_iff.mp hparse
      · exact ⟨hs, hm, heq⟩
      · exact absurd ⟨service, method, rest, hs, hm, heq⟩ h
    refine ⟨⟨?_, ?_⟩, fun service method hparse => (hname service method hparse).2.2.symm, ?_⟩
    · rintro ⟨⟨service, method⟩, hparse⟩
      exact ⟨service, method, hname service method hparse⟩
    · rintro ⟨service, method, hs, hm, heq⟩
      exact ⟨_, parseMethodFullName_eq_ok_iff.mpr ⟨hs, hm, .inl heq⟩⟩
    · intro pool handler handlers registered hhandler hreg
      obtain ⟨service, method, hparse, hcheck, heq⟩ := registerHandler_eq_ok hreg
      rw [hhandler] at hparse
      rw [entryOf, hhandler] at heq
      exact ⟨service, method, hcheck, (hname service method hparse).2.2 ▸ heq⟩

/-- A documented name. -/
theorem parse_method_full_name_documented :
    ¬ Surplus "/proto.MathService/GetSum" ∧ TakenAsDocumented "/proto.MathService/GetSum" := by
  have hno : ¬ Surplus "/proto.MathService/GetSum" := by
    rintro ⟨service, method, rest, -, -, heq⟩
    -- the name has two slashes, and the surplus would bring a third one
    have htwo : "/proto.MathService/GetSum".toList.count '/' = 2 := by decide
    rw [heq] at htwo
    simp at htwo
    omega
  exact ⟨hno, (parse_method_full_name_iff _).mpr hno⟩

/-! ### Registrations -/

/-- The handler info of a method of a service. -/
def infoOf (handlers : RpcHandlers) (p : String × String) : Option RpcHandlerInfo :=
  (get handlers p.1).bind (get · p.2)

/-- Every handler is registered with gRPC under the name of the method that it was checked against. -/
def NamedAsChecked (handlers : RpcHandlers) : Prop :=
  ∀ service method info, infoOf handlers (service, method) = some info →
    info.fullyQualifiedName = "/" ++ service ++ "/" ++ method

/-- A registration keeps what is there and adds what is not. -/
theorem infoOf_emplaceIn {handlers : RpcHandlers} {service method : String} {info : RpcHandlerInfo}
    {p : String × String} :
    infoOf (emplaceIn service method info handlers) p =
      if p = (service, method) then some ((infoOf handlers p).getD info) else infoOf handlers p := by
  obtain ⟨service', method'⟩ := p
  unfold infoOf emplaceIn
  rw [get_alter]
  by_cases hs : service' = service
  · subst hs
    rw [if_pos rfl, Option.bind_some, get_emplace]
    by_cases hm : method' = method <;> cases get handlers service' <;> simp [hm]
  · simp [hs]

theorem NamedAsChecked.emplaceIn {handlers : RpcHandlers} {service method : String}
    {info : RpcHandlerInfo} (h : NamedAsChecked handlers)
    (hinfo : info.fullyQualifiedName = "/" ++ service ++ "/" ++ method) :
    NamedAsChecked (emplaceIn service method info handlers) := by
  intro service' method' info' hget
  rw [infoOf_emplaceIn] at hget
  split_ifs at hget with hp
  · cases hold : infoOf handlers (service', method') with
    | some old =>
      rw [hold] at hget
      cases hget
      exact h service' method' _ hold
    | none =>
      rw [hold] at hget
      cases hget
      cases hp
      exact hinfo
  · exact h service' method' info' hget

theorem NamedAsChecked.register {pool : DescriptorPool} {handler : HandlerType}
    {handlers registered : RpcHandlers} (h : NamedAsChecked handlers)
    (hno : ¬ Surplus handler.methodName)
    (hreg : registerHandler pool handler handlers = .ok registered) : NamedAsChecked registered := by
  obtain ⟨service, method, hparse, -, rfl⟩ := registerHandler_eq_ok hreg
  refine h.emplaceIn ?_
  obtain ⟨hs, hm, heq | ⟨rest, heq⟩⟩ := parseMethodFullName_eq_ok_iff.mp hparse
  · exact heq
  · exact absurd ⟨service, method, rest, hs, hm, heq⟩ hno

/-- **The names of all handlers.** After any number of registrations of handlers whose names have nothing
behind the method name, the name of every handler in gRPC is that of the method it was checked against. -/
theorem registered_as_checked {pool : DescriptorPool} {handlers : List HandlerType}
    {registered : RpcHandlers} (hno : ∀ handler ∈ handlers, ¬ Surplus handler.methodName)
    (h : registerHandlers pool handlers = .ok registered) : NamedAsChecked registered := by
  suffices hrun : ∀ start, NamedAsChecked start →
      handlers.foldlM (fun before handler => registerHandler pool handler before) start =
        .ok registered → NamedAsChecked registered from hrun empty (fun _ _ _ h => by cases h) h
  clear h
  induction handlers with
  | nil =>
    intro start hstart hr
    cases hr
    exact hstart
  | cons handler handlers ih =>
    intro start hstart hr
    rw [List.foldlM_cons] at hr
    obtain ⟨next, hnext, hr⟩ := bind_eq_ok.mp hr
    exact ih (fun x hx => hno x (List.mem_cons_of_mem _ hx)) next
      (hstart.register (hno handler (List.mem_cons_self ..)) hnext) hr

end AsyncGrpc.Server.MethodNames
