import Mathlib.Data.String.Basic
import AsyncGrpc.Lib.Maps
import AsyncGrpc.Model.Types

/-! # `Server::Builder`: the names of the handlers

`ParseMethodFullName` and `RegisterHandler`. A handler type is given by its name and its traits, the
generated descriptor pool by the services and methods that can be found in it; a message type stands for
its descriptor. A `std::map` is an `OrderedMap`: it is gone through in the order of its keys. -/

namespace AsyncGrpc.Model.Builder

open AsyncGrpc.Lib.Maps AsyncGrpc.Model.Types

/-- What ends the process: `at(0)` of an empty name throws, the rest are `CHECK`s. -/
inductive BuilderFatal
  | outOfRange
  | invalidMethodName
  | emptyName
  | unknownService (serviceFullName : String)
  | unknownMethod (methodName serviceFullName : String)
  | requestType
  | responseType
  | clientStreaming
  | serverStreaming
  deriving DecidableEq, Repr

/-! ### `ParseMethodFullName` -/

/-- A `std::stringstream` that is read: the characters that are left, and whether the end was not met. -/
structure StringStream where
  rest : List Char
  good : Bool
  deriving DecidableEq, Repr

/-- `std::getline(stream, str, delim)`, the new value of `str` and the stream. The delimiter is taken
from the stream and not stored; a stream whose end was met leaves `str` as it is. -/
def getline (delim : Char) (str : List Char) (stream : StringStream) : List Char × StringStream :=
  if stream.good then
    (stream.rest.takeWhile (· ≠ delim),
      match stream.rest.dropWhile (· ≠ delim) with
      | [] => ⟨[], false⟩
      | _ :: rest => ⟨rest, true⟩)
  else (str, stream)

/-- `Server::Builder::ParseMethodFullName`. -/
def parseMethodFullName (methodFullName : String) : Except BuilderFatal (String × String) :=
  match methodFullName.toList with
  | [] => .error .outOfRange
  | c :: rest =>
    if c = '/' then
      let (serviceFullName, stream) := getline '/' [] ⟨rest, true⟩
      let (methodName, _) := getline '/' [] stream
      if !serviceFullName.isEmpty && !methodName.isEmpty then
        .ok (String.ofList serviceFullName, String.ofList methodName)
      else .error .emptyName
    else .error .invalidMethodName

/-! ### `RegisterHandler` -/

/-- A `google::protobuf::MethodDescriptor`. -/
structure MethodDescriptor where
  inputType : String
  outputType : String
  clientStreaming : Bool
  serverStreaming : Bool
  deriving DecidableEq, Repr

/-- The generated `google::protobuf::DescriptorPool`. -/
abbrev DescriptorPool := List (String × List (String × MethodDescriptor))

/-- A handler type and its traits. -/
structure HandlerType where
  rpcHandlerType : String
  methodName : String
  requestType : String
  responseType : String
  streamType : RpcType
  deriving DecidableEq, Repr

/-- Whether the requests and the responses of a type of RPC are streamed. -/
def streams : RpcType → Bool × Bool
  | .normalRpc => (false, false)
  | .clientStreaming => (true, false)
  | .serverStreaming => (false, true)
  | .bidiStreaming => (true, true)

/-- `CheckHandlerCompatibility`. -/
def checkHandlerCompatibility (pool : DescriptorPool) (handler : HandlerType)
    (serviceFullName methodName : String) : Except BuilderFatal Unit :=
  match pool.lookup serviceFullName with
  | none => .error (.unknownService serviceFullName)
  | some service =>
    match service.lookup methodName with
    | none => .error (.unknownMethod methodName serviceFullName)
    | some methodDescriptor =>
      if handler.requestType ≠ methodDescriptor.inputType then .error .requestType
      else if handler.responseType ≠ methodDescriptor.outputType then .error .responseType
      else if (streams handler.streamType).1 ≠ methodDescriptor.clientStreaming then
        .error .clientStreaming
      else if (streams handler.streamType).2 ≠ methodDescriptor.serverStreaming then
        .error .serverStreaming
      else .ok ()

/-- `ServiceInfo`, the handlers of a service under their method names. -/
abbrev ServiceInfo := OrderedMap String RpcHandlerInfo

/-- `rpc_handlers_`. -/
abbrev RpcHandlers := OrderedMap String ServiceInfo

/-- `rpc_handlers_[service_full_name].emplace(method_name, info)`: an entry that exists stays. -/
def emplaceIn (serviceFullName methodName : String) (info : RpcHandlerInfo) (handlers : RpcHandlers) :
    RpcHandlers :=
  alter serviceFullName (fun infos => emplace methodName info (infos.getD empty)) handlers

/-- `Server::Builder::RegisterHandler`. -/
def registerHandler (pool : DescriptorPool) (handler : HandlerType) (handlers : RpcHandlers) :
    Except BuilderFatal RpcHandlers := do
  let methodFullName := handler.methodName
  let (serviceFullName, methodName) ← parseMethodFullName methodFullName
  checkHandlerCompatibility pool handler serviceFullName methodName
  return emplaceIn serviceFullName methodName
    ⟨⟨handler.rpcHandlerType⟩, handler.streamType, methodFullName⟩ handlers

/-- The handlers after a number of registrations. -/
def registerHandlers (pool : DescriptorPool) (handlers : List HandlerType) :
    Except BuilderFatal RpcHandlers :=
  handlers.foldlM (fun registered handler => registerHandler pool handler registered) empty

/-- `Server::Builder::Build`: the services that are added to the server. -/
def build (handlers : RpcHandlers) : List (List RpcHandlerInfo) :=
  handlers.entries.map fun service => service.2.entries.map Prod.snd

end AsyncGrpc.Model.Builder
