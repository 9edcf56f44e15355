import Chamge.Dispatch
import Chamge.Node
import Chamge.RpcRequest

/-! The user command on its way down: the agent's D-Bus handler, the node's state guard,
the arbiter, and the AMQP backend that sends it over a connection of its own. -/

namespace Chamge
open CString JsonGlib

/-! ### The AMQP backend -/

structure UserCommandSettings where
  channel : Int
  exchange : Bytes

/-- The outcomes of the library calls around the exchange, in their order; `destroy` fails
with the text of its error. -/
structure LinkOutcomes where
  parseUrl : Bool
  socketOpen : Bool
  login : AmqpRpcReply
  channelOpen : Except AmqpRpcReply Unit
  channelClose : AmqpRpcReply
  connectionClose : AmqpRpcReply
  destroy : Except Bytes Unit

inductive ConnectionEvent
  | created
  | destroyed
  deriving DecidableEq, Repr

/-- `out` and `errors` as in `RpcResult`; `connections` are the connection objects made and
released on the way. -/
structure UserCommandResult where
  ret : ChamgeReturn
  out : Option Bytes
  errors : List GError
  published : Option Publication
  connections : List ConnectionEvent
  deriving DecidableEq

/-- The tail after the exchange; the connection object is freed only by the last call. -/
def closeLink (link : LinkOutcomes) (r : RpcResult) : UserCommandResult :=
  let failed (message : Bytes) (connections : List ConnectionEvent) : UserCommandResult :=
    ⟨.fail, r.response, r.errors ++ [operationFailure message], r.published, connections⟩
  if link.channelClose ≠ .normal then
    failed (cstr "channel close failure >> " ++ amqpGetRpcReplyString link.channelClose)
      [.created]
  else if link.connectionClose ≠ .normal then
    failed (cstr "connection close failure >> " ++ amqpGetRpcReplyString link.connectionClose)
      [.created]
  else match link.destroy with
    | .error why =>
      failed (cstr "connection destroy failure >> " ++ why) [.created, .destroyed]
    | .ok () => ⟨r.ret, r.response, r.errors, r.published, [.created, .destroyed]⟩

/-- A failed exchange that has set the error leaves without closing. -/
def afterExchange (link : LinkOutcomes) (r : RpcResult) : UserCommandResult :=
  if r.ret ≠ .ok ∧ errorSlot r.errors ≠ none then
    ⟨r.ret, r.response, r.errors, r.published, [.created]⟩
  else closeLink link r

def chamgeAmqpArbiterBackendUserCommand (json : JsonParser) (settings : UserCommandSettings)
    (cmd : Bytes) (link : LinkOutcomes) (p : RpcPrelude) (outcomes : List ConsumeOutcome)
    (out : Option Bytes) : Option UserCommandResult :=
  let failed (error : GError) (connections : List ConnectionEvent) :
      Option UserCommandResult := some ⟨.fail, out, [error], none, connections⟩
  if link.parseUrl = false then
    failed (backendError .invalidParameter (cstr "url pasring failure")) []
  else if link.socketOpen = false then
    failed (operationFailure (cstr "socket open failure")) [.created]
  else if link.login ≠ .normal then
    failed (operationFailure (cstr "login failure >> " ++ amqpGetRpcReplyString link.login))
      [.created]
  else match link.channelOpen with
    | .error r =>
      failed (operationFailure (cstr "channel open failure >> " ++ amqpGetRpcReplyString r))
        [.created]
    | .ok () =>
      (handleRpcUserCommand json ⟨settings.channel, cmd, some settings.exchange, none⟩ p
        outcomes out).map (afterExchange link)

/-! ### The arbiter node -/

/-- The backend object the arbiter holds; the mock's class leaves `user_command` unset. -/
inductive ArbiterBackendObject
  | amqp (settings : UserCommandSettings)
  | mock

def chamgeArbiterBackendUserCommand (json : JsonParser)
    (backend : Option ArbiterBackendObject) (cmd : Bytes) (link : LinkOutcomes)
    (p : RpcPrelude) (outcomes : List ConsumeOutcome) (out : Option Bytes) :
    Option UserCommandResult :=
  match backend with
  | some (.amqp settings) =>
    chamgeAmqpArbiterBackendUserCommand json settings cmd link p outcomes out
  | some .mock | none => some ⟨.fail, out, [], none, []⟩

structure ArbiterNode where
  state : ChamgeNodeState
  backend : Option ArbiterBackendObject

def chamgeNodeUserCommand (json : JsonParser) (arbiter : ArbiterNode) (cmd : Bytes)
    (link : LinkOutcomes) (p : RpcPrelude) (outcomes : List ConsumeOutcome)
    (out : Option Bytes) : Option UserCommandResult :=
  if arbiter.state ≠ .activated then some ⟨.fail, out, [], none, []⟩
  else chamgeArbiterBackendUserCommand json arbiter.backend cmd link p outcomes out

/-! ### The agent -/

def isEdgeMethod (method : Option Bytes) : Bool :=
  method = some (cstr "streamingStart") || method = some (cstr "streamingStop") ||
    method = some (cstr "getUrl")

/-- `%s` of a `NULL` string. -/
def printed (s : Option Bytes) : Bytes := s.getD (cstr "(null)")

/-- The agent's own answer to a command whose device is not enrolled, if that is so. -/
def refusal (agent : ArbiterAgent) (object : Option JsonObject) : Option Bytes :=
  if objectHasMember object (cstr "method") then
    let method := nodeGetString (objectGetMember object (cstr "method"))
    if objectHasMember object (cstr "to") then
      let id := nodeGetString (objectGetMember object (cstr "to"))
      if isEdgeMethod method then
        if id.any (isEnrolled agent.edges) then none
        else some (resultBody (cstr "no edge is enrolled with edge id " ++ printed id))
      -- every other method, a missing string included, is one of the hubs'
      else if id.any (isEnrolled agent.hubs) then none
      else some (resultBody (cstr "no hub is enrolled with hub id " ++ printed id))
    else none
  else none

/-- What the handler did: the completions of the D-Bus invocation, each with its result
code and response, and what went out to the broker. -/
structure HandlerResult where
  completions : List (ChamgeReturn × Option Bytes)
  published : Option Publication
  connections : List ConnectionEvent

def failureResponse (errors : List GError) : Bytes :=
  resultBody (((errorSlot errors).map GError.message).getD (cstr "nok"))

def answerWith (r : UserCommandResult) : HandlerResult :=
  let response :=
    if r.ret ≠ .ok then some (r.out.getD (failureResponse r.errors)) else r.out
  ⟨[(r.ret, response)], r.published, r.connections⟩

def chamgeArbiterAgentHandleUserCommand (json : JsonParser) (agent : ArbiterAgent)
    (arbiter : ArbiterNode) (userCmd : Bytes) (link : LinkOutcomes) (p : RpcPrelude)
    (outcomes : List ConsumeOutcome) : Option HandlerResult :=
  match json.loadFromData userCmd with
  | .error _ => some ⟨[(.fail, some (resultBody (cstr "failed to parse body")))], none, []⟩
  | .ok root =>
    match refusal agent (nodeGetObject root) with
    | some response => some ⟨[(.fail, some response)], none, []⟩
    | none =>
      (chamgeNodeUserCommand json arbiter userCmd link p outcomes none).map answerWith

end Chamge
