import Chamge.Amqp
import Chamge.Lib.JsonGlib
import Chamge.Lib.Trace

/-! The three copies of the request/reply client. A copy checks the target queue, declares
a reply queue, publishes, subscribes, and then consumes until its wait loop is left. -/

namespace Chamge
open CString JsonGlib

/-! ### The wait loop -/

inductive WaitVerdict
  | timeout
  | failure (reply : AmqpRpcReply)
  | discard
  | reply (envelope : AmqpEnvelope)
  deriving DecidableEq

def waitVerdict (correlationId : Bytes) (o : ConsumeOutcome) : WaitVerdict :=
  match o.reply with
  | .libraryException error _ =>
    if error = amqpStatusTimeout then .timeout else .failure o.reply
  | .missing => .failure o.reply
  | .serverException _ => .failure o.reply
  | .normal =>
    let props := o.envelope.properties
    if props.correlationIdFlag = false then .discard
    -- an id of length 0 compares equal to every other
    else if strncmp correlationId props.correlationId props.correlationId.length ≠ 0 then
      .discard
    else .reply o.envelope

inductive WaitExit
  | tooMany
  | timeout
  | failure (reply : AmqpRpcReply)
  | reply (envelope : AmqpEnvelope)
  deriving DecidableEq

def WaitVerdict.exit : WaitVerdict → Option WaitExit
  | discard => none
  | timeout => some .timeout
  | failure r => some (.failure r)
  | reply e => some (.reply e)

/-- `retry_count > limit`; the arbiter's copy has no counter. -/
def overLimit (limit : Option ℕ) (retry : ℕ) : Bool := limit.any fun n => n < retry

def waitLoop (limit : Option ℕ) (correlationId : Bytes) :
    ℕ → List ConsumeOutcome → Option WaitExit
  | retry, [] => if overLimit limit retry then some .tooMany else none
  | retry, o :: os =>
    -- the counter is asked before it is raised, so the limit of 10 lets 11 messages through
    if overLimit limit retry then some .tooMany
    else match (waitVerdict correlationId o).exit with
      | some x => some x
      | none => waitLoop limit correlationId (retry + 1) os

/-! ### The request around it -/

structure Publication where
  exchange : Bytes
  routingKey : Bytes
  properties : AmqpBasicProperties
  body : Bytes
  deriving DecidableEq

/-- The outcomes of the library calls before the wait loop, in their order, with the id
that the request generates. -/
structure RpcPrelude where
  queueCheck : Except AmqpRpcReply Unit
  replyQueue : Except AmqpRpcReply Bytes
  correlationId : Bytes
  publish : Except Bytes Unit
  consume : Except AmqpRpcReply Unit

/-- `response` is the out-parameter at the return; `errors` are the `g_set_error` calls. -/
structure RpcResult where
  ret : ChamgeReturn
  response : Option Bytes
  errors : List GError
  published : Option Publication
  deriving DecidableEq

def operationFailure (message : Bytes) : GError := backendError .operationFailure message

def WaitExit.errors (text : AmqpRpcReply → Bytes) : WaitExit → List GError
  | tooMany => [operationFailure (cstr "no response to the request in 10 messages")]
  | timeout => [operationFailure (cstr "consume msg timeout")]
  | failure r => [operationFailure (cstr "consume msg failure >> " ++ text r)]
  | reply _ => []

/-- Every way out of the wait loop ends in the same assignment of `CHAMGE_RETURN_OK`. -/
def afterWait (text : AmqpRpcReply → Bytes) (response : Option Bytes) (m : Publication)
    (x : WaitExit) : RpcResult :=
  { ret := .ok, errors := x.errors text, published := some m,
    response := match x with
      | .reply e => strndup e.body
      | _ => response }

structure RpcArgs where
  channel : Int
  request : Bytes
  exchange : Option Bytes
  queueName : Option Bytes

/-- The common course of the copies after their checks of the arguments. -/
def rpcExchange (text : AmqpRpcReply → Bytes) (limit : Option ℕ) (args : RpcArgs)
    (target : Bytes) (p : RpcPrelude) (outcomes : List ConsumeOutcome)
    (response : Option Bytes) : Option RpcResult :=
  match p.queueCheck with
  | .error r => some ⟨.fail, response,
      [operationFailure (cstr "passive queue declare failure >> " ++ text r)], none⟩
  | .ok () => match p.replyQueue with
    | .error r => some ⟨.fail, response,
        [operationFailure (cstr "declare queue failure >> " ++ text r)], none⟩
    | .ok replyQueue => match p.publish with
      | .error why => some ⟨.fail, response,
          [operationFailure (cstr "publish failure >> " ++ why)], none⟩
      | .ok () =>
        -- the request is out from here on, whatever follows
        let m : Publication := ⟨args.exchange.getD [], target,
          requestProperties replyQueue p.correlationId, args.request⟩
        match p.consume with
        | .error r => some ⟨.fail, response,
            [operationFailure (cstr "basic consume failure >> " ++ text r)], some m⟩
        | .ok () => (waitLoop limit p.correlationId 0 outcomes).map (afterWait text response m)

/-- `_amqp_rpc_request`, the same text in the edge and the hub backend; a bad argument is
turned away without an error. -/
def amqpRpcRequest (args : RpcArgs) (p : RpcPrelude) (outcomes : List ConsumeOutcome)
    (response : Option Bytes) : Option RpcResult :=
  if args.channel = 0 then some ⟨.fail, response, [], none⟩
  else match args.queueName with
    | none => some ⟨.fail, response, [], none⟩
    | some target => rpcExchange amqpRpcReplyString (some 10) args target p outcomes response

def getQueueName (json : JsonParser) (request : Bytes) : Option Bytes :=
  match json.loadFromData request with
  | .error _ => none
  | .ok root => memberString (nodeGetObject root) (cstr "to")

/-- The arbiter's copy takes its target from the request itself. -/
def handleRpcUserCommand (json : JsonParser) (args : RpcArgs) (p : RpcPrelude)
    (outcomes : List ConsumeOutcome) (response : Option Bytes) : Option RpcResult :=
  if args.channel = 0 then some ⟨.fail, response, [], none⟩
  else match getQueueName json args.request with
    | none => some ⟨.fail, response,
        [backendError .missingParameter (cstr "json parsing failure to get \"to\"")], none⟩
    | some target => rpcExchange amqpGetRpcReplyString none args target p outcomes response

inductive RpcCopy
  | edge
  | hub
  | arbiter
  deriving DecidableEq, Repr

def RpcCopy.call (copy : RpcCopy) (json : JsonParser) (args : RpcArgs) (p : RpcPrelude)
    (outcomes : List ConsumeOutcome) (response : Option Bytes) : Option RpcResult :=
  match copy with
  | .edge | .hub => amqpRpcRequest args p outcomes response
  | .arbiter => handleRpcUserCommand json args p outcomes response

end Chamge
