import Chamge.Device
import Chamge.Lib.Broker
import Chamge.Lib.JsonText
import Chamge.Lib.Machine
import Chamge.UserCommand

/-! The running system: one activated arbiter agent, any number of devices, and the broker
between them. Every party is one thread, in its main loop or in the wait loop of a request. -/

namespace Chamge
open CString JsonGlib

/-! ### Names and records -/

/-- Names that the broker gives to queues, and refuses in a client's declaration. -/
def isServerNamed (q : Bytes) : Bool := (cstr "amq.").isPrefixOf q

/-- The hexadecimal form of a SHA-256 checksum. -/
def isChecksum (b : Bytes) : Bool :=
  b.length = 64 && b.all fun c => (48 ≤ c && c ≤ 57) || (97 ≤ c && c ≤ 102)

structure Config (ι : Type) where
  kind : ι → DeviceType
  uid : ι → Bytes
  enrollQueue : Bytes
  json : JsonParser
  enrollQueue_client : isServerNamed enrollQueue = false

/-- The arbiter's connection, a device's connection, and the one opened for request `k`. -/
inductive ConnId (ι : Type)
  | arbiter
  | device (d : ι)
  | temp (k : ℕ)
  deriving DecidableEq

/-- The message that caused this one to be published; not on the wire. -/
inductive Origin
  | request (k : ℕ)
  | reply (k : ℕ)
  | foreign
  deriving DecidableEq

def Origin.index : Origin → Option ℕ
  | request k | reply k => some k
  | foreign => none

def Origin.answer : Origin → Origin
  | request k => reply k
  | reply _ | foreign => foreign

structure Message where
  properties : AmqpBasicProperties
  body : Bytes
  origin : Origin
  deriving DecidableEq

def Message.envelope (m : Message) : AmqpEnvelope := ⟨1, m.properties, m.body⟩

/-- Who sends a request: the agent for a D-Bus command, a device in a lifecycle call, or a hub
for a command of its own. -/
inductive Caller (ι : Type)
  | agent
  | device (d : ι)
  | hub (d : ι)
  deriving DecidableEq

/-- The device whose process sends it. -/
def Caller.process {ι : Type} : Caller ι → Option ι
  | agent => none
  | device d | hub d => some d

/-- The caller is not on the wire. -/
structure Request (ι : Type) where
  conn : ConnId ι
  target : Bytes
  correlationId : Bytes
  replyQueue : Bytes
  body : Bytes
  caller : Caller ι

inductive Responder (ι : Type)
  | arbiter (agent : ArbiterAgent)
  | device (d : ι) (answer : Option Bytes)

/-- A message consumed from queue `q` that a pump gave to its `_process_json_message`. -/
structure Dispatched (ι : Type) where
  queue : Bytes
  message : Message
  responder : Responder ι

def Dispatched.response {ι : Type} (json : JsonParser) (e : Dispatched ι) : Bytes :=
  match e.responder with
  | .arbiter agent => (arbiterProcessJsonMessage json amqpArbiterBackend e.message.body agent).1
  | .device _ answer => deviceProcessJsonMessage json (fun _ => answer) e.message.body

/-- A message delivered on a connection of a device that is gone and did not come to the
user-command handler, and whether the device was in the arbiter's registry then. -/
structure Lost (ι : Type) where
  conn : ConnId ι
  queue : Bytes
  message : Message
  registered : Bool

/-- The state, with a record of the requests, the deliveries and what became of them. -/
structure System (ι : Type) where
  broker : Broker (ConnId ι) Bytes Message
  device : ι → Device
  agent : ArbiterAgent
  arbiterWait : Option ℕ
  requests : List (Request ι)
  delivered : List (ConnId ι × Bytes × Message)
  dispatched : List (Dispatched ι)
  accepted : List (ℕ × Message)
  lost : List (Lost ι)

variable {ι : Type} [DecidableEq ι] (cfg : Config ι)

def System.init : System ι :=
  { broker :=
      { messages := []
        consumers := fun q => if q = cfg.enrollQueue then some [.arbiter] else none
        channelOpen := fun c => c = .arbiter }
    device := fun d => .init (cfg.kind d) (cfg.uid d)
    agent := .empty, arbiterWait := none, requests := [], delivered := [], dispatched := []
    accepted := [], lost := [] }

def System.setDevice (s : System ι) (d : ι) (dev : Device) : System ι :=
  { s with device := Function.update s.device d dev }

def System.registered (s : System ι) (d : ι) : Bool :=
  isEnrolled (s.agent.listOf (cfg.kind d)) (cfg.uid d)

def System.logLost (s : System ι) (d : ι) (c : ConnId ι) (q : Bytes) (m : Message) :
    System ι :=
  { s with lost := s.lost ++ [⟨c, q, m, s.registered cfg d⟩] }

/-! ### Sending a request -/

/-- How the calls up to the wait loop come out: one fails and nothing is sent; the target
queue is missing, for which the broker closes the channel; the request is sent and the
subscription to its reply queue fails; or all succeed. -/
inductive Start
  | refused
  | noTarget
  | unheard (correlationId replyQueue : Bytes)
  | sent (correlationId replyQueue : Bytes)

def System.canSend (s : System ι) (c : ConnId ι) (target correlationId replyQueue : Bytes) :
    Bool :=
  s.broker.channelOpen c && s.broker.hasQueue target && isChecksum correlationId &&
    isServerNamed replyQueue && Clean replyQueue && !s.broker.hasQueue replyQueue &&
    s.requests.all fun r => r.replyQueue ≠ replyQueue

def System.send (s : System ι) (who : Caller ι) (c : ConnId ι)
    (target body correlationId replyQueue : Bytes) : System ι :=
  { s with
    broker := (s.broker.declare replyQueue).publish c target
      ⟨requestProperties replyQueue correlationId, body, .request s.requests.length⟩
    requests := s.requests ++ [⟨c, target, correlationId, replyQueue, body, who⟩] }

/-- The state after the start, and the request that is now waited for, if any. -/
def System.startRequest (s : System ι) (who : Caller ι) (c : ConnId ι) (target body : Bytes) :
    Start → Option (System ι × Option ℕ)
  | .refused => some (s, none)
  | .noTarget =>
    if s.broker.channelOpen c && !s.broker.hasQueue target then
      some ({ s with broker := s.broker.cancel c }, none)
    else none
  | .unheard correlationId replyQueue =>
    if s.canSend c target correlationId replyQueue then
      some (s.send who c target body correlationId replyQueue, none)
    else none
  | .sent correlationId replyQueue =>
    if s.canSend c target correlationId replyQueue then
      let sent := s.send who c target body correlationId replyQueue
      some ({ sent with broker := sent.broker.subscribe replyQueue c }, some s.requests.length)
    else none

/-! ### The device's calls -/

/-- What goes with the device's connection when that is closed. -/
def System.unread (s : System ι) (d : ι) : List (Lost ι) :=
  (s.broker.inboxOf (.device d)).map fun p =>
    ⟨.device d, p.1, p.2, s.registered cfg d⟩

/-- The backend object is unreferenced after a delist: its connection goes with what was
delivered on it. -/
def System.dropDevice (s : System ι) (d : ι) : System ι :=
  { s with
    broker := s.broker.close (.device d)
    device := Function.update s.device d (s.device d).dropBackend
    lost := s.lost ++ s.unread cfg d }

/-- The return of the backend's method, whose result the node and its subclass take. -/
def System.finishCall (s : System ι) (d : ι) (w : NodeAction × BackendMethod)
    (r : ChamgeReturn) : System ι :=
  let s := if w.2 = .delist then s.dropDevice cfg d else s
  s.setDevice d ((s.device d).finish w.1 r)

/-- The connection a request is sent on. Enroll opens the backend's own, on a socket not
opened before; delist opens one for itself. -/
def System.openFor (s : System ι) (d : ι) (method : BackendMethod) (start : Start) :
    Option (System ι × ConnId ι) :=
  match method, start with
  | .enroll, .refused => some (s, .device d)
  | .enroll, _ =>
    if (s.device d).connected then none
    else some ({ s with
      broker := s.broker.connect (.device d)
      device := Function.update s.device d { s.device d with connected := true } }, .device d)
  | .delist, _ =>
    some ({ s with broker := s.broker.connect (.temp s.requests.length) },
      .temp s.requests.length)
  | .activate, _ | .deactivate, _ => some (s, .device d)

/-- A timer that fires is an attached one. -/
def Device.allows (dev : Device) : NodeAction → Bool
  | .fire t => dev.node.timers.any fun timer => timer.id = t
  | _ => true

/-- A lifecycle call or a timer firing, up to the wait loop of its request or, where it
sends none, to its end. -/
def System.call (s : System ι) (d : ι) (a : NodeAction) (start : Start) : Option (System ι) :=
  let dev := s.device d
  if dev.idle && dev.allows a then
    match methodReached dev.node a with
    | none => some (s.setDevice d (dev.finish a .fail))
    -- the backend's deactivate sends nothing and leaves the subscription
    | some .deactivate => some (s.setDevice d { dev.finish a .ok with source := false })
    | some method =>
      (s.openFor d method start).bind fun (s, c) =>
        (s.startRequest (.device d) c cfg.enrollQueue
            (requestBody (cfg.kind d) method (cfg.uid d)) start).map fun
          | (s, none) => s.finishCall cfg d (a, method) .fail
          | (s, some k) => s.setDevice d { s.device d with wait := some ⟨a, method, k, 0⟩ }
  else none

/-! ### The wait loops -/

/-- How the calls after the wait loop come out: with `partly`, the first of them succeeds
and a later one fails. -/
inductive Finish
  | ok
  | failed
  | partly
  deriving DecidableEq

/-- The channel is closed first, then the connection. -/
def System.closeLink (s : System ι) (c : ConnId ι) : Finish → System ι
  | .ok => { s with broker := s.broker.close c }
  | .failed => s
  | .partly => { s with broker := s.broker.cancel c }

/-- `_amqp_rpc_subscribe` on the queue named by the uid. For an empty name the broker chooses
one, which then is not the required one; for one of its own names it closes the channel. -/
def System.subscribe (s : System ι) (d : ι) : Finish → Option (System ι × ChamgeReturn)
  | .failed => some (s, .fail)
  | fin =>
    if cfg.uid d = [] then some (s, .fail)
    else if !s.broker.channelOpen (.device d) then none
    else if isServerNamed (cfg.uid d) then
      some ({ s with broker := s.broker.cancel (.device d) }, .fail)
    else
      let s := { s with broker := s.broker.declare (cfg.uid d) }
      if fin = .ok then
        some ({ s with broker := s.broker.subscribe (cfg.uid d) (.device d) }, .ok)
      else some (s, .fail)

def ConnId.isTemp {ι : Type} : ConnId ι → Bool
  | temp _ => true
  | arbiter | device _ => false

/-- The connections that the device's process has opened for single requests. -/
def System.linksOf (s : System ι) (d : ι) : List (ConnId ι) :=
  ((s.requests.filter fun r => r.caller.process = some d).map Request.conn).filter ConnId.isTemp

/-- The rest of the backend's method after the wait loop has left `response`. -/
def System.endWait (s : System ι) (d : ι) (w : DeviceWait) (r : Request ι)
    (response : Option Bytes) (fin : Finish) : Option (System ι) :=
  match (cfg.kind d).validate cfg.json response w.method.shouldbe with
  | none =>
    -- the process ends, and with it all its connections
    let s := s.dropDevice cfg d
    let s := { s with broker := s.broker.closeAll (s.linksOf d) }
    some (s.setDevice d { s.device d with wait := none, crashed := true })
  | some .ok =>
    match w.method with
    | .enroll | .deactivate => some (s.finishCall cfg d (w.action, w.method) .ok)
    | .activate =>
      (s.subscribe cfg d fin).map fun (s, ret) =>
        s.setDevice d { (s.device d).finish w.action ret with source := ret = .ok }
    | .delist =>
      some ((s.closeLink r.conn fin).finishCall cfg d (w.action, w.method)
        (if fin = .ok then .ok else .fail))
  | some _ => some (s.finishCall cfg d (w.action, w.method) .fail)

/-- One pass of a device's wait loop, with the envelope it has consumed. -/
def System.waitPass (s : System ι) (d : ι) (w : DeviceWait) (r : Request ι)
    (o : ConsumeOutcome) (fin : Finish) : Option (System ι) :=
  match waitLoop (some 10) r.correlationId w.retry [o] with
  | none => some (s.setDevice d { s.device d with wait := some { w with retry := w.retry + 1 } })
  | some (.reply e) => s.endWait cfg d w r (strndup e.body) fin
  | some _ => s.endWait cfg d w r none fin

/-- A consumed message counts as accepted when it makes the loop end as the reply. -/
def System.logAccepted (s : System ι) (k : ℕ) (correlationId : Bytes) (m : Message) : System ι :=
  match waitVerdict correlationId ⟨.normal, m.envelope⟩ with
  | .reply _ => { s with accepted := s.accepted ++ [(k, m)] }
  | _ => s

def failedOutcome (reply : AmqpRpcReply) : ConsumeOutcome := ⟨reply, ⟨0, replyProperties none, []⟩⟩

/-- `failed` is the reply of an `amqp_consume_message` that brings no message. -/
def System.waitDevice (s : System ι) (d : ι) (failed : Option AmqpRpcReply) (fin : Finish) :
    Option (System ι) :=
  (s.device d).wait.bind fun w => s.requests[w.request]?.bind fun r =>
    match failed with
    | some reply =>
      if reply = .normal then none else s.waitPass cfg d w r (failedOutcome reply) fin
    | none =>
      (s.broker.receive r.conn).bind fun (q, m, broker) =>
        -- whatever the wait loop takes is acknowledged and never comes to the handler
        let s := { s with broker }.logLost cfg d r.conn q m
        let s := s.logAccepted w.request r.correlationId m
        s.waitPass cfg d w r ⟨.normal, m.envelope⟩ fin

/-- One pass of the arbiter's wait loop; `fin` is how its connection closes. -/
def System.waitArbiter (s : System ι) (failed : Option AmqpRpcReply) (fin : Finish) :
    Option (System ι) :=
  s.arbiterWait.bind fun k => s.requests[k]?.bind fun r =>
    let pass (s : System ι) (o : ConsumeOutcome) : System ι :=
      match waitLoop none r.correlationId 0 [o] with
      | none => s
      | some _ => { s.closeLink r.conn fin with arbiterWait := none }
    match failed with
    | some reply => if reply = .normal then none else some (pass s (failedOutcome reply))
    | none =>
      (s.broker.receive r.conn).map fun (_, m, broker) =>
        pass ({ s with broker }.logAccepted k r.correlationId m) ⟨.normal, m.envelope⟩

/-! ### The pumps -/

/-- The reply, or what the passive declaration of a missing reply queue leads to. -/
def System.answer (s : System ι) (c : ConnId ι) (address : ReplyAddress) (response : Bytes)
    (origin : Origin) : System ι :=
  let reply : Message := ⟨replyProperties address.correlationId, response, origin.answer⟩
  if s.broker.hasQueue address.replyQueue then
    { s with broker := s.broker.publish c address.replyQueue reply }
  else
    -- 404: the broker closes the channel of the responder's own subscription
    { s with broker := s.broker.cancel c }

def System.dispatch (s : System ι) (c : ConnId ι) (address : ReplyAddress)
    (e : Dispatched ι) : System ι :=
  { s with dispatched := s.dispatched ++ [e] }.answer c address (e.response cfg.json)
    e.message.origin

def System.pumpDevice (s : System ι) (d : ι) (answer : Option Bytes) : Option (System ι) :=
  let dev := s.device d
  if dev.idle && dev.source then
    (s.broker.receive (.device d)).map fun (q, m, broker) =>
      let s := { s with broker }
      match replyAddress m.envelope with
      | none => s.logLost cfg d (.device d) q m
      | some address =>
        -- a body that does not parse is answered without the handler
        let s := if reachesHandler cfg.json m.body then s else s.logLost cfg d (.device d) q m
        s.dispatch cfg (.device d) address ⟨q, m, .device d answer⟩
  else none

def System.pumpArbiter (s : System ι) : Option (System ι) :=
  if s.arbiterWait.isNone then
    (s.broker.receive .arbiter).map fun (q, m, broker) =>
      let s := { s with broker }
      match replyAddress m.envelope with
      | none => s
      | some address =>
        let agent := (arbiterProcessJsonMessage cfg.json amqpArbiterBackend m.body s.agent).2
        { s with agent }.dispatch cfg .arbiter address ⟨q, m, .arbiter s.agent⟩
  else none

/-- A D-Bus user command, up to the wait loop of its request or the agent's own answer. -/
def System.userCommand (s : System ι) (cmd : Bytes) (start : Start) : Option (System ι) :=
  if s.arbiterWait.isNone then
    match cfg.json.loadFromData cmd with
    | .error _ => some s
    | .ok root =>
      if (refusal s.agent (nodeGetObject root)).isSome then some s
      else match getQueueName cfg.json cmd with
        | none => some s
        | some target =>
          let c := ConnId.temp s.requests.length
          let s := { s with broker := s.broker.connect c }
          (s.startRequest .agent c target cmd start).map fun (s, k) => { s with arbiterWait := k }
  else none

/-! ### The machine -/

def System.deliver (s : System ι) (i : ℕ) (c : ConnId ι) : Option (System ι) :=
  (s.broker.deliver i c).map fun (q, m, broker) =>
    { s with broker, delivered := s.delivered ++ [(c, q, m)] }

inductive Label (ι : Type)
  | call (d : ι) (a : NodeAction) (start : Start)
  | waitDevice (d : ι) (failed : Option AmqpRpcReply) (fin : Finish)
  | pumpDevice (d : ι) (answer : Option Bytes)
  | userCommand (cmd : Bytes) (start : Start)
  | waitArbiter (failed : Option AmqpRpcReply) (fin : Finish)
  | pumpArbiter
  | deliver (i : ℕ) (c : ConnId ι)
  | lose (i : ℕ)
  | post (q : Bytes) (properties : AmqpBasicProperties) (body : Bytes)

def system : Machine (System ι) (Label ι) where
  step s
    | .call d a start => s.call cfg d a start
    | .waitDevice d failed fin => s.waitDevice cfg d failed fin
    | .pumpDevice d answer => s.pumpDevice cfg d answer
    | .userCommand cmd start => s.userCommand cfg cmd start
    | .waitArbiter failed fin => s.waitArbiter failed fin
    | .pumpArbiter => s.pumpArbiter cfg
    | .deliver i c => s.deliver i c
    | .lose i => (s.broker.lose i).map fun broker => { s with broker }
    | .post q properties body =>
      some { s with broker := s.broker.post q ⟨properties, body, .foreign⟩ }

/-! ### One edge, and a hub beside it -/

def loneEdge : Config Unit :=
  { kind := fun _ => .edge, uid := fun _ => cstr "edge-1", enrollQueue := cstr "enroll",
    json := plainParser, enrollQueue_client := by decide }

def hubAndEdge : Config Bool :=
  { kind := fun d => bif d then .hub else .edge
    uid := fun d => bif d then cstr "hub-1" else cstr "edge-1"
    enrollQueue := loneEdge.enrollQueue, json := plainParser
    enrollQueue_client := loneEdge.enrollQueue_client }

/-- An id for the `n`-th request, and the name of its reply queue. -/
def checksumOf (n : UInt8) : Bytes := List.replicate 63 97 ++ [48 + n]
def replyQueueOf (n : UInt8) : Bytes := cstr "amq.gen-" ++ [48 + n]

def sentAs (n : UInt8) : Start := .sent (checksumOf n) (replyQueueOf n)

/-- A call whose request is answered at once. -/
def answeredCall (a : NodeAction) (n : UInt8) (c : ConnId Unit) : List (Label Unit) :=
  [.call () a (sentAs n), .deliver 0 .arbiter, .pumpArbiter, .deliver 0 c,
    .waitDevice () none .ok]

def activatedRun : List (Label Unit) :=
  answeredCall (.enroll none) 0 (.device ()) ++ answeredCall .activate 1 (.device ())

def commandTo (uid : Bytes) : Bytes :=
  objectText [(cstr "method", cstr "getUrl"), (cstr "to", uid)]

end Chamge
