import Chamge.AmqpDevice
import Chamge.DelistFailure

/-! The backend classes, AMQP and mock, as tables of methods, and a node over an object of
such a class. A slot that a class leaves unset is `none`. -/

namespace Chamge
open CString JsonGlib

/-! ### The user command of the AMQP hub -/

/-- The arbiter's and the hub's user command over a connection of its own; `exchange` is the
request and its reply. -/
def overOwnConnection (link : LinkOutcomes) (out : Option Bytes) (exchange : Option RpcResult) :
    Option UserCommandResult :=
  let failed (error : GError) (connections : List ConnectionEvent) :
      Option UserCommandResult := some ⟨.fail, out, [error], none, connections⟩
  if link.parseUrl = false then
    failed (backendError .invalidParameter (cstr "url pasring failure")) []
  else if link.socketOpen = false then
    failed (operationFailure (cstr "socket open failure")) [.created]
  else if link.login ≠ .normal then
    failed (operationFailure (cstr "login failure >> " ++ amqpGetRpcReplyString link.login))
      [.created]
  else match link.channelOpen with
    | .error r =>
      failed (operationFailure (cstr "channel open failure >> " ++ amqpGetRpcReplyString r))
        [.created]
    | .ok () => exchange.map (afterExchange link)

theorem chamgeAmqpArbiterBackendUserCommand_eq (json : JsonParser)
    (settings : UserCommandSettings) (cmd : Bytes) (link : LinkOutcomes) (p : RpcPrelude)
    (outcomes : List ConsumeOutcome) (out : Option Bytes) :
    chamgeAmqpArbiterBackendUserCommand json settings cmd link p outcomes out =
      overOwnConnection link out (handleRpcUserCommand json
        ⟨settings.channel, cmd, some settings.exchange, none⟩ p outcomes out) := rfl

/-- The target is read from the command, as in the arbiter's copy, and the request is the
device's own. -/
def chamgeAmqpHubBackendUserCommand (json : JsonParser) (settings : UserCommandSettings)
    (cmd : Bytes) (link : LinkOutcomes) (p : RpcPrelude) (outcomes : List ConsumeOutcome)
    (out : Option Bytes) : Option UserCommandResult :=
  overOwnConnection link out (amqpRpcRequest
    ⟨settings.channel, cmd, some settings.exchange, getQueueName json cmd⟩ p outcomes out)

/-! ### The AMQP backend of the arbiter -/

/-- Every failure is reported by `g_error`, which does not return. -/
def chamgeAmqpArbiterBackendEnroll : BackendImpl := fun _ b t =>
  let fatal (b : AmqpBackend) : Option MethodResult := some ⟨.ended .fatalError, none, b⟩
  let opened := { b with socketOpen := true }
  if t.link.parseUrl = false then fatal b
  else if b.socketOpen ∨ t.link.socketOpen = false then fatal b
  else if t.link.login ≠ .normal then fatal opened
  else match t.link.channelOpen, t.subscribe.declareQueue, t.subscribe.bind,
      t.subscribe.consume with
    | .ok (), .ok _, .ok (), .ok () => some ⟨.returned .ok, none, opened⟩
    | _, _, _, _ => fatal opened

def chamgeAmqpArbiterBackendDelist : BackendImpl := fun _ b _ => some ⟨.returned .ok, none, b⟩

def chamgeAmqpArbiterBackendActivate : BackendImpl := fun _ b _ =>
  some ⟨.returned .ok, none, { b with activated := true, source := true }⟩

def chamgeAmqpArbiterBackendDeactivate : BackendImpl := fun _ b _ =>
  some ⟨.returned .ok, none, { b with activated := false, source := false }⟩

/-! ### The classes -/

/-- The slots that the three kinds of backend classes share. -/
structure LifecycleSlots where
  enroll : Option BackendImpl
  delist : Option BackendImpl
  activate : Option BackendImpl
  deactivate : Option BackendImpl

def LifecycleSlots.slot (klass : LifecycleSlots) : BackendMethod → Option BackendImpl
  | .enroll => klass.enroll
  | .delist => klass.delist
  | .activate => klass.activate
  | .deactivate => klass.deactivate

abbrev UserCommandImpl := DeviceConfig → Bytes → MethodTrace → Option UserCommandResult

structure ChamgeEdgeBackendClass extends LifecycleSlots where
  requestTargetUri : Option (AmqpBackend → Option Bytes)

/-- `userCommand` is whether the slot for the commands that come in is set, as it is by the
base class; `userCommandSend` is for those that go out. -/
structure ChamgeHubBackendClass extends LifecycleSlots where
  userCommand : Bool
  userCommandSend : Option UserCommandImpl

structure ChamgeArbiterBackendClass extends LifecycleSlots where
  userCommand : Option UserCommandImpl

inductive BackendClass
  | edge (klass : ChamgeEdgeBackendClass)
  | hub (klass : ChamgeHubBackendClass)
  | arbiter (klass : ChamgeArbiterBackendClass)

def BackendClass.slots : BackendClass → LifecycleSlots
  | edge klass => klass.toLifecycleSlots
  | hub klass => klass.toLifecycleSlots
  | arbiter klass => klass.toLifecycleSlots

def DeviceConfig.userCommandSettings (cfg : DeviceConfig) : UserCommandSettings :=
  ⟨cfg.settings.channel, cfg.settings.enrollExchangeName⟩

def chamgeAmqpEdgeBackendClass : ChamgeEdgeBackendClass :=
  { enroll := some chamgeAmqpEdgeBackendEnroll
    delist := some chamgeAmqpEdgeBackendDelist
    activate := some chamgeAmqpEdgeBackendActivate
    deactivate := some chamgeAmqpEdgeBackendDeactivate
    requestTargetUri := some fun _ => some targetUri }

def chamgeAmqpHubBackendClass : ChamgeHubBackendClass :=
  { enroll := some chamgeAmqpHubBackendEnroll
    delist := some chamgeAmqpHubBackendDelist
    activate := some chamgeAmqpHubBackendActivate
    deactivate := some chamgeAmqpHubBackendDeactivate
    userCommand := true
    userCommandSend := some fun cfg cmd t => chamgeAmqpHubBackendUserCommand cfg.json
      cfg.userCommandSettings cmd t.link t.rpc t.outcomes none }

def chamgeAmqpArbiterBackendClass : ChamgeArbiterBackendClass :=
  { enroll := some chamgeAmqpArbiterBackendEnroll
    delist := some chamgeAmqpArbiterBackendDelist
    activate := some chamgeAmqpArbiterBackendActivate
    deactivate := some chamgeAmqpArbiterBackendDeactivate
    userCommand := some fun cfg cmd t => chamgeAmqpArbiterBackendUserCommand cfg.json
      cfg.userCommandSettings cmd t.link t.rpc t.outcomes none }

/-- The lifecycle methods of the mocks, all of one body. -/
def chamgeMockBackendMethod : BackendImpl := fun _ b _ => some ⟨.returned .ok, none, b⟩

def chamgeMockEdgeBackendClass : ChamgeEdgeBackendClass :=
  { enroll := some chamgeMockBackendMethod
    delist := some chamgeMockBackendMethod
    activate := some chamgeMockBackendMethod
    deactivate := some chamgeMockBackendMethod
    requestTargetUri := some fun _ => some targetUri }

def chamgeMockHubBackendClass : ChamgeHubBackendClass :=
  { enroll := some chamgeMockBackendMethod
    delist := some chamgeMockBackendMethod
    activate := some chamgeMockBackendMethod
    deactivate := some chamgeMockBackendMethod
    userCommand := true
    userCommandSend := none }

def chamgeMockArbiterBackendClass : ChamgeArbiterBackendClass :=
  { enroll := some chamgeMockBackendMethod
    delist := some chamgeMockBackendMethod
    activate := some chamgeMockBackendMethod
    deactivate := some chamgeMockBackendMethod
    userCommand := none }

def amqpBackendClass : NodeKind → BackendClass
  | .edge => .edge chamgeAmqpEdgeBackendClass
  | .hub => .hub chamgeAmqpHubBackendClass
  | .arbiter => .arbiter chamgeAmqpArbiterBackendClass

def mockBackendClass : NodeKind → BackendClass
  | .edge => .edge chamgeMockEdgeBackendClass
  | .hub => .hub chamgeMockHubBackendClass
  | .arbiter => .arbiter chamgeMockArbiterBackendClass

/-! ### A node over a backend class -/

/-- `chamge_edge_backend_enroll` and its likes: the guard asks for the slot that is called. -/
def LifecycleSlots.call (klass : LifecycleSlots) (m : BackendMethod) : BackendImpl :=
  fun cfg b t =>
    match klass.slot m with
    | none => some ⟨.returned .fail, none, b⟩
    | some impl => impl cfg b t

/-- The guard of the hub's asks for one slot, and the call is of another. -/
def chamgeHubBackendUserCommandSend (klass : ChamgeHubBackendClass) (cfg : DeviceConfig)
    (cmd : Bytes) (t : MethodTrace) : Option (CallEnd ChamgeReturn) :=
  if klass.userCommand = false then some (.returned .fail)
  else match klass.userCommandSend with
    | none => some (.ended .unsetMethod)
    | some send => (send cfg cmd t).map fun r => .returned r.ret

def arbiterBackendUserCommand (klass : ChamgeArbiterBackendClass) (cfg : DeviceConfig)
    (cmd : Bytes) (t : MethodTrace) : Option (CallEnd ChamgeReturn) :=
  match klass.userCommand with
  | none => some (.returned .fail)
  | some impl => (impl cfg cmd t).map fun r => .returned r.ret

/-- A node with the fields of the backend object that it holds, if it holds one. -/
structure BackedNode where
  node : ChamgeNode
  object : AmqpBackend

def BackedNode.init (kind : NodeKind) (uid : Bytes) : BackedNode := ⟨.init kind uid, .new⟩

/-- The object that a method is called on is a new one where the node holds none. -/
def BackedNode.called (s : BackedNode) : AmqpBackend :=
  if s.node.backend = none then .new else s.object

structure NodeResult where
  ending : CallEnd (Option ChamgeReturn)
  after : BackedNode

def BackedNode.settle (s : BackedNode) (a : NodeAction) (r : MethodResult) : NodeResult :=
  match r.ending with
  | .returned ret =>
    let o := nodeAction s.node a ret
    ⟨.returned o.ret, o.node, r.backend⟩
  | .ended cause => ⟨.ended cause, s.node, r.backend⟩

theorem BackedNode.settle_returned (s : BackedNode) (a : NodeAction) {r : MethodResult}
    {ret : ChamgeReturn} (h : r.ending = .returned ret) :
    s.settle a r = ⟨.returned (nodeAction s.node a ret).ret, (nodeAction s.node a ret).node,
      r.backend⟩ := by
  rw [BackedNode.settle, h]

/-- A call, or a timer firing, with the library calls of the backend's method as in `t`. -/
def BackedNode.act (klass : BackendClass) (cfg : DeviceConfig) (s : BackedNode) (a : NodeAction)
    (t : MethodTrace) : Option NodeResult :=
  match methodReached s.node a with
  | none =>
    let o := nodeAction s.node a .fail
    some ⟨.returned o.ret, o.node, s.object⟩
  | some m => (klass.slots.call m cfg s.called t).map (s.settle a)

/-- `chamge_node_user_command`; the class of the edge keeps the default of the node class. -/
def BackedNode.userCommand (klass : BackendClass) (cfg : DeviceConfig) (s : BackedNode)
    (cmd : Bytes) (t : MethodTrace) : Option (CallEnd ChamgeReturn) :=
  if s.node.state ≠ .activated then some (.returned .fail)
  else match klass with
    | .edge _ => some (.returned .ok)
    | .hub klass =>
      if s.node.backend = none then some (.returned .fail)
      else chamgeHubBackendUserCommandSend klass cfg cmd t
    | .arbiter klass =>
      if s.node.backend = none then some (.returned .fail)
      else arbiterBackendUserCommand klass cfg cmd t

/-- `chamge_edge_request_target_uri`; other nodes have no such call. -/
def BackedNode.requestTargetUri (klass : BackendClass) (s : BackedNode) : Option Bytes :=
  match klass with
  | .edge klass =>
    if s.node.state = .activated ∧ s.node.backend ≠ none then
      klass.requestTargetUri.bind fun method => method s.object
    else none
  | .hub _ | .arbiter _ => none

end Chamge
