import Mathlib.Data.List.Basic
import Chamge.Lib.JsonGlib
import Chamge.Types

/-! The arbiter's answer to a request message, and the callback chain that carries an
enroll or delist from the backend over the arbiter's signals to the agent's lists. -/

namespace Chamge
open CString JsonGlib

/-! ### The agent -/

structure ArbiterAgent where
  edges : List Bytes
  hubs : List Bytes
  deriving DecidableEq

def ArbiterAgent.empty : ArbiterAgent := ⟨[], []⟩

/-- The first link that holds the id. -/
def findList (list : List Bytes) (id : Bytes) : Option ℕ := list.findIdx? fun data => data = id

def isEnrolled (list : List Bytes) (id : Bytes) : Bool := (findList list id).isSome

def enrolledCb (list : List Bytes) (id : Bytes) : List Bytes :=
  match findList list id with
  | none => list ++ [id]
  | some _ => list

def delistedCb (list : List Bytes) (id : Bytes) : List Bytes :=
  match findList list id with
  | some link => list.eraseIdx link
  | none => list

abbrev EnrollCallback := Bytes → ArbiterAgent → ArbiterAgent

def edgeEnrolledCb : EnrollCallback := fun edgeId agent =>
  { agent with edges := enrolledCb agent.edges edgeId }

def edgeDelistedCb : EnrollCallback := fun edgeId agent =>
  { agent with edges := delistedCb agent.edges edgeId }

def hubEnrolledCb : EnrollCallback := fun hubId agent =>
  { agent with hubs := enrolledCb agent.hubs hubId }

def hubDelistedCb : EnrollCallback := fun hubId agent =>
  { agent with hubs := delistedCb agent.hubs hubId }

inductive ArbiterSignal
  | edgeEnrolled
  | edgeDelisted
  | hubEnrolled
  | hubDelisted
  deriving DecidableEq, Repr

/-- An emission runs the handler that the agent's startup connected. -/
def signalEmit : ArbiterSignal → EnrollCallback
  | .edgeEnrolled => edgeEnrolledCb
  | .edgeDelisted => edgeDelistedCb
  | .hubEnrolled => hubEnrolledCb
  | .hubDelisted => hubDelistedCb

/-! ### The arbiter and its backend -/

def chamgeArbiterEdgeEnrolledCb : EnrollCallback := signalEmit .edgeEnrolled
def chamgeArbiterEdgeDelistedCb : EnrollCallback := signalEmit .edgeDelisted
def chamgeArbiterHubEnrolledCb : EnrollCallback := signalEmit .hubEnrolled
def chamgeArbiterHubDelistedCb : EnrollCallback := signalEmit .hubDelisted

/-- The closures of the backend, and whether its class fills the `approve` slot. -/
structure ChamgeArbiterBackend where
  approve : Bool
  edgeEnrolled : Option EnrollCallback
  edgeDelisted : Option EnrollCallback
  hubEnrolled : Option EnrollCallback
  hubDelisted : Option EnrollCallback

def ChamgeArbiterBackend.new (approve : Bool) : ChamgeArbiterBackend :=
  ⟨approve, none, none, none, none⟩

def setEdgeHandler (self : ChamgeArbiterBackend) (edgeEnrolled edgeDelisted :
    Option EnrollCallback) : ChamgeArbiterBackend :=
  { self with edgeEnrolled, edgeDelisted }

def setHubHandler (self : ChamgeArbiterBackend) (hubEnrolled hubDelisted :
    Option EnrollCallback) : ChamgeArbiterBackend :=
  { self with hubEnrolled, hubDelisted }

/-- The handlers that `chamge_arbiter_enroll` sets before it enrolls the backend. -/
def chamgeArbiterEnrollHandlers (self : ChamgeArbiterBackend) : ChamgeArbiterBackend :=
  setHubHandler
    (setEdgeHandler self (some chamgeArbiterEdgeEnrolledCb) (some chamgeArbiterEdgeDelistedCb))
    (some chamgeArbiterHubEnrolledCb) (some chamgeArbiterHubDelistedCb)

def closureInvoke (closure : Option EnrollCallback) : EnrollCallback := fun uid agent =>
  match closure with
  | some callback => callback uid agent
  | none => agent

/-- Approval comes first; a class without it reports nothing. -/
def chamgeArbiterBackendEdgeEnrolled (self : ChamgeArbiterBackend) : EnrollCallback :=
  fun uid agent => if self.approve then closureInvoke self.edgeEnrolled uid agent else agent

def chamgeArbiterBackendEdgeDelisted (self : ChamgeArbiterBackend) : EnrollCallback :=
  closureInvoke self.edgeDelisted

def chamgeArbiterBackendHubEnrolled (self : ChamgeArbiterBackend) : EnrollCallback :=
  closureInvoke self.hubEnrolled

def chamgeArbiterBackendHubDelisted (self : ChamgeArbiterBackend) : EnrollCallback :=
  closureInvoke self.hubDelisted

/-- The AMQP backend of an arbiter that has been enrolled. -/
def amqpArbiterBackend : ChamgeArbiterBackend := chamgeArbiterEnrollHandlers (.new true)

/-! ### The request message -/

/-- The four `_handle_*` functions of one device type. -/
structure DeviceHandlers where
  enroll : EnrollCallback
  activate : EnrollCallback
  deactivate : EnrollCallback
  delist : EnrollCallback

def edgeHandlers (self : ChamgeArbiterBackend) : DeviceHandlers :=
  { enroll := chamgeArbiterBackendEdgeEnrolled self, activate := fun _ agent => agent,
    deactivate := fun _ agent => agent, delist := chamgeArbiterBackendEdgeDelisted self }

def hubHandlers (self : ChamgeArbiterBackend) : DeviceHandlers :=
  { enroll := chamgeArbiterBackendHubEnrolled self, activate := fun _ agent => agent,
    deactivate := fun _ agent => agent, delist := chamgeArbiterBackendHubDelisted self }

def resultBody (result : Bytes) : Bytes :=
  cstr "\x7b\"result\":\"" ++ result ++ cstr "\"\x7d"

def methodBranch (h : DeviceHandlers) (method uid : Bytes) (agent : ArbiterAgent) :
    Bytes × ArbiterAgent :=
  if method = cstr "enroll" then (resultBody (cstr "enrolled"), h.enroll uid agent)
  else if method = cstr "activate" then (resultBody (cstr "activated"), h.activate uid agent)
  else if method = cstr "deactivate" then
    (resultBody (cstr "deactivated"), h.deactivate uid agent)
  else if method = cstr "delist" then (resultBody (cstr "delisted"), h.delist uid agent)
  else (resultBody (cstr "method(" ++ method ++ cstr ") is not supported"), agent)

def deviceBranch (h : DeviceHandlers) (idKey : Bytes) (object : Option JsonObject)
    (method : Bytes) (agent : ArbiterAgent) : Bytes × ArbiterAgent :=
  match memberString object idKey with
  | none => (resultBody (idKey ++ cstr " does not exist"), agent)
  | some uid => methodBranch h method uid agent

/-- `_process_json_message` of the arbiter: the response, and the agent after the callbacks. -/
def arbiterProcessJsonMessage (json : JsonParser) (self : ChamgeArbiterBackend)
    (body : Bytes) (agent : ArbiterAgent) : Bytes × ArbiterAgent :=
  match json.loadFromData body with
  | .error _ => (resultBody (cstr "failed to parse body"), agent)
  | .ok root =>
    let object := nodeGetObject root
    match memberString object (cstr "deviceType") with
    | none => (resultBody (cstr "device type is missing"), agent)
    | some deviceType =>
      -- the method is asked for before the device type is looked at
      match memberString object (cstr "method") with
      | none => (resultBody (cstr "method is missing"), agent)
      | some method =>
        if deviceType = cstr "edge" then
          deviceBranch (edgeHandlers self) (cstr "edgeId") object method agent
        else if deviceType = cstr "hub" then
          deviceBranch (hubHandlers self) (cstr "hubId") object method agent
        else (resultBody (cstr "unknown device type (" ++ deviceType ++ cstr ")"), agent)

def processBodies (json : JsonParser) (self : ChamgeArbiterBackend) (agent : ArbiterAgent)
    (bodies : List Bytes) : ArbiterAgent :=
  bodies.foldl (fun a body => (arbiterProcessJsonMessage json self body a).2) agent

end Chamge
