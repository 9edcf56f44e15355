import Chamge.NodeSteps
import Chamge.Pump

/-! A device of the system: an edge or a hub with its AMQP backend, the requests it sends,
and what it makes of a response. -/

namespace Chamge
open CString JsonGlib

inductive DeviceType
  | edge
  | hub
  deriving DecidableEq, Repr

def DeviceType.nodeKind : DeviceType → NodeKind
  | edge => .edge
  | hub => .hub

/-- The agent's list of the devices of a type. -/
def ArbiterAgent.listOf (agent : ArbiterAgent) : DeviceType → List Bytes
  | .edge => agent.edges
  | .hub => agent.hubs

def DeviceType.name : DeviceType → Bytes
  | edge => cstr "edge"
  | hub => cstr "hub"

def DeviceType.idKey : DeviceType → Bytes
  | edge => cstr "edgeId"
  | hub => cstr "hubId"

def BackendMethod.name : BackendMethod → Bytes
  | enroll => cstr "enroll"
  | delist => cstr "delist"
  | activate => cstr "activate"
  | deactivate => cstr "deactivate"

def BackendMethod.shouldbe : BackendMethod → Bytes
  | enroll => cstr "enrolled"
  | delist => cstr "delisted"
  | activate => cstr "activated"
  | deactivate => cstr "deactivated"

/-- The text that `g_strdup_printf` makes of the uid. -/
def requestBody (type : DeviceType) (method : BackendMethod) (uid : Bytes) : Bytes :=
  cstr "\x7b\"method\":\"" ++ method.name ++ cstr "\",\"deviceType\":\"" ++ type.name ++
    cstr "\",\"" ++ type.idKey ++ cstr "\":\"" ++ uid ++ cstr "\"\x7d"

/-- `_validate_response` on a response that is there. -/
def validateResponse (json : JsonParser) (response shouldbe : Bytes) : ChamgeReturn :=
  match json.loadFromData response with
  | .error _ => .fail
  | .ok root =>
    if memberString (nodeGetObject root) (cstr "result") = some shouldbe then .ok else .fail

/-- The edge's copy turns `NULL` away; the hub's passes it to `strlen`, which ends the
process (`none`). -/
def DeviceType.validate (type : DeviceType) (json : JsonParser) (response : Option Bytes)
    (shouldbe : Bytes) : Option ChamgeReturn :=
  match response, type with
  | some text, _ => some (validateResponse json text shouldbe)
  | none, .edge => some .fail
  | none, .hub => none

def reached (trace : List NodeEvent) : Option BackendMethod :=
  trace.findSome? fun
    | .backendCalled _ m => some m
    | _ => none

/-- The method of the backend object that an action on the node comes to, if any. -/
def methodReached (n : ChamgeNode) (a : NodeAction) : Option BackendMethod :=
  reached (nodeAction n a .fail).trace

def NodeAction.method : NodeAction → BackendMethod
  | enroll _ | fire _ => .enroll
  | delist => .delist
  | activate => .activate
  | deactivate => .deactivate

structure DeviceWait where
  action : NodeAction
  method : BackendMethod
  request : ℕ
  retry : ℕ

/-- `source` is whether the backend has its source in the main loop (its `activated` flag
is set before and stays so), `connected` whether its socket has been opened. -/
structure Device where
  node : ChamgeNode
  source : Bool
  connected : Bool
  wait : Option DeviceWait
  crashed : Bool

def Device.init (type : DeviceType) (uid : Bytes) : Device :=
  { node := .init type.nodeKind uid, source := false, connected := false, wait := none,
    crashed := false }

def Device.idle (dev : Device) : Bool := dev.wait.isNone && !dev.crashed

def Device.finish (dev : Device) (a : NodeAction) (r : ChamgeReturn) : Device :=
  { dev with node := (nodeAction dev.node a r).node, wait := none }

/-- The backend object is gone with its source and its connection. -/
def Device.dropBackend (dev : Device) : Device :=
  { dev with source := false, connected := false }

/-! ### The node under a call -/

/-- What an action on a node comes to: nothing, or a method of its backend object, whose
result decides the state. -/
inductive NodeCall (n : ChamgeNode) (r : ChamgeReturn) :
    Option BackendMethod → ChamgeNode → Prop
  | none {n' : ChamgeNode} (hstate : n'.state = n.state) (hbackend : n'.backend = n.backend) :
    NodeCall n r none n'
  | enroll {n' : ChamgeNode} (hn : n.state = .null) (hbackend : n'.backend ≠ Option.none)
    (hstate : n'.state = if r = .ok then .enrolled else .null) : NodeCall n r (some .enroll) n'
  | activate {n' : ChamgeNode} (hn : n.state = .enrolled) (hb : n.backend ≠ Option.none)
    (hbackend : n'.backend = n.backend)
    (hstate : n'.state = if r = .ok then .activated else .enrolled) :
    NodeCall n r (some .activate) n'
  | deactivate {n' : ChamgeNode} (hn : n.state = .activated) (hb : n.backend ≠ Option.none)
    (hbackend : n'.backend = n.backend)
    (hstate : n'.state = if r = .ok then .enrolled else .activated) :
    NodeCall n r (some .deactivate) n'
  | delist {n' : ChamgeNode} (hb : n.backend ≠ Option.none) (hbackend : n'.backend = Option.none)
    (hstate : n'.state = if r = .ok then .null else n.state) : NodeCall n r (some .delist) n'

variable {n : ChamgeNode} {a : NodeAction} {r r' : ChamgeReturn}
  {o o' : CallOutcome (Option ChamgeReturn)}

@[simp] theorem reached_cons (obj : ℕ) (m : BackendMethod) (es : List NodeEvent) :
    reached (.backendCalled obj m :: es) = some m := rfl

/-- The branch a call takes up to its backend does not depend on the backend's result. -/
theorem ActionStep.reached_eq (h : ActionStep n r a o) (h' : ActionStep n r' a o') :
    reached o.trace = reached o'.trace := by
  cases h with
  | refused ha hs => cases h' <;> first | rfl | exact absurd rfl ha | contradiction
  | unbacked ha hb =>
    cases h' <;> first | rfl | simp_all
  | lazily hs | enroll hs | fire hs => cases h' <;> first | rfl | contradiction | simp_all
  | activate hs hb | deactivate hs hb =>
    cases h' <;> first | rfl | contradiction | simp_all
  | delist hb => cases h' <;> first | rfl | contradiction | simp_all

theorem methodReached_eq (h : ActionStep n r a o) : methodReached n a = reached o.trace :=
  (actionStep n a .fail).reached_eq h

theorem eq_delist_of_reached (h : methodReached n a = some .delist) : a = .delist := by
  have hstep := actionStep n a .fail
  rw [methodReached_eq hstep] at h
  generalize nodeAction n a .fail = o at hstep h
  cases hstep <;> first | rfl | cases h

theorem settle_state (n : ChamgeNode) (r : ChamgeReturn) (state : ChamgeNodeState) :
    (n.settle r state).state = if r = .ok then state else n.state := by
  unfold ChamgeNode.settle
  split_ifs <;> rfl

theorem settle_backend (n : ChamgeNode) (r : ChamgeReturn) (state : ChamgeNodeState) :
    (n.settle r state).backend = n.backend := by
  unfold ChamgeNode.settle
  split_ifs <;> rfl

theorem nodeCall (n : ChamgeNode) (a : NodeAction) (r : ChamgeReturn) :
    NodeCall n r (methodReached n a) (nodeAction n a r).node := by
  have hstep := actionStep n a r
  rw [methodReached_eq hstep]
  generalize nodeAction n a r = o at hstep ⊢
  have henroll : ((ensureBackend n).settle r .enrolled).backend ≠ none := by
    rw [settle_backend, ensureBackend_eq]
    exact Option.some_ne_none _
  cases hstep with
  | refused | unbacked | lazily => exact .none rfl rfl
  | enroll hs | fire hs =>
    refine .enroll hs henroll ?_
    rw [settle_state, ensureBackend_state, hs]
  | activate hs hb =>
    refine .activate hs (hb ▸ Option.some_ne_none _) (settle_backend ..) ?_
    rw [settle_state, hs]
  | deactivate hs hb =>
    refine .deactivate hs (hb ▸ Option.some_ne_none _) (settle_backend ..) ?_
    rw [settle_state, hs]
  | delist hb =>
    exact .delist (hb ▸ Option.some_ne_none _) (settle_backend ..) (settle_state ..)

end Chamge
