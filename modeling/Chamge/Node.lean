import Mathlib.Data.List.Basic
import Chamge.Types

/-! The node object: the lifecycle entry points of the base class over the
enroll, delist, activate and deactivate methods of its three subclasses. -/

namespace Chamge
open CString

inductive NodeKind
  | edge
  | hub
  | arbiter
  deriving DecidableEq, Repr

inductive BackendMethod
  | enroll
  | delist
  | activate
  | deactivate
  deriving DecidableEq, Repr

structure Timer where
  id : ℕ
  triggerMs : UInt32
  deriving DecidableEq, Repr

/-- `backend` is the backend object the subclass holds, named by its number of creation;
`timers` are the attached sources that run `enroll_by_uid_group_func`. -/
structure ChamgeNode where
  kind : NodeKind
  uid : Bytes
  state : ChamgeNodeState
  backend : Option ℕ
  created : ℕ
  timers : List Timer
  nextTimer : ℕ
  deriving DecidableEq, Repr

def ChamgeNode.init (kind : NodeKind) (uid : Bytes) : ChamgeNode :=
  { kind, uid, state := .null, backend := none, created := 0, timers := [], nextTimer := 0 }

inductive NodeEvent
  | backendCalled (obj : ℕ) (m : BackendMethod)
  | lock
  | unlock
  | stateChanged (state : ChamgeNodeState)
  deriving DecidableEq, Repr

structure CallOutcome (ρ : Type) where
  node : ChamgeNode
  ret : ρ
  trace : List NodeEvent

/-! ### The subclasses -/

/-- `chamge_edge_backend_enroll` and its likes: the result `r` of the backend's method, or
`CHAMGE_RETURN_FAIL` when there is no backend object to call it on. -/
def backendCall (m : BackendMethod) (n : ChamgeNode) (r : ChamgeReturn) :
    CallOutcome ChamgeReturn :=
  match n.backend with
  | some obj => ⟨n, r, [.backendCalled obj m]⟩
  | none => ⟨n, .fail, []⟩

def ensureBackend (n : ChamgeNode) : ChamgeNode :=
  match n.backend with
  | some _ => n
  | none => { n with backend := some n.created, created := n.created + 1 }

def subclassEnroll (n : ChamgeNode) (r : ChamgeReturn) : CallOutcome ChamgeReturn :=
  backendCall .enroll (ensureBackend n) r

/-- The backend object is dropped whatever its `delist` returned. -/
def subclassDelist (n : ChamgeNode) (r : ChamgeReturn) : CallOutcome ChamgeReturn :=
  let o := backendCall .delist n r
  { o with node := { o.node with backend := none } }

structure ChamgeNodeClass where
  enroll : ChamgeNode → ChamgeReturn → CallOutcome ChamgeReturn
  delist : ChamgeNode → ChamgeReturn → CallOutcome ChamgeReturn
  activate : ChamgeNode → ChamgeReturn → CallOutcome ChamgeReturn
  deactivate : ChamgeNode → ChamgeReturn → CallOutcome ChamgeReturn

def chamgeEdgeClass : ChamgeNodeClass :=
  ⟨subclassEnroll, subclassDelist, backendCall .activate, backendCall .deactivate⟩

def chamgeHubClass : ChamgeNodeClass :=
  ⟨subclassEnroll, subclassDelist, backendCall .activate, backendCall .deactivate⟩

def chamgeArbiterClass : ChamgeNodeClass :=
  ⟨subclassEnroll, subclassDelist, backendCall .activate, backendCall .deactivate⟩

/-- `CHAMGE_NODE_GET_CLASS`. -/
def nodeClass : NodeKind → ChamgeNodeClass
  | .edge => chamgeEdgeClass
  | .hub => chamgeHubClass
  | .arbiter => chamgeArbiterClass

/-! ### Lazy enrollment -/

/-- What the lazy branch reads: the hexadecimal MD5 digest of a string and the real time
in microseconds. -/
structure LazyClock where
  md5 : Bytes → Bytes
  realTime : Int64

/-- `g_ascii_strtoull` in base 16 on a string of one character. -/
def hexDigit (c : UInt8) : UInt64 :=
  if 48 ≤ c ∧ c ≤ 57 then (c - 48).toUInt64
  else if 97 ≤ c ∧ c ≤ 102 then (c - 87).toUInt64
  else if 65 ≤ c ∧ c ≤ 70 then (c - 55).toUInt64
  else 0

def groupTimeMs (digest : Bytes) : UInt32 := (hexDigit (digest.getLastD 0) * 6250).toUInt32

/-- A `guint` promoted to `gint64`. -/
def promote (x : UInt32) : Int64 := x.toUInt64.toInt64

def triggerMs (groupTime : UInt32) (rtime : Int64) : UInt32 :=
  (if rtime % 100000 > promote groupTime then promote (100000 + groupTime) - rtime % 100000
    else promote groupTime - rtime % 100000).toUInt64.toUInt32

def addTimer (n : ChamgeNode) (trigger : UInt32) : ChamgeNode :=
  { n with timers := n.timers ++ [⟨n.nextTimer, trigger⟩], nextTimer := n.nextTimer + 1 }

/-! ### The entry points of the base class -/

/-- The tail of every eager entry point: on `CHAMGE_RETURN_OK` the state is stored and
signalled under the mutex, which the locker releases at the return. -/
def storeState (o : CallOutcome ChamgeReturn) (state : ChamgeNodeState) :
    CallOutcome ChamgeReturn :=
  if o.ret = .ok then
    ⟨{ o.node with state }, o.ret, o.trace ++ [.lock, .stateChanged state, .unlock]⟩
  else o

def chamgeNodeEnroll (n : ChamgeNode) (lazily : Option LazyClock) (r : ChamgeReturn) :
    CallOutcome ChamgeReturn :=
  if n.state ≠ .null then ⟨n, .fail, []⟩
  else match lazily with
    | some clk =>
      -- the state stays NULL until a timer fires, so that further timers can be added
      ⟨addTimer n (triggerMs (groupTimeMs (clk.md5 n.uid)) (clk.realTime / 1000)), .async, []⟩
    | none => storeState ((nodeClass n.kind).enroll n r) .enrolled

/-- No state is asked for here, unlike in the three siblings. -/
def chamgeNodeDelist (n : ChamgeNode) (r : ChamgeReturn) : CallOutcome ChamgeReturn :=
  storeState ((nodeClass n.kind).delist n r) .null

def chamgeNodeActivate (n : ChamgeNode) (r : ChamgeReturn) : CallOutcome ChamgeReturn :=
  if n.state ≠ .enrolled then ⟨n, .fail, []⟩
  else storeState ((nodeClass n.kind).activate n r) .activated

def chamgeNodeDeactivate (n : ChamgeNode) (r : ChamgeReturn) : CallOutcome ChamgeReturn :=
  if n.state ≠ .activated then ⟨n, .fail, []⟩
  else storeState ((nodeClass n.kind).deactivate n r) .enrolled

/-- The timer callback. Its result is a `gboolean`: the guard's `CHAMGE_RETURN_FAIL` is
not zero, which GLib reads as "keep the source". The signal goes out after the unlock. -/
def enrollByUidGroupFunc (n : ChamgeNode) (r : ChamgeReturn) : CallOutcome Int :=
  if n.state ≠ .null then ⟨n, ChamgeReturn.fail.toInt, []⟩
  else
    let o := (nodeClass n.kind).enroll n r
    if o.ret = .ok then
      ⟨{ o.node with state := .enrolled }, 0,
        o.trace ++ [.lock, .unlock, .stateChanged .enrolled]⟩
    else ⟨o.node, 0, o.trace⟩

/-- The main loop's part of a timer firing: a source whose callback returned 0 is removed. -/
def fireTimer (n : ChamgeNode) (t : ℕ) (r : ChamgeReturn) : CallOutcome Int :=
  let o := enrollByUidGroupFunc n r
  if o.ret = 0 then
    { o with node := { o.node with timers := o.node.timers.filter (·.id ≠ t) } }
  else o

inductive NodeAction
  | enroll (lazily : Option LazyClock)
  | delist
  | activate
  | deactivate
  | fire (timer : ℕ)

/-- One call, or one timer firing (which has no caller to return to), with the result `r`
its backend gives if it is reached. -/
def nodeAction (n : ChamgeNode) (a : NodeAction) (r : ChamgeReturn) :
    CallOutcome (Option ChamgeReturn) :=
  match a with
  | .enroll lazily => lift (chamgeNodeEnroll n lazily r)
  | .delist => lift (chamgeNodeDelist n r)
  | .activate => lift (chamgeNodeActivate n r)
  | .deactivate => lift (chamgeNodeDeactivate n r)
  | .fire t => let o := fireTimer n t r; ⟨o.node, none, o.trace⟩
where
  lift (o : CallOutcome ChamgeReturn) : CallOutcome (Option ChamgeReturn) :=
    ⟨o.node, some o.ret, o.trace⟩

end Chamge
