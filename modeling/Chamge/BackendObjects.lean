import Mathlib.Logic.Function.Basic
import Chamge.Device

/-! The backend objects behind a node: their references, their sources in the main loop
and their connections, as the calls on the node create, use and drop them. -/

namespace Chamge

/-- `connected` is whether the main connection has been opened and not destroyed;
`delivered` counts the registry events that the object has reported. -/
structure BackendObject where
  refs : ℕ
  source : Bool
  connected : Bool
  delivered : ℕ
  deriving DecidableEq

def BackendObject.new : BackendObject :=
  { refs := 1, source := false, connected := false, delivered := 0 }

/-- The object takes no more messages and holds no place at the broker. -/
def BackendObject.Detached (o : BackendObject) : Prop := o.source = false ∧ o.connected = false

instance (o : BackendObject) : Decidable o.Detached := inferInstanceAs (Decidable (_ ∧ _))

/-- The result of a method of the object, and whether it has opened the connection. -/
structure MethodOutcome where
  ret : ChamgeReturn
  opened : Bool

/-- `g_object_unref`; the last reference takes the source and the connection along. -/
def BackendObject.unref (o : BackendObject) : BackendObject :=
  if o.refs ≤ 1 then { o with refs := 0, source := false, connected := false }
  else { o with refs := o.refs - 1 }

/-- What a call of `m` by the subclass leaves of the object. The delist request goes over a
connection of its own, and the subclass drops its reference after it. -/
def BackendObject.called (o : BackendObject) (m : BackendMethod) (out : MethodOutcome) :
    BackendObject :=
  match m with
  | .enroll => { o with connected := o.connected || out.opened }
  | .activate => { o with source := o.source || out.ret = .ok }
  | .deactivate => { o with source := o.source && out.ret ≠ .ok }
  | .delist => o.unref

/-- A node with the objects it has created, by their numbers. -/
structure Objects where
  node : ChamgeNode
  object : ℕ → BackendObject

def Objects.init (kind : NodeKind) (uid : CString.Bytes) : Objects :=
  { node := .init kind uid, object := fun _ => .new }

def objectEvent (out : MethodOutcome) (object : ℕ → BackendObject) :
    NodeEvent → ℕ → BackendObject
  | .backendCalled obj m => Function.update object obj ((object obj).called m out)
  | _ => object

/-- A call whose backend, if it is reached, does `out`. -/
def Objects.act (s : Objects) (a : NodeAction) (out : MethodOutcome) : Objects :=
  let o := nodeAction s.node a out.ret
  { node := o.node, object := o.trace.foldl (objectEvent out) s.object }

/-- A timer that fires is one of the node's. -/
def ChamgeNode.canAct (n : ChamgeNode) : NodeAction → Bool
  | .fire t => (n.timers.map Timer.id).contains t
  | _ => true

@[simp] theorem foldl_eagerEmission (out : MethodOutcome) (object : ℕ → BackendObject)
    (r : ChamgeReturn) (state : ChamgeNodeState) :
    (eagerEmission r state).foldl (objectEvent out) object = object := by
  unfold eagerEmission
  split_ifs <;> rfl

@[simp] theorem foldl_lazyEmission (out : MethodOutcome) (object : ℕ → BackendObject)
    (r : ChamgeReturn) : (lazyEmission r).foldl (objectEvent out) object = object := by
  unfold lazyEmission
  split_ifs <;> rfl

/-- The branches of a call as far as the objects are concerned. -/
inductive ObjectsStep (s : Objects) (out : MethodOutcome) : Option BackendMethod → Objects → Prop
  | quiet {t : Objects} (hkind : t.node.kind = s.node.kind) (hstate : t.node.state = s.node.state)
    (hbackend : t.node.backend = s.node.backend) (hcreated : t.node.created = s.node.created)
    (hobject : t.object = s.object) : ObjectsStep s out none t
  | enroll {t : Objects} (hs : s.node.state = .null) (hkind : t.node.kind = s.node.kind)
    (hstate : t.node.state ≠ .null → out.ret = .ok)
    (hbackend : t.node.backend = some s.node.calledObject)
    (hcreated : t.node.created =
      if s.node.backend = none then s.node.created + 1 else s.node.created)
    (hobject : t.object = Function.update s.object s.node.calledObject
      ((s.object s.node.calledObject).called .enroll out)) : ObjectsStep s out (some .enroll) t
  | served {m : BackendMethod} {t : Objects} {obj : ℕ} (hm : m = .activate ∨ m = .deactivate)
    (hs : s.node.state ≠ .null) (hb : s.node.backend = some obj)
    (hkind : t.node.kind = s.node.kind) (hbackend : t.node.backend = some obj)
    (hcreated : t.node.created = s.node.created)
    (hobject : t.object = Function.update s.object obj ((s.object obj).called m out)) :
    ObjectsStep s out (some m) t
  | delist {t : Objects} {obj : ℕ} (hb : s.node.backend = some obj)
    (hkind : t.node.kind = s.node.kind) (hbackend : t.node.backend = none)
    (hcreated : t.node.created = s.node.created)
    (hobject : t.object = Function.update s.object obj ((s.object obj).called .delist out)) :
    ObjectsStep s out (some .delist) t

variable {n : ChamgeNode} {r : ChamgeReturn} {state : ChamgeNodeState}

theorem settle_kind : (n.settle r state).kind = n.kind := by
  unfold ChamgeNode.settle
  split_ifs <;> rfl

theorem settle_created : (n.settle r state).created = n.created := by
  unfold ChamgeNode.settle
  split_ifs <;> rfl

/-- An enroll, called for or timed. -/
theorem objectsStep_enroll {s t : Objects} {out : MethodOutcome} (hs : s.node.state = .null)
    (hkind : t.node.kind = ((ensureBackend s.node).settle out.ret .enrolled).kind)
    (hstate : t.node.state = ((ensureBackend s.node).settle out.ret .enrolled).state)
    (hbackend : t.node.backend = ((ensureBackend s.node).settle out.ret .enrolled).backend)
    (hcreated : t.node.created = ((ensureBackend s.node).settle out.ret .enrolled).created)
    (hobject : t.object = Function.update s.object s.node.calledObject
      ((s.object s.node.calledObject).called .enroll out)) :
    ObjectsStep s out (some .enroll) t := by
  rw [settle_kind, ensureBackend_eq] at hkind
  rw [settle_state, ensureBackend_eq] at hstate
  rw [settle_backend, ensureBackend_eq] at hbackend
  rw [settle_created, ensureBackend_eq] at hcreated
  refine .enroll hs hkind (fun hne => ?_) hbackend hcreated hobject
  by_contra hr
  rw [hstate, if_neg hr] at hne
  exact hne hs

theorem objectsStep (s : Objects) (a : NodeAction) (out : MethodOutcome) :
    ObjectsStep s out (methodReached s.node a) (s.act a out) := by
  have hstep := actionStep s.node a out.ret
  rw [methodReached_eq hstep]
  unfold Objects.act
  generalize nodeAction s.node a out.ret = o at hstep ⊢
  cases hstep with
  | refused | unbacked | lazily => exact .quiet rfl rfl rfl rfl rfl
  | enroll hs => exact objectsStep_enroll hs rfl rfl rfl rfl (foldl_eagerEmission ..)
  | fire hs => exact objectsStep_enroll hs rfl rfl rfl rfl (foldl_lazyEmission ..)
  | activate hs hb =>
    have hactive : s.node.state ≠ .null := fun h => nomatch hs.symm.trans h
    exact .served (Or.inl rfl) hactive hb settle_kind ((settle_backend ..).trans hb)
      settle_created (foldl_eagerEmission ..)
  | deactivate hs hb =>
    have hactive : s.node.state ≠ .null := fun h => nomatch hs.symm.trans h
    exact .served (Or.inr rfl) hactive hb settle_kind ((settle_backend ..).trans hb)
      settle_created (foldl_eagerEmission ..)
  | delist hb =>
    exact .delist hb settle_kind (settle_backend ..) settle_created (foldl_eagerEmission ..)

theorem methodReached_delist {obj : ℕ} (hb : n.backend = some obj) :
    methodReached n .delist = some .delist := by
  have hm := methodReached_eq (actionStep n .delist .fail)
  rw [delist_backed hb] at hm
  exact hm

theorem act_delist {s : Objects} {obj : ℕ} (hb : s.node.backend = some obj)
    (out : MethodOutcome) :
    (s.act .delist out).object = Function.update s.object obj (s.object obj).unref ∧
      (s.act .delist out).node.created = s.node.created := by
  unfold Objects.act
  rw [delist_backed hb]
  exact ⟨foldl_eagerEmission .., settle_created⟩

end Chamge
