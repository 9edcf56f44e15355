import Chamge.Node
import Chamge.Lib.Machine

/-! The documented lifecycle against the entry points: which runs of calls and timer
firings keep to the four edges of the README and signal each of them. -/

namespace Chamge
open CString

def lifecycle : Machine ChamgeNode (NodeAction × ChamgeReturn) where
  step n l :=
    match l.1 with
    | .fire t =>
      if t ∈ n.timers.map Timer.id then some (nodeAction n (.fire t) l.2).node else none
    | a => some (nodeAction n a l.2).node

def sourceState : NodeAction → ChamgeNodeState
  | .enroll _ | .fire _ => .null
  | .activate => .enrolled
  | .deactivate => .activated
  | .delist => .enrolled

def targetState : NodeAction → ChamgeNodeState
  | .enroll _ | .fire _ => .enrolled
  | .activate => .activated
  | .deactivate => .enrolled
  | .delist => .null

def emissions (trace : List NodeEvent) : List ChamgeNodeState :=
  trace.filterMap fun
    | .stateChanged state => some state
    | _ => none

def BackendReached (trace : List NodeEvent) : Prop :=
  ∃ obj m, NodeEvent.backendCalled obj m ∈ trace

/-- The lifecycle law for one call or firing `a` on the node `n`. -/
structure LawfulOutcome (n : ChamgeNode) (a : NodeAction)
    (o : CallOutcome (Option ChamgeReturn)) : Prop where
  edge : o.node.state ≠ n.state → n.state = sourceState a ∧ o.node.state = targetState a
  signal : emissions o.trace = if o.node.state = n.state then [] else [o.node.state]
  refused : n.state ≠ sourceState a →
    (∀ ret, o.ret = some ret → ret = .fail) ∧ ¬ BackendReached o.trace ∧ o.node = n

/-- A delist comes from `ENROLLED`, or finds no backend object to delist. -/
def DelistGuarded (n : ChamgeNode) (a : NodeAction) : Prop :=
  match a with
  | .delist => n.state = .enrolled ∨ n.backend = none
  | _ => True

/-! ### The subclass methods -/

theorem nodeClass_enroll (k : NodeKind) : (nodeClass k).enroll = subclassEnroll := by
  cases k <;> rfl

theorem nodeClass_delist (k : NodeKind) : (nodeClass k).delist = subclassDelist := by
  cases k <;> rfl

theorem nodeClass_activate (k : NodeKind) :
    (nodeClass k).activate = backendCall .activate := by
  cases k <;> rfl

theorem nodeClass_deactivate (k : NodeKind) :
    (nodeClass k).deactivate = backendCall .deactivate := by
  cases k <;> rfl

@[simp] theorem backendCall_node (m : BackendMethod) (n : ChamgeNode) (r : ChamgeReturn) :
    (backendCall m n r).node = n := by
  unfold backendCall
  split <;> rfl

@[simp] theorem ensureBackend_state (n : ChamgeNode) : (ensureBackend n).state = n.state := by
  unfold ensureBackend
  split <;> rfl

theorem backendCall_trace (m : BackendMethod) (n : ChamgeNode) (r : ChamgeReturn) :
    emissions (backendCall m n r).trace = [] := by
  unfold backendCall
  split <;> rfl

@[simp] theorem subclassEnroll_state (n : ChamgeNode) (r : ChamgeReturn) :
    (subclassEnroll n r).node.state = n.state := by
  rw [subclassEnroll, backendCall_node, ensureBackend_state]

@[simp] theorem subclassDelist_node (n : ChamgeNode) (r : ChamgeReturn) :
    (subclassDelist n r).node = { n with backend := none } := by
  simp only [subclassDelist, backendCall_node]

theorem emissions_append (t u : List NodeEvent) :
    emissions (t ++ u) = emissions t ++ emissions u := List.filterMap_append

/-! ### The entry points -/

theorem storeState_lawful {n : ChamgeNode} {a : NodeAction} {o : CallOutcome ChamgeReturn}
    (hs : n.state = sourceState a) (hne : targetState a ≠ sourceState a)
    (hstate : o.node.state = n.state) (htrace : emissions o.trace = []) :
    LawfulOutcome n a (nodeAction.lift (storeState o (targetState a))) := by
  unfold storeState
  split_ifs with hok
  · refine ⟨fun _ => ⟨hs, rfl⟩, ?_, fun h => absurd hs h⟩
    simp only [nodeAction.lift, emissions_append, htrace, hs, if_neg hne]
    rfl
  · refine ⟨fun h => absurd hstate h, ?_, fun h => absurd hs h⟩
    simp only [nodeAction.lift, htrace, hstate, if_true]

theorem guard_lawful {n : ChamgeNode} {a : NodeAction} {ret : Option ChamgeReturn}
    (hret : ∀ r, ret = some r → r = .fail) : LawfulOutcome n a ⟨n, ret, []⟩ := by
  refine ⟨fun h => absurd rfl h, ?_, fun _ => ⟨hret, ?_, rfl⟩⟩
  · simp only [if_true]
    rfl
  · rintro ⟨obj, m, hm⟩
    exact List.not_mem_nil hm

theorem enroll_lawful (n : ChamgeNode) (lazily : Option LazyClock) (r : ChamgeReturn) :
    LawfulOutcome n (.enroll lazily) (nodeAction n (.enroll lazily) r) := by
  simp only [nodeAction, chamgeNodeEnroll]
  split_ifs with hs
  · exact guard_lawful fun r hr => (Option.some.inj hr).symm
  have hs : n.state = .null := not_not.mp hs
  cases lazily with
  | some clk =>
    refine ⟨fun h => absurd rfl h, ?_, fun h => absurd hs h⟩
    simp only [nodeAction.lift, addTimer, if_true]
    rfl
  | none =>
    rw [nodeClass_enroll]
    exact storeState_lawful (a := .enroll none) hs (by decide) (subclassEnroll_state n r)
      (backendCall_trace ..)

theorem activate_lawful (n : ChamgeNode) (r : ChamgeReturn) :
    LawfulOutcome n .activate (nodeAction n .activate r) := by
  simp only [nodeAction, chamgeNodeActivate]
  split_ifs with hs
  · exact guard_lawful fun r hr => (Option.some.inj hr).symm
  rw [nodeClass_activate]
  exact storeState_lawful (a := .activate) (not_not.mp hs) (by decide)
    (congrArg ChamgeNode.state (backendCall_node ..)) (backendCall_trace ..)

theorem deactivate_lawful (n : ChamgeNode) (r : ChamgeReturn) :
    LawfulOutcome n .deactivate (nodeAction n .deactivate r) := by
  simp only [nodeAction, chamgeNodeDeactivate]
  split_ifs with hs
  · exact guard_lawful fun r hr => (Option.some.inj hr).symm
  rw [nodeClass_deactivate]
  exact storeState_lawful (a := .deactivate) (not_not.mp hs) (by decide)
    (congrArg ChamgeNode.state (backendCall_node ..)) (backendCall_trace ..)

theorem fire_lawful (n : ChamgeNode) (t : ℕ) (r : ChamgeReturn) :
    LawfulOutcome n (.fire t) (nodeAction n (.fire t) r) := by
  simp only [nodeAction, fireTimer, enrollByUidGroupFunc]
  by_cases hs : n.state = .null
  · have htrace : emissions (subclassEnroll n r).trace = [] := backendCall_trace ..
    simp only [hs, ne_eq, not_true_eq_false, if_false, nodeClass_enroll]
    by_cases hok : (subclassEnroll n r).ret = .ok
    · simp only [hok, if_true]
      refine ⟨fun _ => ⟨hs, rfl⟩, ?_, fun h => absurd hs h⟩
      simp only [emissions_append, htrace, hs]
      rfl
    · simp only [hok, if_false, if_true]
      refine ⟨fun h => absurd (subclassEnroll_state n r) h, ?_, fun h => absurd hs h⟩
      simp only [htrace, subclassEnroll_state, if_true]
  · have hne : ChamgeReturn.fail.toInt ≠ 0 := by decide
    simp only [hs, ne_eq, not_false_eq_true, if_true, hne, if_false]
    exact guard_lawful fun r hr => nomatch hr

/-- Delist has no guard of its own: only the source state or a missing backend object
keeps it within the law. -/
theorem delist_lawful_iff (n : ChamgeNode) (r : ChamgeReturn) :
    LawfulOutcome n .delist (nodeAction n .delist r) ↔ DelistGuarded n .delist := by
  simp only [nodeAction, chamgeNodeDelist, nodeClass_delist, DelistGuarded]
  by_cases hs : n.state = .enrolled
  · refine ⟨fun _ => Or.inl hs, fun _ => storeState_lawful (a := .delist) hs (by decide) ?_ ?_⟩
    · rw [subclassDelist_node]
    · exact backendCall_trace ..
  cases hb : n.backend with
  | none =>
    have hn : subclassDelist n r = ⟨n, .fail, []⟩ := by
      simp only [subclassDelist, backendCall, hb]
      cases n
      cases hb
      rfl
    simp only [or_true, iff_true, hn, storeState, reduceCtorEq, if_false]
    exact guard_lawful fun r hr => (Option.some.inj hr).symm
  | some obj =>
    simp only [hs, reduceCtorEq, or_self, iff_false]
    intro h
    refine (h.refused hs).2.1 ⟨obj, .delist, ?_⟩
    have hmem : NodeEvent.backendCalled obj .delist ∈ (subclassDelist n r).trace := by
      simp only [subclassDelist, backendCall, hb, List.mem_singleton]
    simp only [nodeAction.lift, storeState]
    split_ifs
    · exact List.mem_append_left _ hmem
    · exact hmem

theorem action_lawful_iff (n : ChamgeNode) (a : NodeAction) (r : ChamgeReturn) :
    LawfulOutcome n a (nodeAction n a r) ↔ DelistGuarded n a := by
  cases a with
  | enroll lazily => exact iff_of_true (enroll_lawful n lazily r) trivial
  | delist => exact delist_lawful_iff n r
  | activate => exact iff_of_true (activate_lawful n r) trivial
  | deactivate => exact iff_of_true (deactivate_lawful n r) trivial
  | fire t => exact iff_of_true (fire_lawful n t r) trivial

/-- A run of calls and firings keeps to the documented lifecycle exactly when each of its
delist calls is made in `ENROLLED` or on a node that holds no backend object. -/
theorem lifecycle_lawful_iff (kind : NodeKind) (uid : Bytes)
    (ls : List (NodeAction × ChamgeReturn)) :
    lifecycle.Along (fun n l => LawfulOutcome n l.1 (nodeAction n l.1 l.2))
        (.init kind uid) ls ↔
      lifecycle.Along (fun n l => DelistGuarded n l.1) (.init kind uid) ls :=
  Machine.along_congr fun n l => action_lawful_iff n l.1 l.2

/-- An activated edge is delisted: `ACTIVATED` changes to `NULL` directly. -/
theorem activated_delist_unlawful :
    ¬ lifecycle.Along (fun n l => LawfulOutcome n l.1 (nodeAction n l.1 l.2))
      (.init .edge (cstr "abc-987-123"))
      [(.enroll none, .ok), (.activate, .ok), (.delist, .ok)] := by
  intro h
  have h3 := (((h _ rfl).2 _ rfl).2 _ rfl).1
  exact absurd (h3.edge (by decide)).1 (by decide)

end Chamge
