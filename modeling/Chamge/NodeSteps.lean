import Chamge.Lifecycle

/-! Every branch of every call on a node, as one inversion lemma. -/

namespace Chamge

/-- The object that a method is called on: the one that is there, or the one made for it. -/
def ChamgeNode.calledObject (n : ChamgeNode) : ℕ := n.backend.getD n.created

/-- The state is stored on `CHAMGE_RETURN_OK` only. -/
def ChamgeNode.settle (n : ChamgeNode) (r : ChamgeReturn) (state : ChamgeNodeState) :
    ChamgeNode := if r = .ok then { n with state } else n

def eagerEmission (r : ChamgeReturn) (state : ChamgeNodeState) : List NodeEvent :=
  if r = .ok then [.lock, .stateChanged state, .unlock] else []

def lazyEmission (r : ChamgeReturn) : List NodeEvent :=
  if r = .ok then [.lock, .unlock, .stateChanged .enrolled] else []

/-- A firing has no caller to answer. -/
def NodeAction.answer (a : NodeAction) (ret : ChamgeReturn) : Option ChamgeReturn :=
  match a with
  | .fire _ => none
  | _ => some ret

inductive ActionStep (n : ChamgeNode) (r : ChamgeReturn) :
    NodeAction → CallOutcome (Option ChamgeReturn) → Prop
  | refused {a : NodeAction} (ha : a ≠ .delist) (hs : n.state ≠ sourceState a) :
    ActionStep n r a ⟨n, a.answer .fail, []⟩
  | unbacked {a : NodeAction} (ha : a = .activate ∨ a = .deactivate ∨ a = .delist)
    (hb : n.backend = none) : ActionStep n r a ⟨n, some .fail, []⟩
  | lazily {clk : LazyClock} {trigger : UInt32} (hs : n.state = .null) :
    ActionStep n r (.enroll (some clk)) ⟨addTimer n trigger, some .async, []⟩
  | enroll (hs : n.state = .null) :
    ActionStep n r (.enroll none) ⟨(ensureBackend n).settle r .enrolled, some r,
      .backendCalled n.calledObject .enroll :: eagerEmission r .enrolled⟩
  | fire {t : ℕ} (hs : n.state = .null) :
    ActionStep n r (.fire t)
      ⟨{ (ensureBackend n).settle r .enrolled with timers := n.timers.filter (·.id ≠ t) }, none,
        .backendCalled n.calledObject .enroll :: lazyEmission r⟩
  | activate {obj : ℕ} (hs : n.state = .enrolled) (hb : n.backend = some obj) :
    ActionStep n r .activate ⟨n.settle r .activated, some r,
      .backendCalled obj .activate :: eagerEmission r .activated⟩
  | deactivate {obj : ℕ} (hs : n.state = .activated) (hb : n.backend = some obj) :
    ActionStep n r .deactivate ⟨n.settle r .enrolled, some r,
      .backendCalled obj .deactivate :: eagerEmission r .enrolled⟩
  | delist {obj : ℕ} (hb : n.backend = some obj) :
    ActionStep n r .delist ⟨{ n with backend := none }.settle r .null, some r,
      .backendCalled obj .delist :: eagerEmission r .null⟩

variable {n : ChamgeNode} {a : NodeAction} {r : ChamgeReturn} {m : BackendMethod}

theorem ensureBackend_eq (n : ChamgeNode) :
    ensureBackend n = { n with
      backend := some n.calledObject
      created := if n.backend = none then n.created + 1 else n.created } := by
  obtain ⟨kind, uid, state, backend, created, timers, nextTimer⟩ := n
  cases backend <;> rfl

theorem calledObject_of_some {obj : ℕ} (hb : n.backend = some obj) : n.calledObject = obj := by
  rw [ChamgeNode.calledObject, hb, Option.getD_some]

theorem backendCall_some {obj : ℕ} (hb : n.backend = some obj) :
    backendCall m n r = ⟨n, r, [.backendCalled obj m]⟩ := by
  rw [backendCall, hb]

theorem backendCall_none (hb : n.backend = none) : backendCall m n r = ⟨n, .fail, []⟩ := by
  rw [backendCall, hb]

theorem subclassEnroll_eq (n : ChamgeNode) (r : ChamgeReturn) :
    subclassEnroll n r = ⟨ensureBackend n, r, [.backendCalled n.calledObject .enroll]⟩ :=
  backendCall_some (congrArg ChamgeNode.backend (ensureBackend_eq n))

theorem storeState_eq (n : ChamgeNode) (r : ChamgeReturn) (e : NodeEvent)
    (state : ChamgeNodeState) :
    storeState ⟨n, r, [e]⟩ state = ⟨n.settle r state, r, e :: eagerEmission r state⟩ := by
  unfold storeState ChamgeNode.settle eagerEmission
  split_ifs <;> rfl

theorem storeState_fail (n : ChamgeNode) (state : ChamgeNodeState) :
    storeState ⟨n, .fail, []⟩ state = ⟨n, .fail, []⟩ := rfl

theorem actionStep_enroll (lazily : Option LazyClock) :
    ActionStep n r (.enroll lazily) (nodeAction n (.enroll lazily) r) := by
  simp only [nodeAction, chamgeNodeEnroll]
  split_ifs with hs
  · exact .refused (by simp) hs
  have hs : n.state = .null := not_not.mp hs
  cases lazily with
  | some clk => exact .lazily hs
  | none =>
    simp only [nodeClass_enroll, subclassEnroll_eq, storeState_eq]
    exact .enroll hs

theorem actionStep_activate : ActionStep n r .activate (nodeAction n .activate r) := by
  simp only [nodeAction, chamgeNodeActivate]
  split_ifs with hs
  · exact .refused (by simp) hs
  simp only [nodeClass_activate]
  cases hb : n.backend with
  | none =>
    rw [backendCall_none hb, storeState_fail]
    exact .unbacked (Or.inl rfl) hb
  | some obj =>
    rw [backendCall_some hb, storeState_eq]
    exact .activate (not_not.mp hs) hb

theorem actionStep_deactivate : ActionStep n r .deactivate (nodeAction n .deactivate r) := by
  simp only [nodeAction, chamgeNodeDeactivate]
  split_ifs with hs
  · exact .refused (by simp) hs
  simp only [nodeClass_deactivate]
  cases hb : n.backend with
  | none =>
    rw [backendCall_none hb, storeState_fail]
    exact .unbacked (Or.inr (Or.inl rfl)) hb
  | some obj =>
    rw [backendCall_some hb, storeState_eq]
    exact .deactivate (not_not.mp hs) hb

theorem actionStep_delist : ActionStep n r .delist (nodeAction n .delist r) := by
  simp only [nodeAction, chamgeNodeDelist, nodeClass_delist, subclassDelist]
  cases hb : n.backend with
  | none =>
    rw [backendCall_none hb, storeState_fail]
    have hn : { n with backend := none } = n := by rw [← hb]
    rw [hn]
    exact .unbacked (Or.inr (Or.inr rfl)) hb
  | some obj =>
    rw [backendCall_some hb, storeState_eq]
    exact .delist hb

theorem actionStep_fire (t : ℕ) : ActionStep n r (.fire t) (nodeAction n (.fire t) r) := by
  simp only [nodeAction, fireTimer, enrollByUidGroupFunc]
  by_cases hs : n.state = .null
  · have hstep := ActionStep.fire (t := t) (r := r) hs
    simp only [hs, ne_eq, not_true_eq_false, if_false, nodeClass_enroll, subclassEnroll_eq]
    unfold ChamgeNode.settle lazyEmission at hstep
    have htimers : (ensureBackend n).timers = n.timers := by rw [ensureBackend_eq]
    by_cases hr : r = .ok
    all_goals
      simp only [hr, if_true, if_false, htimers] at hstep ⊢
      exact hstep
  · have hne : ChamgeReturn.fail.toInt ≠ 0 := by decide
    simp only [hs, ne_eq, not_false_eq_true, if_true, hne, if_false]
    exact .refused (by simp) hs

theorem actionStep (n : ChamgeNode) (a : NodeAction) (r : ChamgeReturn) :
    ActionStep n r a (nodeAction n a r) := by
  cases a with
  | enroll lazily => exact actionStep_enroll lazily
  | delist => exact actionStep_delist
  | activate => exact actionStep_activate
  | deactivate => exact actionStep_deactivate
  | fire t => exact actionStep_fire t

theorem delist_unbacked (hb : n.backend = none) (r : ChamgeReturn) :
    nodeAction n .delist r = ⟨n, some .fail, []⟩ := by
  have hstep := actionStep n .delist r
  generalize nodeAction n .delist r = o at hstep
  cases hstep with
  | refused ha => exact absurd rfl ha
  | unbacked => rfl
  | delist hb' => simp [hb] at hb'

theorem delist_backed {obj : ℕ} (hb : n.backend = some obj) (r : ChamgeReturn) :
    nodeAction n .delist r = ⟨{ n with backend := none }.settle r .null, some r,
      .backendCalled obj .delist :: eagerEmission r .null⟩ := by
  have hstep := actionStep n .delist r
  generalize nodeAction n .delist r = o at hstep
  cases hstep with
  | refused ha => exact absurd rfl ha
  | unbacked ha hb' => simp [hb] at hb'
  | delist hb' =>
    obtain rfl := Option.some.inj (hb.symm.trans hb')
    rfl

end Chamge
