import Chamge.LazyEnroll

/-! The references to a node against its timers. A timer holds none, and neither `dispose`
nor `finalize` takes it off the main loop. -/

namespace Chamge
open CString

/-- `owned` are the references of the owner, and `kept` those that the methods of an AMQP
backend have taken and not given back. `misfired` is set once a timer has called
`enroll_by_uid_group_func` on the finalized node. -/
structure NodeLifetime where
  node : ChamgeNode
  owned : ℕ
  kept : ℕ
  misfired : Bool

def NodeLifetime.init (kind : NodeKind) (uid : Bytes) : NodeLifetime :=
  { node := .init kind uid, owned := 1, kept := 0, misfired := false }

/-- The backend object's reference to its node. -/
def ChamgeNode.backendRefs (n : ChamgeNode) : ℕ := if n.backend = none then 0 else 1

def NodeLifetime.refs (s : NodeLifetime) : ℕ := s.owned + s.node.backendRefs + s.kept

def NodeLifetime.finalized (s : NodeLifetime) : Prop := s.refs = 0

instance (s : NodeLifetime) : Decidable s.finalized := inferInstanceAs (Decidable (s.refs = 0))

/-- `left` is what the backend's method leaves behind, if it is reached. -/
inductive LifetimeStep
  | call (a : NodeAction) (r : ChamgeReturn) (left : ℕ)
  | ref
  | unref

def LifetimeStep.fire (f : ℕ × ChamgeReturn × ℕ) : LifetimeStep :=
  .call (.fire f.1) f.2.1 f.2.2

def NodeLifetime.act (s : NodeLifetime) (a : NodeAction) (r : ChamgeReturn) (left : ℕ) :
    NodeLifetime :=
  let o := nodeAction s.node a r
  { s with node := o.node, kept := s.kept + if reached o.trace = none then 0 else left }

/-- The owner calls while it has a reference; the main loop fires what is pending. -/
def lifetimes : Machine NodeLifetime LifetimeStep where
  step s l :=
    match l with
    | .call (.fire t) r left =>
      if t ∈ s.node.pending then
        if s.finalized then some { s with misfired := true } else some (s.act (.fire t) r left)
      else none
    | .call a r left => if 0 < s.owned then some (s.act a r left) else none
    | .ref => if 0 < s.owned then some { s with owned := s.owned + 1 } else none
    | .unref => if 0 < s.owned then some { s with owned := s.owned - 1 } else none

/-- However the main loop goes on from here, no timer misfires. -/
def TimersSafe (s : NodeLifetime) : Prop :=
  ∀ fires : List (ℕ × ChamgeReturn × ℕ),
    lifetimes.Always (fun u => u.misfired = false) s (fires.map .fire)

/-- The last reference to the node is dropped with no timer pending. -/
def DropsInTime (s : NodeLifetime) (l : LifetimeStep) : Prop :=
  match l with
  | .unref => s.refs = 1 → s.node.pending = []
  | _ => True

/-! ### What a step leaves of the references -/

variable {s u : NodeLifetime} {a : NodeAction} {r : ChamgeReturn} {left t : ℕ} {l : LifetimeStep}

theorem not_finalized_of_owned (h : 0 < s.owned) : ¬ s.finalized := by
  unfold NodeLifetime.finalized NodeLifetime.refs
  omega

theorem fire_backendRefs (n : ChamgeNode) (t : ℕ) (r : ChamgeReturn) :
    n.backendRefs ≤ (nodeAction n (.fire t) r).node.backendRefs := by
  have hstep := actionStep n (.fire t) r
  generalize nodeAction n (.fire t) r = o at hstep ⊢
  cases hstep with
  | refused => exact le_rfl
  | unbacked ha => rcases ha with h | h | h <;> cases h
  | fire =>
    have hbackend : ((ensureBackend n).settle r .enrolled).backend = some n.calledObject := by
      unfold ChamgeNode.settle
      split_ifs <;> rw [ensureBackend_eq]
    simp only [ChamgeNode.backendRefs, hbackend, reduceCtorEq, if_false]
    split_ifs <;> omega

theorem act_not_finalized (h : ¬ s.finalized) (ha : 0 < s.owned ∨ ∃ t, a = .fire t) :
    ¬ (s.act a r left).finalized := by
  unfold NodeLifetime.finalized NodeLifetime.refs at h ⊢
  have howned : (s.act a r left).owned = s.owned := rfl
  have hkept : s.kept ≤ (s.act a r left).kept := Nat.le_add_right ..
  rcases ha with hpos | ⟨t, rfl⟩
  · omega
  · have hbackend : s.node.backendRefs ≤ (s.act (.fire t) r left).node.backendRefs :=
      fire_backendRefs s.node t r
    omega

/-- What a step comes to: it leaves the node alive, drops a reference, or misfires. -/
inductive LifetimeCase (s : NodeLifetime) : LifetimeStep → NodeLifetime → Prop
  | alive {l : LifetimeStep} {u : NodeLifetime} (hl : l ≠ .unref) (halive : ¬ u.finalized)
    (hmisfired : u.misfired = s.misfired) : LifetimeCase s l u
  | dropped (howned : 0 < s.owned) : LifetimeCase s .unref { s with owned := s.owned - 1 }
  | misfired {r : ChamgeReturn} {left t : ℕ} (ht : t ∈ s.node.pending) (hs : s.finalized) :
    LifetimeCase s (.call (.fire t) r left) { s with misfired := true }

theorem lifetimeCase (h : lifetimes.step s l = some u) : LifetimeCase s l u := by
  have hcalled {a : NodeAction} {r : ChamgeReturn} {left : ℕ} (hpos : 0 < s.owned) :
      LifetimeCase s (.call a r left) (s.act a r left) :=
    .alive (by simp) (act_not_finalized (not_finalized_of_owned hpos) (Or.inl hpos)) rfl
  cases l with
  | ref =>
    simp only [lifetimes, Option.ite_none_right_eq_some, Option.some.injEq] at h
    obtain ⟨hpos, rfl⟩ := h
    exact .alive (by simp) (not_finalized_of_owned (Nat.succ_pos _)) rfl
  | unref =>
    simp only [lifetimes, Option.ite_none_right_eq_some, Option.some.injEq] at h
    obtain ⟨hpos, rfl⟩ := h
    exact .dropped hpos
  | call a r left =>
    cases a with
    | fire t =>
      simp only [lifetimes, Option.ite_none_right_eq_some] at h
      obtain ⟨ht, h⟩ := h
      split_ifs at h with hs
      · obtain rfl := Option.some.inj h
        exact .misfired ht hs
      · obtain rfl := Option.some.inj h
        exact .alive (by simp) (act_not_finalized hs (Or.inr ⟨t, rfl⟩)) rfl
    | enroll | delist | activate | deactivate =>
      simp only [lifetimes, Option.ite_none_right_eq_some, Option.some.injEq] at h
      obtain ⟨hpos, rfl⟩ := h
      exact hcalled hpos

/-! ### The timers of a finalized node -/

/-- The node is alive, or has no timer. -/
theorem timersSafe_iff (h : s.misfired = false) :
    TimersSafe s ↔ (s.finalized → s.node.pending = []) := by
  constructor
  · intro hsafe hs
    rw [List.eq_nil_iff_forall_not_mem]
    intro t ht
    have hstep : lifetimes.step s (.fire (t, .ok, 0)) = some { s with misfired := true } := by
      simp only [lifetimes, LifetimeStep.fire, if_pos ht, if_pos hs]
    have hfired := (hsafe [(t, .ok, 0)]).2 _ hstep
    cases hfired
  · intro hpending fires
    induction fires generalizing s with
    | nil => exact h
    | cons f fires ih =>
      refine ⟨h, fun u hstep => ?_⟩
      have hcase := lifetimeCase hstep
      unfold LifetimeStep.fire at hcase
      cases hcase with
      | alive _ halive hmisfired => exact ih (hmisfired.trans h) fun hu => absurd hu halive
      | misfired ht hs => exact absurd ht (hpending hs ▸ List.not_mem_nil)

theorem timersSafe_init (kind : NodeKind) (uid : Bytes) : TimersSafe (.init kind uid) := by
  have halive : ¬ (NodeLifetime.init kind uid).finalized := not_finalized_of_owned Nat.one_pos
  exact (timersSafe_iff rfl).mpr fun h => absurd h halive

/-- A step keeps the timers safe exactly when it drops the last reference in time. -/
theorem timersSafe_step (hs : TimersSafe s) (hstep : lifetimes.step s l = some u) :
    TimersSafe u ↔ DropsInTime s l := by
  have hmisfired : s.misfired = false := hs []
  have hpending := (timersSafe_iff hmisfired).mp hs
  cases lifetimeCase hstep with
  | alive hl halive hkept =>
    rw [timersSafe_iff (hkept.trans hmisfired)]
    refine iff_of_true (fun hu => absurd hu halive) ?_
    cases l with
    | unref => exact absurd rfl hl
    | call | ref => trivial
  | dropped howned =>
    -- only here can the node be finalized
    have hsafe := timersSafe_iff (s := { s with owned := s.owned - 1 }) hmisfired
    have hlast : NodeLifetime.finalized { s with owned := s.owned - 1 } ↔ s.refs = 1 := by
      simp only [NodeLifetime.finalized, NodeLifetime.refs]
      omega
    rw [hsafe, hlast]
    exact Iff.rfl
  | misfired ht hdead => exact absurd ht (hpending hdead ▸ List.not_mem_nil)

/-- In all states of a run no timer can misfire exactly when every drop of the last reference
finds no timer pending. -/
theorem timers_safe_iff (kind : NodeKind) (uid : Bytes) (ls : List LifetimeStep) :
    lifetimes.Always TimersSafe (.init kind uid) ls ↔
      lifetimes.Along DropsInTime (.init kind uid) ls := by
  apply Machine.always_iff_along (I := fun _ => True)
  · exact fun _ _ _ _ _ => trivial
  · exact fun s l u _ hs hstep => timersSafe_step hs hstep
  · trivial
  · exact timersSafe_init kind uid

/-- Along a run that drops the last reference in time no timer has misfired. -/
theorem no_timer_misfires {kind : NodeKind} {uid : Bytes} {ls : List LifetimeStep}
    (h : lifetimes.Along DropsInTime (.init kind uid) ls)
    (hrun : lifetimes.run (.init kind uid) ls = some u) : u.misfired = false := by
  have hsafe : TimersSafe u := Machine.run_invariant
    (fun _ _ _ hs hdrops hstep => (timersSafe_step hs hstep).mpr hdrops)
    (timersSafe_init kind uid) h hrun
  exact hsafe []

/-- The owner enrolls lazily and drops the node before the timer fires. -/
theorem dropped_node_fires : ¬ lifetimes.Always (fun s => s.misfired = false)
    (.init .edge (cstr "abc-987-123"))
    [.call (.enroll (some firstGroup)) .ok 0, .unref, .call (.fire 0) .ok 0] := by
  intro h
  have hmisfired := ((h.2 _ rfl).2 _ rfl).2 _ rfl
  cases hmisfired

end Chamge
