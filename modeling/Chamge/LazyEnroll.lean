import Mathlib.Logic.Function.Basic
import Chamge.Device
import Chamge.Lib.Machine

/-! Lazy enrolls: the timers of a node against the calls that overtake them. -/

namespace Chamge
open CString

/-- A node with the history of its timers, each of which belongs to one lazy enroll call:
the calls of the class's enroll that a timer has led to, and the timers that have fired.
`delisted` is set while a delist has returned OK and no enroll call has been made since. -/
structure LazyHistory where
  node : ChamgeNode
  enrolls : ℕ → ℕ
  fired : List ℕ
  delisted : Bool

def LazyHistory.init (kind : NodeKind) (uid : Bytes) : LazyHistory :=
  { node := .init kind uid, enrolls := fun _ => 0, fired := [], delisted := false }

def ChamgeNode.pending (n : ChamgeNode) : List ℕ := n.timers.map Timer.id

def LazyHistory.act (s : LazyHistory) (a : NodeAction) (r : ChamgeReturn) : LazyHistory :=
  let o := nodeAction s.node a r
  match a with
  | .fire t =>
    { s with
      node := o.node
      enrolls := if reached o.trace = some .enroll then
        Function.update s.enrolls t (s.enrolls t + 1) else s.enrolls
      fired := t :: s.fired }
  | .enroll _ => { s with node := o.node, delisted := false }
  | .delist => { s with node := o.node, delisted := o.ret = some .ok || s.delisted }
  | .activate | .deactivate => { s with node := o.node }

def lazyEnrolls : Machine LazyHistory (NodeAction × ChamgeReturn) where
  step s l :=
    match l.1 with
    | .fire t => if t ∈ s.node.pending then some (s.act l.1 l.2) else none
    | _ => some (s.act l.1 l.2)

/-- The promise of the lazy enroll. -/
structure LazyLawful (s : LazyHistory) : Prop where
  once : ∀ t, s.enrolls t ≤ 1
  gone : ∀ t ∈ s.fired, t ∉ s.node.pending
  null : s.delisted = true → s.node.state = .null

/-- A timer fires in `NULL`, and one that outlives a delist does not get to enroll. -/
def FiresInTime (s : LazyHistory) (l : NodeAction × ChamgeReturn) : Prop :=
  match l.1 with
  | .fire _ => s.node.state = .null ∧ (s.delisted = true → l.2 ≠ .ok)
  | _ => True

/-! ### The timers -/

structure TimerInv (s : LazyHistory) : Prop where
  numbered : ∀ t ∈ s.node.pending, t < s.node.nextTimer
  spent : ∀ t, 0 < s.enrolls t → t ∉ s.node.pending ∧ t < s.node.nextTimer
  once : ∀ t, s.enrolls t ≤ 1
  fired : ∀ t ∈ s.fired, t < s.node.nextTimer

variable {s u : LazyHistory} {a : NodeAction} {r : ChamgeReturn} {n : ChamgeNode} {t : ℕ}

theorem timerInv_init (kind : NodeKind) (uid : Bytes) : TimerInv (.init kind uid) :=
  ⟨nofun, nofun, fun _ => Nat.zero_le 1, nofun⟩

/-- What a call or a firing leaves of the timers. -/
inductive TimerStep (n : ChamgeNode) : NodeAction → Option BackendMethod → ChamgeNode → Prop
  | added {clk : LazyClock} {n' : ChamgeNode} (hpending : n'.pending = n.pending ++ [n.nextTimer])
    (hnext : n'.nextTimer = n.nextTimer + 1) : TimerStep n (.enroll (some clk)) none n'
  | spent {t : ℕ} {n' : ChamgeNode} (hs : n.state = .null)
    (hpending : n'.pending = n.pending.filter (· ≠ t)) (hnext : n'.nextTimer = n.nextTimer) :
    TimerStep n (.fire t) (some .enroll) n'
  | stuck {t : ℕ} (hs : n.state ≠ .null) : TimerStep n (.fire t) none n
  | kept {a : NodeAction} {m : Option BackendMethod} {n' : ChamgeNode} (ha : ∀ t, a ≠ .fire t)
    (hpending : n'.pending = n.pending) (hnext : n'.nextTimer = n.nextTimer) : TimerStep n a m n'

theorem settle_timers (state : ChamgeNodeState) : (n.settle r state).timers = n.timers ∧
    (n.settle r state).nextTimer = n.nextTimer := by
  unfold ChamgeNode.settle
  split_ifs <;> exact ⟨rfl, rfl⟩

theorem settle_kept {m : Option BackendMethod} {n' : ChamgeNode} {state : ChamgeNodeState}
    (ha : ∀ t, a ≠ .fire t) (h : n'.timers = n.timers ∧ n'.nextTimer = n.nextTimer) :
    TimerStep n a m (n'.settle r state) := by
  obtain ⟨htimers, hnext⟩ := settle_timers (n := n') (r := r) state
  refine .kept ha ?_ (hnext.trans h.2)
  rw [ChamgeNode.pending, htimers, h.1, ChamgeNode.pending]

theorem timerStep (n : ChamgeNode) (a : NodeAction) (r : ChamgeReturn) :
    TimerStep n a (reached (nodeAction n a r).trace) (nodeAction n a r).node := by
  have hstep := actionStep n a r
  generalize nodeAction n a r = o at hstep ⊢
  have hensure : (ensureBackend n).timers = n.timers ∧
      (ensureBackend n).nextTimer = n.nextTimer := by
    rw [ensureBackend_eq]
    exact ⟨rfl, rfl⟩
  cases hstep with
  | refused ha hs =>
    cases a with
    | fire t => exact .stuck hs
    | enroll | activate | deactivate | delist => exact .kept (by simp) rfl rfl
  | unbacked ha => rcases ha with rfl | rfl | rfl <;> exact .kept (by simp) rfl rfl
  | lazily =>
    refine .added ?_ rfl
    simp only [ChamgeNode.pending, addTimer, List.map_append, List.map_cons, List.map_nil]
  | enroll hs => exact settle_kept (by simp) hensure
  | fire hs =>
    refine .spent hs ?_ ?_
    · simp only [ChamgeNode.pending, List.filter_map]
      rfl
    · exact (settle_timers ..).2.trans hensure.2
  | activate | deactivate => exact settle_kept (by simp) ⟨rfl, rfl⟩
  | delist =>
    have hkept : ({ n with backend := none } : ChamgeNode).timers = n.timers ∧
        ({ n with backend := none } : ChamgeNode).nextTimer = n.nextTimer := ⟨rfl, rfl⟩
    exact settle_kept (by simp) hkept

/-- A call that is not a firing leaves the history of every timer as it is. -/
theorem TimerInv.of_call {m : Option BackendMethod} (h : TimerInv s)
    (hnode : TimerStep s.node a m u.node) (ha : ∀ t, a ≠ .fire t)
    (henrolls : u.enrolls = s.enrolls) (hfired : u.fired = s.fired) : TimerInv u := by
  generalize hn : u.node = n' at hnode
  cases hnode with
  | spent | stuck => exact absurd rfl (ha _)
  | added hpending hnext =>
    refine ⟨fun t ht => ?_, fun t ht => ?_, henrolls ▸ h.once, fun t ht => ?_⟩ <;> rw [hn, hnext]
    · rw [hn, hpending, List.mem_append, List.mem_singleton] at ht
      rcases ht with hold | rfl
      · exact Nat.lt_succ_of_lt (h.numbered t hold)
      · exact Nat.lt_succ_self _
    · obtain ⟨hgone, hlt⟩ := h.spent t (henrolls ▸ ht)
      refine ⟨?_, Nat.lt_succ_of_lt hlt⟩
      rw [hpending, List.mem_append, List.mem_singleton]
      rintro (hold | rfl)
      · exact hgone hold
      · exact Nat.lt_irrefl _ hlt
    · exact Nat.lt_succ_of_lt (h.fired t (hfired ▸ ht))
  | kept _ hpending hnext =>
    refine ⟨?_, ?_, henrolls ▸ h.once, ?_⟩ <;> rw [hn, hnext]
    · rw [hpending]
      exact h.numbered
    · rw [hpending, henrolls]
      exact h.spent
    · exact hfired ▸ h.fired

theorem act_fire_stuck (hs : s.node.state ≠ .null) (t : ℕ) (r : ChamgeReturn) :
    s.act (.fire t) r = { s with fired := t :: s.fired } := by
  have hstep := actionStep s.node (.fire t) r
  unfold LazyHistory.act
  generalize nodeAction s.node (.fire t) r = o at hstep ⊢
  cases hstep with
  | refused => rfl
  | unbacked ha => rcases ha with h | h | h <;> cases h
  | fire hnull => exact absurd hnull hs

/-- A firing in `NULL` has led to one enroll and spent the timer. -/
structure FiredInNull (s u : LazyHistory) (t : ℕ) (r : ChamgeReturn) : Prop where
  pending : ∀ t', t' ∈ u.node.pending ↔ t' ∈ s.node.pending ∧ t' ≠ t
  next : u.node.nextTimer = s.node.nextTimer
  state : u.node.state = if r = .ok then .enrolled else .null
  self : u.enrolls t = s.enrolls t + 1
  other : ∀ t', t' ≠ t → u.enrolls t' = s.enrolls t'
  fired : u.fired = t :: s.fired
  delisted : u.delisted = s.delisted

theorem act_fire_null (hs : s.node.state = .null) (t : ℕ) (r : ChamgeReturn) :
    FiredInNull s (s.act (.fire t) r) t r := by
  have htimers := timerStep s.node (.fire t) r
  have hcall := nodeCall s.node (.fire t) r
  rw [methodReached_eq (actionStep s.node (.fire t) r)] at hcall
  unfold LazyHistory.act
  generalize nodeAction s.node (.fire t) r = o at htimers hcall ⊢
  generalize hn : o.node = n' at htimers hcall
  generalize hr : reached o.trace = m at htimers hcall
  cases htimers with
  | stuck hne => exact absurd hs hne
  | kept ha => exact absurd rfl (ha t)
  | spent _ hpending hnext =>
    cases hcall with
    | enroll _ _ hstate =>
      simp only [hr, hn, if_true]
      refine ⟨fun t' => ?_, hnext, hstate, Function.update_self .., fun t' hne => ?_, rfl, rfl⟩
      · simp [hpending]
      · exact Function.update_of_ne hne ..

/-- Unconditionally: a timer that has led to an enroll is gone, so that none leads to two. -/
theorem act_timerInv (h : TimerInv s) (hfire : ∀ t, a = .fire t → t ∈ s.node.pending) :
    TimerInv (s.act a r) := by
  have hstep := timerStep s.node a r
  cases a with
  | enroll lazily => exact h.of_call (u := s.act (.enroll lazily) r) hstep (by simp) rfl rfl
  | delist => exact h.of_call (u := s.act .delist r) hstep (by simp) rfl rfl
  | activate => exact h.of_call (u := s.act .activate r) hstep (by simp) rfl rfl
  | deactivate => exact h.of_call (u := s.act .deactivate r) hstep (by simp) rfl rfl
  | fire t =>
    have ht := hfire t rfl
    have hlt := h.numbered t ht
    have hfired : ∀ t' ∈ t :: s.fired, t' < s.node.nextTimer := by
      rw [List.forall_mem_cons]
      exact ⟨hlt, h.fired⟩
    by_cases hs : s.node.state = .null
    · have hact := act_fire_null hs t r
      have hzero : s.enrolls t = 0 := by
        by_contra hpos
        exact (h.spent t (Nat.pos_of_ne_zero hpos)).1 ht
      refine ⟨fun t' ht' => ?_, fun t' ht' => ?_, fun t' => ?_, hact.next ▸ hact.fired ▸ hfired⟩
      · rw [hact.next]
        exact h.numbered t' ((hact.pending t').mp ht').1
      · rw [hact.next, hact.pending]
        by_cases heq : t' = t
        · rw [heq]
          exact ⟨fun hmem => hmem.2 rfl, hlt⟩
        · obtain ⟨hgone, hlt'⟩ := h.spent t' (hact.other t' heq ▸ ht')
          exact ⟨fun hmem => hgone hmem.1, hlt'⟩
      · by_cases heq : t' = t
        · rw [heq, hact.self, hzero]
        · rw [hact.other t' heq]
          exact h.once t'
    · rw [act_fire_stuck hs]
      exact ⟨h.numbered, h.spent, h.once, hfired⟩

/-! ### The law -/

theorem fire_lawful_iff (h : TimerInv s) (hs : LazyLawful s) (ht : t ∈ s.node.pending)
    (r : ChamgeReturn) : LazyLawful (s.act (.fire t) r) ↔ FiresInTime s (.fire t, r) := by
  have hinv : TimerInv (s.act (.fire t) r) := act_timerInv h fun _ heq => by
    cases heq
    exact ht
  by_cases hnull : s.node.state = .null
  · have hact := act_fire_null hnull t r
    refine ⟨fun hlaw => ⟨hnull, fun hd hok => ?_⟩,
      fun hin => ⟨hinv.once, fun t' ht' => ?_, fun hd => ?_⟩⟩
    · have hstate := hlaw.null (hact.delisted.trans hd)
      rw [hact.state, if_pos hok] at hstate
      cases hstate
    · rw [hact.pending]
      rw [hact.fired, List.mem_cons] at ht'
      rcases ht' with rfl | hold
      · exact fun hmem => hmem.2 rfl
      · exact fun hmem => hs.gone t' hold hmem.1
    · rw [hact.state, if_neg (hin.2 (hact.delisted.symm.trans hd))]
  · rw [act_fire_stuck hnull]
    refine iff_of_false (fun hlaw => ?_) fun hin => hnull hin.1
    exact hlaw.gone t (List.mem_cons_self ..) ht

/-- A call that is made while `delisted` is set and leaves it set stays in `NULL`. -/
theorem act_null (hs : s.delisted = true → s.node.state = .null) (ha : ∀ t, a ≠ .fire t)
    (hd : (s.act a r).delisted = true) : (s.act a r).node.state = .null := by
  have hstep := actionStep s.node a r
  unfold LazyHistory.act at hd ⊢
  generalize nodeAction s.node a r = o at hstep hd ⊢
  cases a with
  | enroll => cases hd
  | fire t => exact absurd rfl (ha t)
  | activate =>
    have hnull := hs hd
    cases hstep with
    | refused | unbacked => exact hnull
    | activate hs' => cases hnull.symm.trans hs'
  | deactivate =>
    have hnull := hs hd
    cases hstep with
    | refused | unbacked => exact hnull
    | deactivate hs' => cases hnull.symm.trans hs'
  | delist =>
    cases hstep with
    | refused hne => exact absurd rfl hne
    | unbacked => exact hs (by simpa using hd)
    | delist hb =>
      simp only [settle_state]
      split_ifs with hr
      · rfl
      · exact hs (by simpa [hr] using hd)

/-- No other call breaks the law. -/
theorem call_lawful (h : TimerInv s) (hs : LazyLawful s) (ha : ∀ t, a ≠ .fire t)
    (r : ChamgeReturn) : LazyLawful (s.act a r) := by
  have hinv : TimerInv (s.act a r) := act_timerInv h fun t heq => absurd heq (ha t)
  have htimers := timerStep s.node a r
  have hnode : (s.act a r).node = (nodeAction s.node a r).node := by
    cases a <;> rfl
  have hfired : (s.act a r).fired = s.fired := by
    cases a with
    | fire t => exact absurd rfl (ha t)
    | enroll | delist | activate | deactivate => rfl
  refine ⟨hinv.once, fun t ht => ?_, act_null hs.null ha⟩
  rw [hfired] at ht
  rw [← hnode] at htimers
  have hgone := hs.gone t ht
  generalize (s.act a r).node = n' at htimers ⊢
  generalize reached (nodeAction s.node a r).trace = m at htimers
  cases htimers with
  | spent | stuck => exact absurd rfl (ha _)
  | kept _ hpending => exact hpending ▸ hgone
  | added hpending =>
    rw [hpending, List.mem_append, List.mem_singleton]
    rintro (hold | rfl)
    · exact hgone hold
    · exact Nat.lt_irrefl _ (h.fired _ ht)

theorem lazyEnrolls_step {l : NodeAction × ChamgeReturn} (h : lazyEnrolls.step s l = some u) :
    u = s.act l.1 l.2 ∧ ∀ t, l.1 = .fire t → t ∈ s.node.pending := by
  obtain ⟨a, r⟩ := l
  cases a with
  | fire t =>
    simp only [lazyEnrolls, Option.ite_none_right_eq_some, Option.some.injEq] at h
    refine ⟨h.2.symm, fun t' heq => ?_⟩
    cases heq
    exact h.1
  | enroll | delist | activate | deactivate =>
    refine ⟨(Option.some.inj h).symm, fun t heq => ?_⟩
    cases heq

/-- A run keeps the promise of its lazy enrolls in all its states exactly when each timer
fires in `NULL` and none enrolls between a delist and the next enroll call. -/
theorem lazy_enroll_iff (kind : NodeKind) (uid : Bytes) (ls : List (NodeAction × ChamgeReturn)) :
    lazyEnrolls.Always LazyLawful (.init kind uid) ls ↔
      lazyEnrolls.Along FiresInTime (.init kind uid) ls := by
  apply Machine.always_iff_along (I := TimerInv)
  · intro s l u h hstep
    obtain ⟨rfl, hfire⟩ := lazyEnrolls_step hstep
    exact act_timerInv h hfire
  · rintro s ⟨a, r⟩ u h hs hstep
    obtain ⟨rfl, hfire⟩ := lazyEnrolls_step hstep
    cases a with
    | fire t => exact fire_lawful_iff h hs (hfire t rfl) r
    | enroll | delist | activate | deactivate =>
      refine iff_of_true (call_lawful h hs (fun t heq => ?_) r) trivial
      cases heq
  · exact timerInv_init kind uid
  · exact ⟨fun _ => Nat.zero_le 1, nofun, fun _ => rfl⟩

/-- A clock whose digest puts every uid into the first group. -/
def firstGroup : LazyClock := ⟨fun _ => [48], 0⟩

/-- A lazy enroll is overtaken by an eager one and a delist: its timer enrolls the node. -/
theorem delisted_node_enrolls : ¬ lazyEnrolls.Always LazyLawful (.init .edge (cstr "abc-987-123"))
    [(.enroll (some firstGroup), .ok), (.enroll none, .ok), (.delist, .ok), (.fire 0, .ok)] := by
  intro h
  have hlaw := (((h.2 _ rfl).2 _ rfl).2 _ rfl).2 _ rfl
  cases hlaw.null rfl

end Chamge
