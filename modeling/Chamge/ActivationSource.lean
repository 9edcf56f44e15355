import Chamge.BackendClass
import Chamge.Lib.Machine

/-! The flag and the source id of the AMQP backends, over the calls that the node's guards
let through. -/

namespace Chamge
open CString JsonGlib

/-- `attached` are the ids of the sources that run `_process_amqp_message` on the object. -/
structure PumpedBackend where
  activated : Bool
  processId : ℕ
  attached : List ℕ
  deriving DecidableEq

def PumpedBackend.new : PumpedBackend := ⟨false, 0, []⟩

/-- `g_idle_add`, or `chamge_amqp_add_watch`. -/
def PumpedBackend.addSource (b : PumpedBackend) (id : ℕ) : PumpedBackend :=
  { b with processId := id, attached := b.attached ++ [id] }

def PumpedBackend.removeSource (b : PumpedBackend) : PumpedBackend :=
  if b.processId ≠ 0 then
    { b with processId := 0, attached := b.attached.filter (· ≠ b.processId) }
  else b

/-- The first lines of `_process_amqp_message`: the source goes, and its id stays. -/
def PumpedBackend.dispatch (b : PumpedBackend) (id : ℕ) : PumpedBackend :=
  if b.activated then b else { b with attached := b.attached.filter (· ≠ id) }

/-! ### The methods -/

namespace Activation

abbrev Impl := DeviceConfig → PumpedBackend → MethodTrace → ℕ →
  Option (CallEnd ChamgeReturn × PumpedBackend)

def deviceActivate (type : DeviceType) : Impl := fun cfg b t id =>
  (askArbiter type cfg .activate t).map fun (ending, _) =>
    if ending ≠ .returned .ok then (ending, b)
    else
      let b := { b with activated := true }
      if (amqpRpcSubscribe cfg.settings.channel cfg.uid t.subscribe).1 = .fail then
        (.returned .fail, b)
      else (.returned .ok, b.addSource id)

/-- The flag is left as it is. -/
def deviceDeactivate : Impl := fun _ b _ _ => some (.returned .ok, b.removeSource)

def chamgeAmqpEdgeBackendActivate : Impl := deviceActivate .edge
def chamgeAmqpEdgeBackendDeactivate : Impl := deviceDeactivate

def chamgeAmqpHubBackendActivate : Impl := deviceActivate .hub
def chamgeAmqpHubBackendDeactivate : Impl := deviceDeactivate

def chamgeAmqpArbiterBackendActivate : Impl := fun _ b _ id =>
  some (.returned .ok, { b.addSource id with activated := true })

def chamgeAmqpArbiterBackendDeactivate : Impl := fun _ b _ _ =>
  some (.returned .ok, { b with activated := false }.removeSource)

def activate : NodeKind → Impl
  | .edge => chamgeAmqpEdgeBackendActivate
  | .hub => chamgeAmqpHubBackendActivate
  | .arbiter => chamgeAmqpArbiterBackendActivate

def deactivate : NodeKind → Impl
  | .edge => chamgeAmqpEdgeBackendDeactivate
  | .hub => chamgeAmqpHubBackendDeactivate
  | .arbiter => chamgeAmqpArbiterBackendDeactivate

end Activation

/-! ### The calls on the node -/

/-- A node and its backend object. `disturbed` is set once a call has returned
`CHAMGE_RETURN_FAIL` and has changed one of the two fields. -/
structure ActivationState where
  node : ChamgeNode
  backend : PumpedBackend
  disturbed : Bool

/-- A node that has been enrolled, with the object made for it. -/
def ActivationState.init (kind : NodeKind) (uid : Bytes) : ActivationState :=
  ⟨(nodeAction (.init kind uid) (.enroll none) .ok).node, .new, false⟩

inductive ActivationLabel
  | activate (t : MethodTrace) (id : ℕ)
  | deactivate (t : MethodTrace)
  | dispatch (id : ℕ)

def ActivationState.call (s : ActivationState) (a : NodeAction)
    (result : Option (CallEnd ChamgeReturn × PumpedBackend)) : Option ActivationState :=
  if methodReached s.node a = none then
    some { s with node := (nodeAction s.node a .fail).node }
  else match result with
    | some (.returned ret, b) =>
      let changed := b.activated ≠ s.backend.activated ∨ b.processId ≠ s.backend.processId
      some ⟨(nodeAction s.node a ret).node, b, s.disturbed || decide (ret = .fail ∧ changed)⟩
    | some (.ended _, _) | none => none

/-- A source gets an id that is not 0 and not in use. -/
def activations (kind : NodeKind) (cfg : DeviceConfig) :
    Machine ActivationState ActivationLabel where
  step s l :=
    match l with
    | .activate t id =>
      if id = 0 ∨ id ∈ s.backend.attached then none
      else s.call .activate (Activation.activate kind cfg s.backend t id)
    | .deactivate t => s.call .deactivate (Activation.deactivate kind cfg s.backend t 0)
    | .dispatch id =>
      if id ∈ s.backend.attached then some { s with backend := s.backend.dispatch id } else none

/-- The flag is set exactly when the id names an attached source, and failures have left both
as they were. -/
def FieldsInStep (s : ActivationState) : Prop :=
  (s.backend.activated = true ↔
    s.backend.processId ≠ 0 ∧ s.backend.processId ∈ s.backend.attached) ∧ s.disturbed = false

/-- An edge or a hub is not deactivated, and subscribes once its activation is granted. -/
def KeepsInStep (kind : NodeKind) (cfg : DeviceConfig) (s : ActivationState)
    (l : ActivationLabel) : Prop :=
  match l with
  | .activate t _ => kind ≠ .arbiter → s.node.state = .enrolled → t.Obtains cfg .activate →
      Subscribes cfg t.subscribe
  | .deactivate _ => kind ≠ .arbiter → s.node.state ≠ .activated
  | .dispatch _ => True

/-! ### The coarser fields of the backend object -/

variable {kind : NodeKind} {cfg : DeviceConfig} {b b' : PumpedBackend} {t : MethodTrace} {id : ℕ}
  {s u : ActivationState}

def PumpedBackend.sourced (b : PumpedBackend) : Bool :=
  decide (b.processId ≠ 0 ∧ b.processId ∈ b.attached)

def PumpedBackend.coarse (b : PumpedBackend) (socketOpen : Bool) : AmqpBackend :=
  { socketOpen, activated := b.activated, source := b.sourced }

theorem sourced_addSource (hid : id ≠ 0) : (b.addSource id).sourced = true := by
  simp [PumpedBackend.sourced, PumpedBackend.addSource, hid]

theorem sourced_removeSource (b : PumpedBackend) : b.removeSource.sourced = false := by
  unfold PumpedBackend.removeSource
  split_ifs with hid
  · simp [PumpedBackend.sourced]
  · simp [PumpedBackend.sourced, not_not.mp hid]

theorem activated_removeSource (b : PumpedBackend) : b.removeSource.activated = b.activated := by
  unfold PumpedBackend.removeSource
  split_ifs <;> rfl

/-- What `activate` does to the flag and the source is what the class's method does. -/
theorem activate_refines (kind : NodeKind) (cfg : DeviceConfig) (b : PumpedBackend)
    (t : MethodTrace) (hid : id ≠ 0) (socketOpen : Bool) :
    ((amqpBackendClass kind).slots.call .activate cfg (b.coarse socketOpen) t).map
        (fun r => (r.ending, r.backend.activated, r.backend.source)) =
      (Activation.activate kind cfg b t id).map fun r => (r.1, r.2.activated, r.2.sourced) := by
  have hdevice (type : DeviceType) :
      (amqpBackendActivate type cfg (b.coarse socketOpen) t).map
          (fun r => (r.ending, r.backend.activated, r.backend.source)) =
        (Activation.deviceActivate type cfg b t id).map
          fun r => (r.1, r.2.activated, r.2.sourced) := by
    unfold amqpBackendActivate Activation.deviceActivate
    rw [Option.map_map, Option.map_map]
    apply congrArg (Option.map · (askArbiter type cfg .activate t))
    funext ⟨ending, published⟩
    simp only [Function.comp_apply]
    split_ifs
    · rfl
    · rfl
    · rw [sourced_addSource hid]
      rfl
  cases kind with
  | edge => exact hdevice .edge
  | hub => exact hdevice .hub
  | arbiter =>
    have hsourced : ({ b.addSource id with activated := true } : PumpedBackend).sourced = true :=
      sourced_addSource hid
    exact congrArg (fun source => some (CallEnd.returned ChamgeReturn.ok, true, source))
      hsourced.symm

theorem deactivate_refines (kind : NodeKind) (cfg : DeviceConfig) (b : PumpedBackend)
    (t : MethodTrace) (id : ℕ) (socketOpen : Bool) :
    ((amqpBackendClass kind).slots.call .deactivate cfg (b.coarse socketOpen) t).map
        (fun r => (r.ending, r.backend.activated, r.backend.source)) =
      (Activation.deactivate kind cfg b t id).map fun r => (r.1, r.2.activated, r.2.sourced) := by
  cases kind with
  | edge | hub =>
    simp only [Activation.deactivate, Activation.chamgeAmqpEdgeBackendDeactivate,
      Activation.chamgeAmqpHubBackendDeactivate, Activation.deviceDeactivate, Option.map_some,
      sourced_removeSource, activated_removeSource]
    rfl
  | arbiter =>
    simp only [Activation.deactivate, Activation.chamgeAmqpArbiterBackendDeactivate,
      Option.map_some, sourced_removeSource, activated_removeSource]
    rfl

/-! ### The two phases -/

/-- Between the calls of a run that keeps in step: enrolled with both fields unset, or
activated with the one source that the id names. -/
inductive InPhase (s : ActivationState) : Prop
  | off (hs : s.node.state = .enrolled) (hb : s.node.backend ≠ none) (hbackend : s.backend = .new)
    (hdisturbed : s.disturbed = false)
  | on {id : ℕ} (hs : s.node.state = .activated) (hb : s.node.backend ≠ none) (hid : id ≠ 0)
    (hbackend : s.backend = ⟨true, id, [id]⟩) (hdisturbed : s.disturbed = false)

theorem InPhase.fieldsInStep (h : InPhase s) : FieldsInStep s := by
  cases h with
  | off _ _ hbackend hdisturbed =>
    rw [FieldsInStep, hbackend]
    exact ⟨by simp [PumpedBackend.new], hdisturbed⟩
  | on _ _ hid hbackend hdisturbed =>
    rw [FieldsInStep, hbackend]
    exact ⟨by simp [hid], hdisturbed⟩

theorem methodReached_refused {n : ChamgeNode} {a : NodeAction} (ha : a ≠ .delist)
    (hs : n.state ≠ sourceState a) : methodReached n a = none := by
  have hstep := actionStep n a .fail
  rw [methodReached_eq hstep]
  generalize nodeAction n a .fail = o at hstep ⊢
  cases hstep with
  | refused | unbacked | lazily => rfl
  | enroll h | fire h | activate h | deactivate h => exact absurd h hs
  | delist => exact absurd rfl ha

theorem methodReached_backed {n : ChamgeNode} {a : NodeAction}
    (ha : a = .activate ∨ a = .deactivate) (hs : n.state = sourceState a)
    (hb : n.backend ≠ none) : methodReached n a = some a.method := by
  have hstep := actionStep n a .fail
  rw [methodReached_eq hstep]
  generalize nodeAction n a .fail = o at hstep ⊢
  cases hstep with
  | refused _ hne => exact absurd hs hne
  | unbacked _ hnone => exact absurd hnone hb
  | lazily | enroll | fire | delist => rcases ha with ha | ha <;> cases ha
  | activate | deactivate => rfl

/-- A call that the guard lets through to the backend's method. -/
theorem call_reached {a : NodeAction} {m : BackendMethod}
    {result : Option (CallEnd ChamgeReturn × PumpedBackend)}
    (hreached : methodReached s.node a = some m) (h : s.call a result = some u) :
    ∃ ret b, result = some (.returned ret, b) ∧ NodeCall s.node ret (some m) u.node ∧
      u.backend = b ∧ u.disturbed = (s.disturbed || decide (ret = .fail ∧
        (b.activated ≠ s.backend.activated ∨ b.processId ≠ s.backend.processId))) := by
  unfold ActivationState.call at h
  rw [hreached, if_neg (Option.some_ne_none _)] at h
  match result, h with
  | some (.returned ret, b), h =>
    obtain rfl := Option.some.inj h
    have hcall := nodeCall s.node a ret
    rw [hreached] at hcall
    exact ⟨ret, b, rfl, hcall, rfl, rfl⟩

theorem InPhase.refused {a : NodeAction} {result : Option (CallEnd ChamgeReturn × PumpedBackend)}
    (h : InPhase s) (ha : a ≠ .delist) (hs : s.node.state ≠ sourceState a)
    (hstep : s.call a result = some u) : InPhase u := by
  have hreached := methodReached_refused ha hs
  unfold ActivationState.call at hstep
  rw [if_pos hreached] at hstep
  obtain rfl := Option.some.inj hstep
  have hcall := nodeCall s.node a .fail
  rw [hreached] at hcall
  cases hcall with
  | none hstate hbackend =>
    cases h with
    | off hs' hb hfields hdisturbed =>
      exact .off (hstate.trans hs') (hbackend ▸ hb) hfields hdisturbed
    | on hs' hb hid hfields hdisturbed =>
      exact .on (hstate.trans hs') (hbackend ▸ hb) hid hfields hdisturbed

/-! ### The steps -/

/-- The step is within the condition and keeps the phases, or neither. -/
def Decided (kind : NodeKind) (cfg : DeviceConfig) (s : ActivationState) (l : ActivationLabel)
    (u : ActivationState) : Prop :=
  KeepsInStep kind cfg s l ∧ InPhase u ∨ ¬ KeepsInStep kind cfg s l ∧ ¬ FieldsInStep u

theorem activate_device (h : kind ≠ .arbiter) :
    ∃ type, Activation.activate kind = Activation.deviceActivate type := by
  cases kind with
  | edge => exact ⟨.edge, rfl⟩
  | hub => exact ⟨.hub, rfl⟩
  | arbiter => exact absurd rfl h

theorem deactivate_device (h : kind ≠ .arbiter) :
    Activation.deactivate kind = Activation.deviceDeactivate := by
  cases kind with
  | edge | hub => rfl
  | arbiter => exact absurd rfl h

/-- What `activate` of an edge or a hub comes to on an object with both fields unset. -/
theorem deviceActivate_new {type : DeviceType} {ret : ChamgeReturn}
    (h : Activation.deviceActivate type cfg .new t id = some (.returned ret, b)) :
    ¬ t.Obtains cfg .activate ∧ ret ≠ .ok ∧ b = .new ∨
      t.Obtains cfg .activate ∧ ¬ Subscribes cfg t.subscribe ∧ b = ⟨true, 0, []⟩ ∨
      Subscribes cfg t.subscribe ∧ ret = .ok ∧ b = ⟨true, id, [id]⟩ := by
  obtain ⟨⟨ending, published⟩, hask, heq⟩ := Option.map_eq_some_iff.mp h
  have hobtains := askArbiter_obtains_iff hask
  by_cases hok : ending = .returned .ok
  · simp only [hok, ne_eq, not_true, if_false] at heq
    split_ifs at heq with hfail
    · obtain ⟨-, rfl⟩ := Prod.mk.inj heq
      exact Or.inr (Or.inl ⟨hobtains.mp hok, (amqpRpcSubscribe_fail_iff _).mp hfail, rfl⟩)
    · obtain ⟨hret, rfl⟩ := Prod.mk.inj heq
      rw [amqpRpcSubscribe_fail_iff, not_not] at hfail
      exact Or.inr (Or.inr ⟨hfail, (CallEnd.returned.inj hret).symm, rfl⟩)
  · simp only [ne_eq, hok, not_false_eq_true, if_true] at heq
    obtain ⟨rfl, rfl⟩ := Prod.mk.inj heq
    exact Or.inl ⟨fun h => hok (hobtains.mpr h), fun h => hok (congrArg _ h), rfl⟩

theorem activate_decided (h : InPhase s) (hid : id ≠ 0)
    (hstep : s.call .activate (Activation.activate kind cfg s.backend t id) = some u) :
    Decided kind cfg s (.activate t id) u := by
  cases h with
  | on hs hb hid' hbackend hdisturbed =>
    have hne : s.node.state ≠ sourceState .activate := by
      rw [hs]
      decide
    exact Or.inl ⟨fun _ henrolled => absurd henrolled hne,
      (InPhase.on hs hb hid' hbackend hdisturbed).refused (by simp) hne hstep⟩
  | off hs hb hbackend hdisturbed =>
    obtain ⟨ret, b, hresult, hcall, hfields, hchanged⟩ :=
      call_reached (methodReached_backed (Or.inl rfl) hs hb) hstep
    rw [hbackend] at hresult hchanged
    cases hcall with
    | activate _ _ hkept hstate =>
      by_cases hkind : kind = .arbiter
      · subst hkind
        obtain ⟨hret, rfl⟩ := Prod.mk.inj (Option.some.inj hresult)
        obtain rfl := CallEnd.returned.inj hret
        refine Or.inl ⟨fun hdevice => absurd rfl hdevice, ?_⟩
        exact .on hstate (hkept ▸ hb) hid hfields (by simpa [hdisturbed] using hchanged)
      · obtain ⟨type, htype⟩ := activate_device hkind
        rw [htype] at hresult
        rcases deviceActivate_new hresult with ⟨hno, hret, rfl⟩ | ⟨hyes, hsub, rfl⟩ |
          ⟨hsub, rfl, rfl⟩
        · refine Or.inl ⟨fun _ _ hobtains => absurd hobtains hno, ?_⟩
          rw [if_neg hret] at hstate
          exact .off hstate (hkept ▸ hb) hfields (by simpa [hdisturbed] using hchanged)
        · refine Or.inr ⟨fun hkeeps => hsub (hkeeps hkind hs hyes), fun hin => ?_⟩
          rw [FieldsInStep, hfields] at hin
          simp at hin
        · refine Or.inl ⟨fun _ _ _ => hsub, ?_⟩
          exact .on hstate (hkept ▸ hb) hid hfields (by simpa [hdisturbed] using hchanged)

theorem deactivate_decided (h : InPhase s)
    (hstep : s.call .deactivate (Activation.deactivate kind cfg s.backend t 0) = some u) :
    Decided kind cfg s (.deactivate t) u := by
  cases h with
  | off hs hb hbackend hdisturbed =>
    have hne : s.node.state ≠ sourceState .deactivate := by
      rw [hs]
      decide
    exact Or.inl ⟨fun _ => hne,
      (InPhase.off hs hb hbackend hdisturbed).refused (by simp) hne hstep⟩
  | @on id hs hb hid hbackend hdisturbed =>
    obtain ⟨ret, b, hresult, hcall, hfields, hchanged⟩ :=
      call_reached (methodReached_backed (Or.inr rfl) hs hb) hstep
    rw [hbackend] at hresult hchanged
    cases hcall with
    | deactivate _ _ hkept hstate =>
      by_cases hkind : kind = .arbiter
      · subst hkind
        obtain ⟨hret, rfl⟩ := Prod.mk.inj (Option.some.inj hresult)
        obtain rfl := CallEnd.returned.inj hret
        have hnew : u.backend = .new := by
          rw [hfields]
          simp [PumpedBackend.removeSource, hid, PumpedBackend.new]
        refine Or.inl ⟨fun hdevice => absurd rfl hdevice, ?_⟩
        exact .off hstate (hkept ▸ hb) hnew (by simpa [hdisturbed] using hchanged)
      · rw [deactivate_device hkind] at hresult
        obtain ⟨-, rfl⟩ := Prod.mk.inj (Option.some.inj hresult)
        refine Or.inr ⟨fun hkeeps => hkeeps hkind hs, fun hin => ?_⟩
        rw [FieldsInStep, hfields] at hin
        simp [PumpedBackend.removeSource, hid] at hin

theorem step_decided {l : ActivationLabel} (h : InPhase s)
    (hstep : (activations kind cfg).step s l = some u) : Decided kind cfg s l u := by
  cases l with
  | activate t id =>
    simp only [activations, Option.ite_none_left_eq_some, not_or] at hstep
    exact activate_decided h hstep.1.1 hstep.2
  | deactivate t => exact deactivate_decided h hstep
  | dispatch id =>
    simp only [activations, Option.ite_none_right_eq_some, Option.some.injEq] at hstep
    obtain ⟨hmem, rfl⟩ := hstep
    refine Or.inl ⟨trivial, ?_⟩
    cases h with
    | off hs hb hbackend hdisturbed =>
      rw [hbackend] at hmem
      exact absurd hmem List.not_mem_nil
    | on hs hb hid hbackend hdisturbed =>
      have hsame : s.backend.dispatch id = s.backend := by
        rw [hbackend]
        rfl
      exact .on hs hb hid (hsame.trans hbackend) hdisturbed

/-- In all states of a run the fields are in step exactly when all its steps keep them so; the
arbiter's do whatever happens. -/
theorem fields_in_step_iff (kind : NodeKind) (cfg : DeviceConfig) (uid : Bytes)
    (ls : List ActivationLabel) :
    (activations kind cfg).Always FieldsInStep (.init kind uid) ls ↔
      (activations kind cfg).Along (KeepsInStep kind cfg) (.init kind uid) ls := by
  apply Machine.always_iff_along_of (I := InPhase)
  · intro s l u h hkeeps hstep
    rcases step_decided h hstep with ⟨-, hphase⟩ | ⟨hno, -⟩
    · exact hphase
    · exact absurd hkeeps hno
  · exact fun s h => h.fieldsInStep
  · intro s l u h hstep hin
    rcases step_decided h hstep with ⟨hkeeps, -⟩ | ⟨-, hno⟩
    · exact hkeeps
    · exact absurd hin hno
  · cases kind <;> exact .off rfl (Option.some_ne_none _) rfl rfl

/-- The arbiter answers, and the broker does not declare the edge's queue. -/
def unsubscribedTrace : MethodTrace :=
  { workingTrace [expectedAnswer .activate] with
    subscribe := ⟨.error .missing, .ok (), .ok ()⟩ }

theorem unsubscribed_edge_out_of_step :
    ¬ (activations .edge plainConfig).Always FieldsInStep (.init .edge plainConfig.uid)
      [.activate unsubscribedTrace 1] := by
  intro h
  have hstep : ((activations .edge plainConfig).step (.init .edge plainConfig.uid)
      (.activate unsubscribedTrace 1)).map (fun u => (u.backend, u.disturbed)) =
        some (⟨true, 0, []⟩, true) := by
    decide +kernel
  obtain ⟨u, hu, hfields⟩ := Option.map_eq_some_iff.mp hstep
  have hdisturbed := (h.2 u hu).2
  cases hdisturbed.symm.trans (Prod.mk.inj hfields).2

end Chamge
