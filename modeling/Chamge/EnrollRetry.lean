import Chamge.BackendClass
import Chamge.Lib.JsonText
import Chamge.Lib.Machine

/-! Enrolling again after enrolls that failed: what the attempts leave of the connection. -/

namespace Chamge
open CString JsonGlib

def BackedNode.enroll (s : BackedNode) (type : DeviceType) (cfg : DeviceConfig)
    (t : MethodTrace) : Option NodeResult :=
  s.act (amqpBackendClass type.nodeKind) cfg (.enroll none) t

/-- `chamge_node_enroll`, made again as long as it returns `CHAMGE_RETURN_FAIL`. -/
def failedEnrolls (type : DeviceType) (cfg : DeviceConfig) : Machine BackedNode MethodTrace where
  step s t := (s.enroll type cfg t).bind fun r =>
    if r.ending = .returned (some .fail) then some r.after else none

def EnrollsOk (type : DeviceType) (cfg : DeviceConfig) (s : BackedNode) (t : MethodTrace) : Prop :=
  ∃ r, s.enroll type cfg t = some r ∧ r.ending = .returned (some .ok)

/-- The attempt opens the socket, and the library has not closed it again. -/
def MethodTrace.leavesSocketOpen (t : MethodTrace) : Bool :=
  t.link.parseUrl && t.link.socketOpen && !t.socketClosed

variable {type : DeviceType} {cfg : DeviceConfig} {s u : BackedNode} {t : MethodTrace}

theorem methodReached_enroll {n : ChamgeNode} (hs : n.state = .null) :
    methodReached n (.enroll none) = some .enroll := by
  have hstep := actionStep n (.enroll none) .fail
  rw [methodReached_eq hstep]
  generalize nodeAction n (.enroll none) .fail = o at hstep ⊢
  cases hstep with
  | refused _ hn => exact absurd hs hn
  | unbacked ha => rcases ha with ha | ha | ha <;> cases ha
  | enroll => rfl

theorem enroll_eq (hs : s.node.state = .null) :
    s.enroll type cfg t =
      (amqpBackendEnroll type cfg s.called t).map (s.settle (.enroll none)) := by
  unfold BackedNode.enroll BackedNode.act
  rw [methodReached_enroll hs]
  cases type <;> rfl

theorem nodeAction_enroll {n : ChamgeNode} (hs : n.state = .null) (r : ChamgeReturn) :
    (nodeAction n (.enroll none) r).ret = some r ∧
      (nodeAction n (.enroll none) r).node = (ensureBackend n).settle r .enrolled := by
  have hstep := actionStep n (.enroll none) r
  generalize nodeAction n (.enroll none) r = o at hstep ⊢
  cases hstep with
  | refused _ hn => exact absurd hs hn
  | unbacked ha => rcases ha with ha | ha | ha <;> cases ha
  | enroll => exact ⟨rfl, rfl⟩

theorem amqpBackendEnroll_result {b : AmqpBackend} {r : MethodResult}
    (hr : amqpBackendEnroll type cfg b t = some r) :
    r.backend.socketOpen = ((amqpRpcLogin cfg.settings.channel b.socketOpen t.link).socketOpen &&
        (b.socketOpen || !t.socketClosed)) ∧
      (r.ending = .returned .fail ∨
        (amqpRpcLogin cfg.settings.channel b.socketOpen t.link).ret = .ok) := by
  simp only [amqpBackendEnroll] at hr
  split_ifs at hr with hlogin
  · rw [← Option.some.inj hr]
    exact ⟨rfl, Or.inl rfl⟩
  · obtain ⟨a, -, rfl⟩ := Option.map_eq_some_iff.mp hr
    exact ⟨rfl, Or.inr (not_not.mp hlogin)⟩

theorem amqpBackendEnroll_socket {b : AmqpBackend} {r : MethodResult}
    (hchannel : cfg.settings.channel ≠ 0) (hr : amqpBackendEnroll type cfg b t = some r) :
    r.backend.socketOpen = (b.socketOpen || t.leavesSocketOpen) := by
  rw [(amqpBackendEnroll_result hr).1, amqpRpcLogin_socketOpen hchannel,
    ← Bool.or_and_distrib_left]
  rfl

theorem failedEnrolls_step (hs : s.node.state = .null)
    (hstep : (failedEnrolls type cfg).step s t = some u) :
    u.node.state = .null ∧ (cfg.settings.channel ≠ 0 →
      u.called.socketOpen = (s.called.socketOpen || t.leavesSocketOpen)) := by
  simp only [failedEnrolls, enroll_eq hs, Option.bind_eq_some_iff, Option.map_eq_some_iff] at hstep
  obtain ⟨_, ⟨r, hr, rfl⟩, hfail⟩ := hstep
  simp only [Option.ite_none_right_eq_some, Option.some.injEq] at hfail
  obtain ⟨hending, rfl⟩ := hfail
  cases hret : r.ending with
  | ended cause => simp [BackedNode.settle, hret] at hending
  | returned ret =>
    obtain ⟨hanswer, hnode⟩ := nodeAction_enroll hs ret
    simp only [s.settle_returned _ hret, hanswer, CallEnd.returned.injEq, Option.some.injEq]
      at hending
    subst hending
    have hbackend : (nodeAction s.node (.enroll none) .fail).node.backend ≠ none := by
      rw [hnode, settle_backend, ensureBackend_eq]
      exact Option.some_ne_none _
    rw [s.settle_returned _ hret]
    refine ⟨?_, fun hchannel => ?_⟩
    · rw [hnode, settle_state, ensureBackend_eq]
      exact hs
    · simp only [BackedNode.called, if_neg hbackend]
      exact amqpBackendEnroll_socket hchannel hr

theorem failedEnrolls_run {attempts : List MethodTrace} (hs : s.node.state = .null)
    (hrun : (failedEnrolls type cfg).run s attempts = some u) :
    u.node.state = .null ∧ (cfg.settings.channel ≠ 0 → u.called.socketOpen =
      (s.called.socketOpen || attempts.any MethodTrace.leavesSocketOpen)) := by
  induction attempts generalizing s with
  | nil =>
    obtain rfl : s = u := Option.some.inj hrun
    exact ⟨hs, fun _ => (Bool.or_false _).symm⟩
  | cons t ts ih =>
    obtain ⟨v, hv, hrest⟩ := Machine.run_cons_eq_some.mp hrun
    obtain ⟨hstate, hsocket⟩ := failedEnrolls_step hs hv
    obtain ⟨hstate', hsocket'⟩ := ih hstate hrest
    refine ⟨hstate', fun hchannel => ?_⟩
    rw [hsocket' hchannel, hsocket hchannel, List.any_cons, Bool.or_assoc]

theorem enrollsOk_iff (hs : s.node.state = .null) (ht : t.Granted cfg .enroll) :
    EnrollsOk type cfg s t ↔ cfg.settings.channel ≠ 0 ∧ s.called.socketOpen = false := by
  unfold EnrollsOk
  rw [enroll_eq hs]
  constructor
  · rintro ⟨_, hresult, hending⟩
    obtain ⟨r, hr, rfl⟩ := Option.map_eq_some_iff.mp hresult
    rcases (amqpBackendEnroll_result hr).2 with hfail | hlogin
    · rw [s.settle_returned _ hfail, (nodeAction_enroll hs .fail).1] at hending
      cases hending
    · obtain ⟨hchannel, hfree, -⟩ := amqpRpcLogin_ok_iff.mp hlogin
      exact ⟨hchannel, hfree⟩
  · rintro ⟨hchannel, hfree⟩
    obtain ⟨r, hr, hok⟩ := amqpBackendEnroll_granted type hchannel hfree ht
    refine ⟨s.settle _ r, by rw [hr, Option.map_some], ?_⟩
    rw [s.settle_returned _ hok, (nodeAction_enroll hs .ok).1]

/-- After enrolls that failed, one whose calls succeed and whose answer is the expected one
succeeds exactly when no attempt has left the backend's socket open. -/
theorem failed_enroll_retried_iff (type : DeviceType) (cfg : DeviceConfig) {s u : BackedNode}
    {attempts : List MethodTrace} {t : MethodTrace} (hs : s.node.state = .null)
    (hattempts : (failedEnrolls type cfg).run s attempts = some u)
    (ht : t.Granted cfg .enroll) :
    EnrollsOk type cfg u t ↔ cfg.settings.channel ≠ 0 ∧ s.called.socketOpen = false ∧
      ∀ a ∈ attempts, a.leavesSocketOpen = false := by
  obtain ⟨hstate, hsocket⟩ := failedEnrolls_run hs hattempts
  rw [enrollsOk_iff hstate ht]
  refine and_congr_right fun hchannel => ?_
  rw [hsocket hchannel, Bool.or_eq_false_iff, List.any_eq_false]
  simp only [Bool.not_eq_true]

def badAddress : MethodTrace :=
  { workingTrace [] with link := { workingLink with parseUrl := false } }

def missingQueue : MethodTrace :=
  { workingTrace [] with
    rpc := { openPrelude with
      queueCheck := .error (.serverException (.channelClose 404 (cstr "NOT_FOUND"))) } }

theorem bad_address_retried :
    EnrollsOk .edge plainConfig ⟨ensureBackend (.init .edge plainConfig.uid), .new⟩
      (workingTrace [expectedAnswer .enroll]) := by
  have hfailed : (failedEnrolls .edge plainConfig).run (.init .edge plainConfig.uid) [badAddress] =
      some ⟨ensureBackend (.init .edge plainConfig.uid), .new⟩ := rfl
  apply (failed_enroll_retried_iff .edge plainConfig rfl hfailed
    (workingTrace_succeeds _).toGranted).mpr
  exact ⟨by decide, rfl, by decide⟩

/-- An edge that starts before its arbiter finds no enroll queue, and its socket in use when
it tries again. -/
theorem early_device_never_enrolls : ¬ ∀ u,
    (failedEnrolls .edge plainConfig).run (.init .edge plainConfig.uid) [missingQueue] = some u →
      EnrollsOk .edge plainConfig u (workingTrace [expectedAnswer .enroll]) := by
  intro h
  obtain ⟨r, hr, hok⟩ := h ⟨ensureBackend (.init .edge plainConfig.uid),
    { AmqpBackend.new with socketOpen := true }⟩ rfl
  have hfail : (BackedNode.enroll ⟨ensureBackend (.init .edge plainConfig.uid),
      { AmqpBackend.new with socketOpen := true }⟩ .edge plainConfig
      (workingTrace [expectedAnswer .enroll])).map NodeResult.ending =
        some (.returned (some .fail)) := by decide +kernel
  rw [hr, Option.map_some, hok] at hfail
  cases hfail

end Chamge
