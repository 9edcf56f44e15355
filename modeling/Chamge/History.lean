import Chamge.Correlation

/-! What a step adds to the records of the running system, and where in a run a record
comes from. -/

namespace Chamge
open CString JsonGlib

variable {ι : Type} [DecidableEq ι] {cfg : Config ι} {s t u : System ι} {d : ι} {l : Label ι}

/-! ### What a step leaves alone -/

theorem finishCall_node {w : NodeAction × BackendMethod} {r : ChamgeReturn} :
    ((s.finishCall cfg d w r).device d).node = (nodeAction (s.device d).node w.1 r).node := by
  rw [finishCall_device_self]
  split_ifs <;> rfl

theorem endWait_frame {w : DeviceWait} {r : Request ι} {response : Option Bytes}
    {fin : Finish} (h : s.endWait cfg d w r response fin = some t) :
    t = { s with broker := t.broker, device := t.device, lost := t.lost } := by
  rcases endWait_cases h with ⟨-, rfl⟩ | ⟨ret, -, -, rfl⟩ | ⟨-, ⟨-, rfl⟩ | ⟨-, ret, -, rfl⟩ |
    ⟨-, s₁, ret, hsub, rfl⟩⟩
  · rfl
  · exact finishCall_frame
  · exact finishCall_frame
  · rw [finishCall_frame, closeLink_frame]
  · rw [subscribe_frame hsub]
    rfl

theorem waitPass_frame {w : DeviceWait} {r : Request ι} {o : ConsumeOutcome} {fin : Finish}
    (h : s.waitPass cfg d w r o fin = some t) :
    t = { s with broker := t.broker, device := t.device, lost := t.lost } := by
  rcases waitPass_cases h with ⟨-, rfl⟩ | ⟨_, -, hend⟩ | ⟨_, -, -, hend⟩
  · rfl
  · exact endWait_frame hend
  · exact endWait_frame hend

theorem endWait_wait {w : DeviceWait} {r : Request ι} {response : Option Bytes}
    {fin : Finish} (h : s.endWait cfg d w r response fin = some t) :
    (t.device d).wait = none := by
  rcases endWait_cases h with ⟨-, rfl⟩ | ⟨ret, -, -, rfl⟩ | ⟨-, ⟨-, rfl⟩ | ⟨-, ret, -, rfl⟩ |
    ⟨-, s₁, ret, hsub, rfl⟩⟩
  · rw [setDevice_device_self]
  · rw [finishCall_device_self]
    rfl
  · rw [finishCall_device_self]
    rfl
  · rw [finishCall_device_self]
    rfl
  · rw [setDevice_device_self]
    rfl

theorem waitPass_wait {w : DeviceWait} {r : Request ι} {o : ConsumeOutcome} {fin : Finish}
    (h : s.waitPass cfg d w r o fin = some t) :
    (t.device d).wait = none ∨ waitLoop (some 10) r.correlationId w.retry [o] = none ∧
      (t.device d).wait = some { w with retry := w.retry + 1 } := by
  rcases waitPass_cases h with ⟨hloop, rfl⟩ | ⟨_, -, hend⟩ | ⟨_, -, -, hend⟩
  · rw [setDevice_device_self]
    exact Or.inr ⟨hloop, rfl⟩
  · exact Or.inl (endWait_wait hend)
  · exact Or.inl (endWait_wait hend)

theorem pumpDevice_frame {answer : Option Bytes} (h : s.pumpDevice cfg d answer = some t) :
    t.device = s.device ∧ t.requests = s.requests := by
  obtain ⟨-, -, q, m, broker, -, ⟨-, rfl⟩ | ⟨address, lost, -, -, rfl⟩⟩ := pumpDevice_cases h
  · exact ⟨rfl, rfl⟩
  · rw [dispatch_frame]
    exact ⟨rfl, rfl⟩

/-- The device whose thread takes the step. -/
def Label.device : Label ι → Option ι
  | .call d _ _ | .waitDevice d _ _ | .pumpDevice d _ => some d
  | .userCommand _ _ | .waitArbiter _ _ | .pumpArbiter | .deliver _ _ | .lose _
  | .post _ _ _ => none

theorem endWait_device_ne {e : ι} {w : DeviceWait} {r : Request ι} {response : Option Bytes}
    {fin : Finish} (he : e ≠ d) (h : s.endWait cfg d w r response fin = some t) :
    t.device e = s.device e := by
  rcases endWait_cases h with ⟨-, rfl⟩ | ⟨ret, -, -, rfl⟩ | ⟨-, ⟨-, rfl⟩ | ⟨-, ret, -, rfl⟩ |
    ⟨-, s₁, ret, hsub, rfl⟩⟩
  · rw [setDevice_device_ne _ _ he]
    exact Function.update_of_ne he ..
  · exact finishCall_device_ne he
  · exact finishCall_device_ne he
  · rw [finishCall_device_ne he, closeLink_frame]
  · rw [setDevice_device_ne _ _ he, subscribe_frame hsub]

theorem waitPass_device_ne {e : ι} {w : DeviceWait} {r : Request ι} {o : ConsumeOutcome}
    {fin : Finish} (he : e ≠ d) (h : s.waitPass cfg d w r o fin = some t) :
    t.device e = s.device e := by
  rcases waitPass_cases h with ⟨-, rfl⟩ | ⟨_, -, hend⟩ | ⟨_, -, -, hend⟩
  · exact setDevice_device_ne _ _ he
  · exact endWait_device_ne he hend
  · exact endWait_device_ne he hend

theorem call_device_ne {e : ι} {a : NodeAction} {start : Start} (he : e ≠ d)
    (h : s.call cfg d a start = some t) : t.device e = s.device e := by
  obtain ⟨-, ⟨-, rfl⟩ | ⟨-, rfl⟩ | ⟨method, s₁, c, s₂, w, -, -, hopen, hstart, hw⟩⟩ :=
    call_cases h
  · exact setDevice_device_ne _ _ he
  · exact setDevice_device_ne _ _ he
  have hmid : s₂.device e = s.device e := by
    rw [startRequest_frame hstart]
    rcases openFor_cases hopen with ⟨-, -, rfl⟩ | ⟨-, -, -, rfl⟩ | ⟨-, -, rfl⟩
    · rfl
    · exact Function.update_of_ne he ..
    · rfl
  rcases hw with ⟨-, rfl⟩ | ⟨k, -, rfl⟩
  · rw [finishCall_device_ne he, hmid]
  · rw [setDevice_device_ne _ _ he, hmid]

/-- A device changes by its own steps only. -/
theorem step_device_ne {e : ι} {l : Label ι} (he : l.device ≠ some e)
    (h : (system cfg).step s l = some t) : t.device e = s.device e := by
  cases l with
  | call d a start => exact call_device_ne (fun hc => he (hc ▸ rfl)) h
  | waitDevice d failed fin =>
    have hne : e ≠ d := fun hc => he (hc ▸ rfl)
    obtain ⟨w, r, -, -, ⟨reply, -, -, hpass⟩ | ⟨q, m, broker, -, -, hpass⟩⟩ :=
      waitDevice_cases h
    · exact waitPass_device_ne hne hpass
    · rw [waitPass_device_ne hne hpass, logAccepted_frame]
      rfl
  | pumpDevice d answer =>
    obtain ⟨-, -, q, m, broker, -, ⟨-, rfl⟩ | ⟨address, lost, -, -, rfl⟩⟩ :=
      pumpDevice_cases h
    · rfl
    · rw [dispatch_frame]
  | userCommand cmd start =>
    obtain ⟨-, ⟨-, rfl⟩ | ⟨target, s₂, w, -, hstart, rfl⟩⟩ := userCommand_cases h
    · rfl
    · change s₂.device e = s.device e
      rw [startRequest_frame hstart]
  | waitArbiter failed fin =>
    obtain ⟨k, r, -, -, s₁, hs₁, ht⟩ := waitArbiter_cases h
    have hdev : s₁.device e = s.device e := by
      rcases hs₁ with rfl | ⟨q, m, broker, -, rfl⟩
      · rfl
      · rw [logAccepted_frame]
    rcases ht with rfl | rfl
    · exact hdev
    · rw [closeLink_frame]
      exact hdev
  | pumpArbiter =>
    obtain ⟨-, q, m, broker, -, ⟨-, rfl⟩ | ⟨address, -, rfl⟩⟩ := pumpArbiter_cases h
    · rfl
    · rw [dispatch_frame]
  | deliver i c =>
    obtain ⟨q, m, broker, -, rfl⟩ := deliver_cases h
    rfl
  | lose i =>
    obtain ⟨broker, -, rfl⟩ := Option.map_eq_some_iff.mp h
    rfl
  | post q properties body =>
    obtain rfl := Option.some.inj h
    rfl

/-- One pass of the arbiter's loop, with the outcome it has judged. -/
theorem waitArbiter_pass {failed : Option AmqpRpcReply} {fin : Finish}
    (h : s.waitArbiter failed fin = some t) : ∃ k r s₁ o, s.arbiterWait = some k ∧
    s.requests[k]? = some r ∧
      ((∃ reply, failed = some reply ∧ reply ≠ .normal ∧ s₁ = s ∧ o = failedOutcome reply) ∨
        ∃ q m broker, failed = none ∧ s.broker.receive r.conn = some (q, m, broker) ∧
          s₁ = ({ s with broker } : System ι).logAccepted k r.correlationId m ∧
          o = ⟨.normal, m.envelope⟩) ∧
      ((waitLoop none r.correlationId 0 [o] = none ∧ t = s₁) ∨
        ∃ x, waitLoop none r.correlationId 0 [o] = some x ∧
          t = { s₁.closeLink r.conn fin with arbiterWait := none }) := by
  obtain ⟨k, hk, h⟩ := Option.bind_eq_some_iff.mp h
  obtain ⟨r, hr, h⟩ := Option.bind_eq_some_iff.mp h
  cases failed with
  | some reply =>
    simp only at h
    split_ifs at h with hn
    refine ⟨k, r, s, failedOutcome reply, hk, hr, Or.inl ⟨reply, rfl, hn, rfl, rfl⟩, ?_⟩
    rw [← Option.some.inj h]
    split
    · exact Or.inl ⟨‹_›, rfl⟩
    · exact Or.inr ⟨_, ‹_›, rfl⟩
  | none =>
    obtain ⟨⟨q, m, broker⟩, hrec, h⟩ := Option.map_eq_some_iff.mp h
    refine ⟨k, r, _, _, hk, hr, Or.inr ⟨q, m, broker, rfl, hrec, rfl, rfl⟩, ?_⟩
    rw [← h]
    simp only
    split
    · exact Or.inl ⟨‹_›, rfl⟩
    · exact Or.inr ⟨_, ‹_›, rfl⟩

/-! ### Requests -/

/-- The step sends the request: a device's call to the enroll queue, or a user command to the
queue that it names. -/
inductive Sends (cfg : Config ι) (s : System ι) : Label ι → Request ι → Prop
  | call {d : ι} {a : NodeAction} {start : Start} {method : BackendMethod} {r : Request ι}
    (hreached : methodReached (s.device d).node a = some method)
    (htarget : r.target = cfg.enrollQueue)
    (hbody : r.body = requestBody (cfg.kind d) method (cfg.uid d))
    (hconn : r.conn = .device d ∨ r.conn = .temp s.requests.length)
    (hcaller : r.caller = .device d) :
    Sends cfg s (.call d a start) r
  | command {cmd : Bytes} {start : Start} {r : Request ι}
    (htarget : commandTarget cfg s cmd = some r.target) (hbody : r.body = cmd)
    (hconn : r.conn = .temp s.requests.length) (hcaller : r.caller = .agent) :
    Sends cfg s (.userCommand cmd start) r

theorem call_requests {a : NodeAction} {start : Start} (h : s.call cfg d a start = some t) :
    t.requests = s.requests ∨
      ∃ r, t.requests = s.requests ++ [r] ∧ Sends cfg s (.call d a start) r := by
  obtain ⟨-, ⟨-, rfl⟩ | ⟨-, rfl⟩ | ⟨method, s₁, c, s₂, w, hm, -, hopen, hstart, hw⟩⟩ :=
    call_cases h
  · exact Or.inl rfl
  · exact Or.inl rfl
  have hreq₁ : s₁.requests = s.requests := by rw [openFor_frame hopen]
  have hlast : t.requests = s₂.requests := by
    rcases hw with ⟨-, rfl⟩ | ⟨k, -, rfl⟩
    · exact finishCall_requests
    · rfl
  rw [hlast, ← hreq₁]
  rcases startRequest_requests hstart with ⟨hsame, -⟩ | ⟨r, hnew, -, hconn, htarget, hbody, hcaller⟩
  · exact Or.inl hsame
  have hopened : r.conn = .device d ∨ r.conn = .temp s.requests.length := by
    rw [hconn]
    rcases openFor_cases hopen with ⟨hc, -⟩ | ⟨hc, -⟩ | ⟨hc, -⟩
    · exact Or.inl hc
    · exact Or.inl hc
    · exact Or.inr hc
  exact Or.inr ⟨r, hnew, .call hm htarget hbody hopened hcaller⟩

theorem userCommand_requests {cmd : Bytes} {start : Start}
    (h : s.userCommand cfg cmd start = some t) : t.requests = s.requests ∨
      ∃ r, t.requests = s.requests ++ [r] ∧ Sends cfg s (.userCommand cmd start) r := by
  obtain ⟨-, ⟨-, rfl⟩ | ⟨target, s₂, w, htarget, hstart, rfl⟩⟩ := userCommand_cases h
  · exact Or.inl rfl
  rcases startRequest_requests hstart with ⟨hsame, -⟩ | ⟨r, hnew, -, hconn, hqueue, hbody, hcaller⟩
  · exact Or.inl hsame
  · have htarget' := htarget.trans (congrArg some hqueue.symm)
    exact Or.inr ⟨r, hnew, .command htarget' hbody hconn hcaller⟩

theorem step_requests (h : (system cfg).step s l = some t) : t.requests = s.requests ∨
    ∃ r, t.requests = s.requests ++ [r] ∧ Sends cfg s l r := by
  cases l with
  | call d a start => exact call_requests h
  | userCommand cmd start => exact userCommand_requests h
  | waitDevice d failed fin =>
    obtain ⟨w, r, -, -, ⟨reply, -, -, hpass⟩ | ⟨q, m, broker, -, -, hpass⟩⟩ :=
      waitDevice_cases h
    · exact Or.inl (by rw [waitPass_frame hpass])
    · left
      rw [waitPass_frame hpass, logAccepted_frame]
      rfl
  | waitArbiter failed fin =>
    obtain ⟨k, r, -, -, s₁, hs₁, ht⟩ := waitArbiter_cases h
    have hreq : s₁.requests = s.requests := by
      rcases hs₁ with rfl | ⟨q, m, broker, -, rfl⟩
      · rfl
      · rw [logAccepted_frame]
    left
    rcases ht with rfl | rfl
    · exact hreq
    · rw [closeLink_frame]
      exact hreq
  | pumpDevice d answer =>
    obtain ⟨-, -, q, m, broker, -, ⟨-, rfl⟩ | ⟨address, lost, -, -, rfl⟩⟩ :=
      pumpDevice_cases h
    · exact Or.inl rfl
    · left
      rw [dispatch_frame]
  | pumpArbiter =>
    obtain ⟨-, q, m, broker, -, ⟨-, rfl⟩ | ⟨address, -, rfl⟩⟩ := pumpArbiter_cases h
    · exact Or.inl rfl
    · left
      rw [dispatch_frame]
  | deliver i c =>
    obtain ⟨q, m, broker, -, rfl⟩ := deliver_cases h
    exact Or.inl rfl
  | lose i =>
    obtain ⟨broker, -, rfl⟩ := Option.map_eq_some_iff.mp h
    exact Or.inl rfl
  | post q properties body =>
    obtain rfl := Option.some.inj h
    exact Or.inl rfl

/-- Whose request the step sends, if it sends one. -/
def Label.caller : Label ι → Option (Caller ι)
  | .call d _ _ => some (.device d)
  | .userCommand _ _ => some .agent
  | .waitDevice _ _ _ | .pumpDevice _ _ | .waitArbiter _ _ | .pumpArbiter | .deliver _ _ | .lose _
  | .post _ _ _ => none

omit [DecidableEq ι] in
theorem sends_caller {r : Request ι} (h : Sends cfg s l r) : l.caller = some r.caller := by
  cases h with
  | call _ _ _ _ hcaller => exact congrArg some hcaller.symm
  | command _ _ _ hcaller => exact congrArg some hcaller.symm

omit [DecidableEq ι] in
theorem caller_ne_device (hl : l.device ≠ some d) : l.caller ≠ some (.device d) := by
  cases l with
  | call e a start =>
    intro hc
    exact hl (congrArg some (Caller.device.inj (Option.some.inj hc)))
  | waitDevice | pumpDevice | userCommand | waitArbiter | pumpArbiter | deliver | lose | post =>
    nofun

def System.requestsOf (s : System ι) (who : Caller ι) : List (Request ι) :=
  s.requests.filter fun r => r.caller = who

theorem requestsOf_eq {who : Caller ι} (hreq : t.requests = s.requests) :
    t.requestsOf who = s.requestsOf who := by rw [System.requestsOf, hreq, System.requestsOf]

theorem requestsOf_append {r : Option (Request ι)} {who : Caller ι}
    (hreq : t.requests = s.requests ++ r.toList) (hr : ∀ r' ∈ r, r'.caller = who) :
    t.requestsOf who = s.requestsOf who ++ r.toList := by
  rw [System.requestsOf, hreq, List.filter_append, System.requestsOf]
  congr 1
  exact List.filter_eq_self.mpr fun r' hr' => decide_eq_true (hr r' (Option.mem_toList.mp hr'))

theorem requestsOf_append_ne {r : Option (Request ι)} {who : Caller ι}
    (hreq : t.requests = s.requests ++ r.toList) (hr : ∀ r' ∈ r, r'.caller ≠ who) :
    t.requestsOf who = s.requestsOf who := by
  have hnone : r.toList.filter (fun r' => r'.caller = who) = [] :=
    List.filter_eq_nil_iff.mpr fun r' hr' hc =>
      hr r' (Option.mem_toList.mp hr') (of_decide_eq_true hc)
  rw [System.requestsOf, hreq, List.filter_append, hnone, List.append_nil, System.requestsOf]

theorem step_requestsOf {who : Caller ι} (hl : l.caller ≠ some who)
    (h : (system cfg).step s l = some t) : t.requestsOf who = s.requestsOf who := by
  rcases step_requests h with hsame | ⟨r, hnew, hsends⟩
  · exact requestsOf_eq hsame
  · refine requestsOf_append_ne (r := some r) hnew fun r' hr' hc => hl ?_
    obtain rfl := Option.some.inj hr'
    exact hc ▸ sends_caller hsends

theorem run_requests {ls : List (Label ι)} (h : (system cfg).run s ls = some t) :
    s.requests <+: t.requests := by
  refine Machine.run_invariant (P := fun _ _ => True) (I := fun u => s.requests <+: u.requests)
    (fun u l v hu _ hstep => ?_) List.prefix_rfl (Machine.along_true s ls) h
  rcases step_requests hstep with hsame | ⟨r, hnew, -⟩
  · rwa [hsame]
  · rw [hnew]
    exact hu.trans (List.prefix_append ..)

/-! ### Messages handed to a handler -/

/-- The step gives the message to the handler of the party whose pump has received it. -/
inductive Hands (s : System ι) : Label ι → Dispatched ι → Prop
  | device {d : ι} {answer : Option Bytes} {e : Dispatched ι}
    (hsource : (s.device d).source = true)
    (hinbox : (.inbox (.device d) e.queue, e.message) ∈ s.broker.messages)
    (hresponder : e.responder = .device d answer) : Hands s (.pumpDevice d answer) e
  | arbiter {e : Dispatched ι}
    (hinbox : (.inbox .arbiter e.queue, e.message) ∈ s.broker.messages)
    (hresponder : e.responder = .arbiter s.agent) : Hands s .pumpArbiter e

theorem step_dispatched (h : (system cfg).step s l = some t) :
    t.dispatched = s.dispatched ∨ ∃ e, t.dispatched = s.dispatched ++ [e] ∧ Hands s l e := by
  cases l with
  | pumpDevice d answer =>
    obtain ⟨-, hsource, q, m, broker, hrec, ⟨-, rfl⟩ | ⟨address, lost, -, -, rfl⟩⟩ :=
      pumpDevice_cases h
    · exact Or.inl rfl
    · right
      refine ⟨⟨q, m, .device d answer⟩, by rw [dispatch_frame], ?_⟩
      exact .device hsource (Broker.mem_receive hrec).1 rfl
  | pumpArbiter =>
    obtain ⟨-, q, m, broker, hrec, ⟨-, rfl⟩ | ⟨address, -, rfl⟩⟩ := pumpArbiter_cases h
    · exact Or.inl rfl
    · right
      refine ⟨⟨q, m, .arbiter s.agent⟩, by rw [dispatch_frame], ?_⟩
      exact .arbiter (Broker.mem_receive hrec).1 rfl
  | call d a start =>
    obtain ⟨-, ⟨-, rfl⟩ | ⟨-, rfl⟩ | ⟨method, s₁, c, s₂, w, -, -, hopen, hstart, hw⟩⟩ :=
      call_cases h
    · exact Or.inl rfl
    · exact Or.inl rfl
    have hmid : s₂.dispatched = s.dispatched := by
      rw [startRequest_frame hstart, openFor_frame hopen]
    rcases hw with ⟨-, rfl⟩ | ⟨k, -, rfl⟩
    · exact Or.inl (by rw [finishCall_frame, hmid])
    · exact Or.inl hmid
  | userCommand cmd start =>
    obtain ⟨-, ⟨-, rfl⟩ | ⟨target, s₂, w, -, hstart, rfl⟩⟩ := userCommand_cases h
    · exact Or.inl rfl
    · exact Or.inl (by rw [startRequest_frame hstart])
  | waitDevice d failed fin =>
    obtain ⟨w, r, -, -, ⟨reply, -, -, hpass⟩ | ⟨q, m, broker, -, -, hpass⟩⟩ :=
      waitDevice_cases h
    · exact Or.inl (by rw [waitPass_frame hpass])
    · left
      rw [waitPass_frame hpass, logAccepted_frame]
      rfl
  | waitArbiter failed fin =>
    obtain ⟨k, r, -, -, s₁, hs₁, ht⟩ := waitArbiter_cases h
    have hsame : s₁.dispatched = s.dispatched := by
      rcases hs₁ with rfl | ⟨q, m, broker, -, rfl⟩
      · rfl
      · rw [logAccepted_frame]
    left
    rcases ht with rfl | rfl
    · exact hsame
    · rw [closeLink_frame]
      exact hsame
  | deliver i c =>
    obtain ⟨q, m, broker, -, rfl⟩ := deliver_cases h
    exact Or.inl rfl
  | lose i =>
    obtain ⟨broker, -, rfl⟩ := Option.map_eq_some_iff.mp h
    exact Or.inl rfl
  | post q properties body =>
    obtain rfl := Option.some.inj h
    exact Or.inl rfl

/-! ### The agent and the deliveries -/

/-- Apart from the arbiter's pump and the deliveries, no step changes the agent's lists or the
record of the deliveries. -/
theorem step_records (harbiter : l ≠ .pumpArbiter) (hdeliver : ∀ i c, l ≠ .deliver i c)
    (h : (system cfg).step s l = some t) : t.agent = s.agent ∧ t.delivered = s.delivered := by
  cases l with
  | pumpArbiter => exact absurd rfl harbiter
  | deliver i c => exact absurd rfl (hdeliver i c)
  | pumpDevice d answer =>
    obtain ⟨-, -, q, m, broker, -, ⟨-, rfl⟩ | ⟨address, lost, -, -, rfl⟩⟩ :=
      pumpDevice_cases h
    · exact ⟨rfl, rfl⟩
    · rw [dispatch_frame]
      exact ⟨rfl, rfl⟩
  | call d a start =>
    obtain ⟨-, ⟨-, rfl⟩ | ⟨-, rfl⟩ | ⟨method, s₁, c, s₂, w, -, -, hopen, hstart, hw⟩⟩ :=
      call_cases h
    · exact ⟨rfl, rfl⟩
    · exact ⟨rfl, rfl⟩
    have hmid : s₂.agent = s.agent ∧ s₂.delivered = s.delivered := by
      rw [startRequest_frame hstart, openFor_frame hopen]
      exact ⟨rfl, rfl⟩
    rcases hw with ⟨-, rfl⟩ | ⟨k, -, rfl⟩
    · rw [finishCall_frame]
      exact hmid
    · exact hmid
  | userCommand cmd start =>
    obtain ⟨-, ⟨-, rfl⟩ | ⟨target, s₂, w, -, hstart, rfl⟩⟩ := userCommand_cases h
    · exact ⟨rfl, rfl⟩
    · rw [startRequest_frame hstart]
      exact ⟨rfl, rfl⟩
  | waitDevice d failed fin =>
    obtain ⟨w, r, -, -, ⟨reply, -, -, hpass⟩ | ⟨q, m, broker, -, -, hpass⟩⟩ :=
      waitDevice_cases h
    · rw [waitPass_frame hpass]
      exact ⟨rfl, rfl⟩
    · rw [waitPass_frame hpass, logAccepted_frame]
      exact ⟨rfl, rfl⟩
  | waitArbiter failed fin =>
    obtain ⟨k, r, -, -, s₁, hs₁, ht⟩ := waitArbiter_cases h
    have hsame : s₁.agent = s.agent ∧ s₁.delivered = s.delivered := by
      rcases hs₁ with rfl | ⟨q, m, broker, -, rfl⟩
      · exact ⟨rfl, rfl⟩
      · rw [logAccepted_frame]
        exact ⟨rfl, rfl⟩
    rcases ht with rfl | rfl
    · exact hsame
    · rw [closeLink_frame]
      exact hsame
  | lose i =>
    obtain ⟨broker, -, rfl⟩ := Option.map_eq_some_iff.mp h
    exact ⟨rfl, rfl⟩
  | post q properties body =>
    obtain rfl := Option.some.inj h
    exact ⟨rfl, rfl⟩

/-! ### Messages delivered -/

/-- Nothing has been delivered that was not before. -/
def NoArrival (s t : System ι) : Prop := ∀ (c : ConnId ι) (q : Bytes) (m : Message),
  (.inbox c q, m) ∈ t.broker.messages → (.inbox c q, m) ∈ s.broker.messages

omit [DecidableEq ι] in
theorem NoArrival.of_sublist (h : t.broker.messages.Sublist s.broker.messages) : NoArrival s t :=
  fun _ _ _ hm => h.subset hm

omit [DecidableEq ι] in
theorem NoArrival.refl (s : System ι) : NoArrival s s := fun _ _ _ => id

omit [DecidableEq ι] in
theorem NoArrival.trans (hst : NoArrival s t) (htu : NoArrival t u) : NoArrival s u :=
  fun c q m => hst c q m ∘ htu c q m

theorem publish_noArrival {broker : Broker (ConnId ι) Bytes Message} {c : ConnId ι} {q : Bytes}
    {m : Message} (hmsg : broker.messages.Sublist s.broker.messages)
    (ht : t.broker = broker.publish c q m) : NoArrival s t := by
  intro c' q' m' hm
  rw [ht] at hm
  rcases Broker.mem_publish hm with hm | hm
  · exact hmsg.subset hm
  · cases hm

theorem startRequest_noArrival {who : Caller ι} {c : ConnId ι} {target body : Bytes} {start : Start}
    {w : Option ℕ} (h : s.startRequest who c target body start = some (t, w)) : NoArrival s t := by
  have hsend : ∀ cid rq, NoArrival s (s.send who c target body cid rq) := fun cid rq =>
    publish_noArrival Broker.within_declare.messages rfl
  rcases startRequest_cases h with
    ⟨-, rfl | ⟨-, rfl⟩, -⟩ | ⟨cid, rq, -, ⟨-, -, rfl⟩ | ⟨-, -, rfl⟩⟩
  · exact .refl _
  · exact .of_sublist Broker.within_cancel.messages
  · exact hsend cid rq
  · exact (hsend cid rq).trans (.of_sublist (List.Sublist.refl _))

theorem finishCall_noArrival {w : NodeAction × BackendMethod} {r : ChamgeReturn} :
    NoArrival s (s.finishCall cfg d w r) := by
  apply NoArrival.of_sublist
  rw [finishCall_broker]
  split_ifs
  · exact Broker.within_close.messages
  · exact List.Sublist.refl _

theorem closeLink_noArrival {c : ConnId ι} {fin : Finish} : NoArrival s (s.closeLink c fin) := by
  cases fin with
  | ok => exact .of_sublist Broker.within_close.messages
  | failed => exact .refl _
  | partly => exact .of_sublist Broker.within_cancel.messages

theorem endWait_noArrival {w : DeviceWait} {r : Request ι} {response : Option Bytes}
    {fin : Finish} (h : s.endWait cfg d w r response fin = some t) : NoArrival s t := by
  rcases endWait_cases h with ⟨-, rfl⟩ | ⟨ret, -, -, rfl⟩ | ⟨-, ⟨-, rfl⟩ | ⟨-, ret, -, rfl⟩ |
    ⟨-, s₁, ret, hsub, rfl⟩⟩
  · exact .of_sublist (Broker.within_closeAll.trans Broker.within_close).messages
  · exact finishCall_noArrival
  · exact finishCall_noArrival
  · exact closeLink_noArrival.trans finishCall_noArrival
  · rcases subscribe_cases hsub with ⟨-, rfl | ⟨-, rfl⟩ | ⟨-, rfl⟩⟩ | ⟨-, -, -, rfl⟩
    · exact .of_sublist (List.Sublist.refl _)
    · exact .of_sublist Broker.within_cancel.messages
    · exact .of_sublist Broker.within_declare.messages
    · exact .of_sublist (Broker.within_declare (b := s.broker)).messages

theorem waitPass_noArrival {w : DeviceWait} {r : Request ι} {o : ConsumeOutcome} {fin : Finish}
    (h : s.waitPass cfg d w r o fin = some t) : NoArrival s t := by
  rcases waitPass_cases h with ⟨-, rfl⟩ | ⟨e, -, hend⟩ | ⟨x, -, -, hend⟩
  · exact .of_sublist (List.Sublist.refl _)
  · exact endWait_noArrival hend
  · exact endWait_noArrival hend

theorem dispatch_noArrival {c : ConnId ι} {address : ReplyAddress} {e : Dispatched ι} :
    NoArrival s (s.dispatch cfg c address e) := by
  unfold System.dispatch System.answer
  split
  · exact publish_noArrival (List.Sublist.refl _) rfl
  · exact .of_sublist Broker.within_cancel.messages

theorem receive_noArrival {c : ConnId ι} {q : Bytes} {m : Message}
    {broker : Broker (ConnId ι) Bytes Message} (h : s.broker.receive c = some (q, m, broker))
    (ht : t.broker = broker) : NoArrival s t :=
  .of_sublist (ht ▸ (Broker.within_receive h).messages)

theorem call_noArrival {a : NodeAction} {start : Start} (h : s.call cfg d a start = some t) :
    NoArrival s t := by
  obtain ⟨-, ⟨-, rfl⟩ | ⟨-, rfl⟩ | ⟨method, s₁, c, s₂, w, -, -, hopen, hstart, hw⟩⟩ :=
    call_cases h
  · exact .of_sublist (List.Sublist.refl _)
  · exact .of_sublist (List.Sublist.refl _)
  have hfirst : NoArrival s s₁ := by
    rcases openFor_cases hopen with ⟨-, -, rfl⟩ | ⟨-, -, -, rfl⟩ | ⟨-, -, rfl⟩
    · exact .refl _
    · exact .of_sublist Broker.within_connect.messages
    · exact .of_sublist Broker.within_connect.messages
  have hmid := hfirst.trans (startRequest_noArrival hstart)
  rcases hw with ⟨-, rfl⟩ | ⟨k, -, rfl⟩
  · exact hmid.trans finishCall_noArrival
  · exact hmid.trans (.of_sublist (List.Sublist.refl _))

/-- A message comes into an inbox by a delivery only. -/
theorem step_noArrival (hl : ∀ i c, l ≠ .deliver i c) (h : (system cfg).step s l = some t) :
    NoArrival s t := by
  cases l with
  | call d a start => exact call_noArrival h
  | userCommand cmd start =>
    obtain ⟨-, ⟨-, rfl⟩ | ⟨target, s₂, w, -, hstart, rfl⟩⟩ := userCommand_cases h
    · exact .refl _
    · have hconnect : NoArrival s
          { s with broker := s.broker.connect (.temp s.requests.length) } :=
        .of_sublist Broker.within_connect.messages
      have hsent := hconnect.trans (startRequest_noArrival hstart)
      exact hsent.trans (.of_sublist (List.Sublist.refl _))
  | waitDevice d failed fin =>
    obtain ⟨w, r, -, -, ⟨reply, -, -, hpass⟩ | ⟨q, m, broker, -, hrec, hpass⟩⟩ :=
      waitDevice_cases h
    · exact waitPass_noArrival hpass
    · refine NoArrival.trans (receive_noArrival hrec ?_) (waitPass_noArrival hpass)
      rw [logAccepted_frame]
      rfl
  | waitArbiter failed fin =>
    obtain ⟨k, r, -, -, s₁, hs₁, ht⟩ := waitArbiter_cases h
    have hfirst : NoArrival s s₁ := by
      rcases hs₁ with rfl | ⟨q, m, broker, hrec, rfl⟩
      · exact .refl _
      · exact receive_noArrival hrec (by rw [logAccepted_frame])
    rcases ht with rfl | rfl
    · exact hfirst
    · have hclosed : NoArrival s₁ (s₁.closeLink r.conn fin) := closeLink_noArrival
      exact (hfirst.trans hclosed).trans (.of_sublist (List.Sublist.refl _))
  | pumpDevice d answer =>
    obtain ⟨-, -, q, m, broker, hrec, ⟨-, rfl⟩ | ⟨address, lost, -, -, rfl⟩⟩ :=
      pumpDevice_cases h
    · exact receive_noArrival hrec rfl
    · exact (receive_noArrival hrec rfl).trans dispatch_noArrival
  | pumpArbiter =>
    obtain ⟨-, q, m, broker, hrec, ⟨-, rfl⟩ | ⟨address, -, rfl⟩⟩ := pumpArbiter_cases h
    · exact receive_noArrival hrec rfl
    · exact (receive_noArrival hrec rfl).trans dispatch_noArrival
  | deliver i c => exact absurd rfl (hl i c)
  | lose i =>
    obtain ⟨broker, hb, rfl⟩ := Option.map_eq_some_iff.mp h
    exact .of_sublist (Broker.within_lose hb).messages
  | post q properties body =>
    obtain rfl := Option.some.inj h
    intro c' q' m' hm
    rcases Broker.mem_post hm with hm | hm
    · exact hm
    · cases hm

theorem dispatch_delivered {c : ConnId ι} {address : ReplyAddress} {e : Dispatched ι} :
    (s.dispatch cfg c address e).delivered = s.delivered := by
  rw [dispatch_frame]

theorem step_delivered (h : (system cfg).step s l = some t) : s.delivered <+: t.delivered := by
  by_cases hdeliver : ∃ i c, l = .deliver i c
  · obtain ⟨i, c, rfl⟩ := hdeliver
    obtain ⟨q, m, broker, -, rfl⟩ := deliver_cases h
    exact List.prefix_append ..
  by_cases hl : l = .pumpArbiter
  · subst hl
    obtain ⟨-, q, m, broker, -, ⟨-, rfl⟩ | ⟨address, -, rfl⟩⟩ := pumpArbiter_cases h
    · exact List.prefix_rfl
    · simp only [dispatch_delivered, List.prefix_rfl]
  · have hsame := (step_records hl (fun i c hc => hdeliver ⟨i, c, hc⟩) h).2
    exact hsame.symm ▸ List.prefix_rfl

/-- The records of what has been sent and delivered get longer only. -/
structure Grows (s t : System ι) : Prop where
  requests : s.requests <+: t.requests
  delivered : s.delivered <+: t.delivered

omit [DecidableEq ι] in
theorem Grows.refl (s : System ι) : Grows s s := ⟨List.prefix_rfl, List.prefix_rfl⟩

omit [DecidableEq ι] in
theorem Grows.trans (h : Grows s t) (h' : Grows t u) : Grows s u :=
  ⟨h.requests.trans h'.requests, h.delivered.trans h'.delivered⟩

theorem step_grows (h : (system cfg).step s l = some t) : Grows s t := by
  refine ⟨?_, step_delivered h⟩
  rcases step_requests h with hsame | ⟨r, hnew, -⟩
  · exact hsame ▸ List.prefix_rfl
  · exact hnew ▸ List.prefix_append ..

/-- What is in an inbox has been delivered there. -/
def Arrived (s : System ι) : Prop := ∀ (c : ConnId ι) (q : Bytes) (m : Message),
  (.inbox c q, m) ∈ s.broker.messages → (c, q, m) ∈ s.delivered

theorem arrived_init : Arrived (.init cfg) := fun _ _ _ hm => absurd hm List.not_mem_nil

theorem arrived_step (h : Arrived s) (hstep : (system cfg).step s l = some t) : Arrived t := by
  intro c q m hm
  by_cases hdeliver : ∃ i c, l = .deliver i c
  · obtain ⟨i, c', rfl⟩ := hdeliver
    obtain ⟨q', m', broker, hb, rfl⟩ := deliver_cases hstep
    rcases Broker.mem_deliver hb hm with hm | ⟨hp, -, -⟩
    · exact List.mem_append_left _ (h c q m hm)
    · obtain ⟨hplace, rfl⟩ := Prod.mk.inj hp
      obtain ⟨rfl, rfl⟩ := Place.inbox.inj hplace
      exact List.mem_append_right _ (List.mem_singleton_self _)
  · have hno : NoArrival s t := step_noArrival (fun i c hic => hdeliver ⟨i, c, hic⟩) hstep
    exact (step_delivered hstep).subset (h c q m (hno c q m hm))

/-- Whoever has a message in its inbox is one that consumes the queue it came from. -/
def Received (cfg : Config ι) (s : System ι) : Prop := ∀ (c : ConnId ι) (q : Bytes) (m : Message),
  (.inbox c q, m) ∈ s.broker.messages → Consumer cfg s.requests q c

theorem received_step (hwired : Wired cfg s) (h : Received cfg s)
    (hstep : (system cfg).step s l = some t) : Received cfg t := by
  have hpre : s.requests <+: t.requests :=
    run_requests (Machine.run_cons_eq_some.mpr ⟨t, hstep, rfl⟩ : (system cfg).run s [l] = some t)
  intro c q m hm
  by_cases hl : ∃ i c, l = .deliver i c
  · obtain ⟨i, c', rfl⟩ := hl
    obtain ⟨q', m', broker, hb, rfl⟩ := deliver_cases hstep
    rcases Broker.mem_deliver hb hm with hm | ⟨hp, -, hc⟩
    · exact h c q m hm
    · obtain ⟨hplace, rfl⟩ := Prod.mk.inj hp
      obtain ⟨rfl, rfl⟩ := Place.inbox.inj hplace
      exact hwired.consumer q c hc
  · have hno : NoArrival s t := step_noArrival (fun i c hic => hl ⟨i, c, hic⟩) hstep
    exact (h c q m (hno c q m hm)).mono hpre

omit [DecidableEq ι] in
theorem Received.mono (h : Received cfg s) (hno : NoArrival s t)
    (hreq : s.requests <+: t.requests) : Received cfg t :=
  fun c q m hm => (h c q m (hno c q m hm)).mono hreq

/-! ### Runs of the program's own traffic -/

structure Legal (cfg : Config ι) (s : System ι) : Prop where
  shaped : Shaped cfg s
  wired : Wired cfg s
  correlated : Correlated cfg s
  received : Received cfg s

theorem legal_init : Legal cfg (.init cfg) :=
  ⟨shaped_init, wired_init, correlated_init, nofun⟩

theorem legal_step (h : Legal cfg s) (hown : OwnTraffic s l)
    (hstep : (system cfg).step s l = some t) : Legal cfg t :=
  ⟨shaped_step h.shaped hstep, wired_step h.wired hstep,
    correlated_step h.shaped h.wired h.correlated hown hstep,
    received_step h.wired h.received hstep⟩

theorem run_legal {ls : List (Label ι)}
    (hown : (system cfg).Along OwnTraffic (.init cfg) ls)
    (hrun : (system cfg).run (.init cfg) ls = some s) : Legal cfg s :=
  Machine.run_invariant (fun _ _ _ => legal_step) legal_init hown hrun

omit [DecidableEq ι] in
/-- What is handed to a handler with the origin of a request carries that request. -/
theorem hands_request (h : Legal cfg s) {e : Dispatched ι} {k : ℕ}
    (horigin : e.message.origin = .request k) (hands : Hands s l e) :
    ∃ r, s.requests[k]? = some r ∧ e.message.body = r.body ∧ e.queue = r.target := by
  have hinbox : ∃ c, (.inbox c e.queue, e.message) ∈ s.broker.messages := by
    cases hands with
    | device _ hinbox => exact ⟨_, hinbox⟩
    | arbiter hinbox => exact ⟨_, hinbox⟩
  obtain ⟨c, hinbox⟩ := hinbox
  have htraced := h.correlated.message _ hinbox
  cases htraced with
  | request horigin' hr hprops hbody hplace =>
    obtain rfl := Origin.request.inj (horigin.symm.trans horigin')
    refine ⟨_, hr, hbody, ?_⟩
    rcases hplace with hplace | ⟨c', hplace, -⟩
    · cases hplace
    · exact (Place.inbox.inj hplace).2
  | reply horigin' =>
    have hclash := horigin.symm.trans horigin'
    cases hclash

end Chamge
