import Chamge.RpcContract
import Chamge.System

/-! What a step of the system can do: for each label, the states it leads to. -/

namespace Chamge
open CString JsonGlib

variable {ι : Type} [DecidableEq ι] {cfg : Config ι} {s t : System ι}

/-! ### Requests -/

/-- What `canSend` has checked. -/
structure CanSend (s : System ι) (c : ConnId ι) (target correlationId replyQueue : Bytes) :
    Prop where
  channel : s.broker.channelOpen c = true
  target : s.broker.hasQueue target = true
  checksum : isChecksum correlationId = true
  serverNamed : isServerNamed replyQueue = true
  clean : Clean replyQueue
  newQueue : s.broker.hasQueue replyQueue = false
  unused : ∀ r ∈ s.requests, r.replyQueue ≠ replyQueue

omit [DecidableEq ι] in
theorem canSend_iff {c : ConnId ι} {target cid rq : Bytes} :
    s.canSend c target cid rq = true ↔ CanSend s c target cid rq := by
  simp only [System.canSend, Bool.and_eq_true, decide_eq_true_eq, Bool.not_eq_true',
    List.all_eq_true, and_assoc]
  exact ⟨fun ⟨h1, h2, h3, h4, h5, h6, h7⟩ => ⟨h1, h2, h3, h4, h5, h6, h7⟩,
    fun ⟨h1, h2, h3, h4, h5, h6, h7⟩ => ⟨h1, h2, h3, h4, h5, h6, h7⟩⟩

theorem startRequest_cases {who : Caller ι} {c : ConnId ι} {target body : Bytes} {start : Start}
    {w : Option ℕ} (h : s.startRequest who c target body start = some (t, w)) :
    (w = none ∧ (t = s ∨ (s.broker.hasQueue target = false ∧
      t = { s with broker := s.broker.cancel c })) ∧ ∀ cid rq, start ≠ .sent cid rq) ∨
    ∃ cid rq, CanSend s c target cid rq ∧
      ((w = none ∧ start = .unheard cid rq ∧ t = s.send who c target body cid rq) ∨
        (w = some s.requests.length ∧ start = .sent cid rq ∧
          t = { s.send who c target body cid rq with
            broker := (s.send who c target body cid rq).broker.subscribe rq c })) := by
  cases start with
  | refused =>
    obtain ⟨rfl, rfl⟩ := Prod.mk.inj (Option.some.inj h)
    exact Or.inl ⟨rfl, Or.inl rfl, nofun⟩
  | noTarget =>
    simp only [System.startRequest, Bool.and_eq_true, Bool.not_eq_true'] at h
    split_ifs at h with hno
    obtain ⟨rfl, rfl⟩ := Prod.mk.inj (Option.some.inj h)
    exact Or.inl ⟨rfl, Or.inr ⟨hno.2, rfl⟩, nofun⟩
  | unheard cid rq =>
    simp only [System.startRequest] at h
    split_ifs at h with hsend
    obtain ⟨rfl, rfl⟩ := Prod.mk.inj (Option.some.inj h)
    exact Or.inr ⟨cid, rq, canSend_iff.mp hsend, Or.inl ⟨rfl, rfl, rfl⟩⟩
  | sent cid rq =>
    simp only [System.startRequest] at h
    split_ifs at h with hsend
    obtain ⟨rfl, rfl⟩ := Prod.mk.inj (Option.some.inj h)
    exact Or.inr ⟨cid, rq, canSend_iff.mp hsend, Or.inr ⟨rfl, rfl, rfl⟩⟩

theorem startRequest_frame {who : Caller ι} {c : ConnId ι} {target body : Bytes} {start : Start}
    {w : Option ℕ} (h : s.startRequest who c target body start = some (t, w)) :
    t = { s with broker := t.broker, requests := t.requests } := by
  rcases startRequest_cases h with
    ⟨-, rfl | ⟨-, rfl⟩, -⟩ | ⟨cid, rq, -, ⟨-, -, rfl⟩ | ⟨-, -, rfl⟩⟩
  all_goals rfl

theorem startRequest_requests {who : Caller ι} {c : ConnId ι} {target body : Bytes}
    {start : Start} {w : Option ℕ}
    (h : s.startRequest who c target body start = some (t, w)) :
    (t.requests = s.requests ∧ w = none) ∨ ∃ r, t.requests = s.requests ++ [r] ∧
      (w = none ∨ w = some s.requests.length) ∧ r.conn = c ∧ r.target = target ∧
      r.body = body ∧ r.caller = who := by
  rcases startRequest_cases h with
    ⟨hw, rfl | ⟨-, rfl⟩, -⟩ | ⟨cid, rq, -, ⟨hw, -, rfl⟩ | ⟨hw, -, rfl⟩⟩
  · exact Or.inl ⟨rfl, hw⟩
  · exact Or.inl ⟨rfl, hw⟩
  · exact Or.inr ⟨_, rfl, Or.inl hw, rfl, rfl, rfl, rfl⟩
  · exact Or.inr ⟨_, rfl, Or.inr hw, rfl, rfl, rfl, rfl⟩

theorem startRequest_prefix {who : Caller ι} {c : ConnId ι} {target body : Bytes} {start : Start}
    {w : Option ℕ} (h : s.startRequest who c target body start = some (t, w)) :
    s.requests <+: t.requests := by
  rcases startRequest_requests h with ⟨heq, -⟩ | ⟨r, heq, -⟩
  · exact heq ▸ List.prefix_rfl
  · exact heq ▸ List.prefix_append ..

/-! ### Calls -/

/-- The connection of a request is opened where it is not open yet; of the device only the
record of its socket changes. -/
theorem openFor_cases {d : ι} {method : BackendMethod} {start : Start} {c : ConnId ι}
    (h : s.openFor d method start = some (t, c)) :
    (c = .device d ∧ method ≠ .delist ∧ t = s) ∨
    (c = .device d ∧ method = .enroll ∧ (s.device d).connected = false ∧
      t = { s with
        broker := s.broker.connect (.device d)
        device := Function.update s.device d { s.device d with connected := true } }) ∨
    (c = .temp s.requests.length ∧ method = .delist ∧
      t = { s with broker := s.broker.connect (.temp s.requests.length) }) := by
  unfold System.openFor at h
  split at h
  · obtain ⟨rfl, rfl⟩ := Prod.mk.inj (Option.some.inj h)
    exact Or.inl ⟨rfl, nofun, rfl⟩
  · split_ifs at h with hconn
    obtain ⟨rfl, rfl⟩ := Prod.mk.inj (Option.some.inj h)
    exact Or.inr (Or.inl ⟨rfl, rfl, Bool.eq_false_iff.mpr hconn, rfl⟩)
  · obtain ⟨rfl, rfl⟩ := Prod.mk.inj (Option.some.inj h)
    exact Or.inr (Or.inr ⟨rfl, rfl, rfl⟩)
  · obtain ⟨rfl, rfl⟩ := Prod.mk.inj (Option.some.inj h)
    exact Or.inl ⟨rfl, nofun, rfl⟩
  · obtain ⟨rfl, rfl⟩ := Prod.mk.inj (Option.some.inj h)
    exact Or.inl ⟨rfl, nofun, rfl⟩

theorem openFor_frame {d : ι} {method : BackendMethod} {start : Start} {c : ConnId ι}
    (h : s.openFor d method start = some (t, c)) :
    t = { s with broker := t.broker, device := t.device } := by
  rcases openFor_cases h with ⟨-, -, rfl⟩ | ⟨-, -, -, rfl⟩ | ⟨-, -, rfl⟩
  all_goals rfl

theorem openFor_device {d e : ι} {method : BackendMethod} {start : Start} {c : ConnId ι}
    (h : s.openFor d method start = some (t, c)) :
    ∃ connected, t.device e = { s.device e with connected } := by
  rcases openFor_cases h with ⟨-, -, rfl⟩ | ⟨-, -, -, rfl⟩ | ⟨-, -, rfl⟩
  · exact ⟨_, rfl⟩
  · by_cases he : e = d
    · subst he
      exact ⟨true, Function.update_self ..⟩
    · exact ⟨_, Function.update_of_ne he ..⟩
  · exact ⟨_, rfl⟩

theorem openFor_startRequest_eq_some {who : Caller ι} {d : ι} {method : BackendMethod}
    {start : Start} {queue body : Bytes} {finish : System ι × Option ℕ → System ι}
    (h : ((s.openFor d method start).bind fun p =>
      (p.1.startRequest who p.2 queue body start).map finish) = some t) :
    ∃ s₁ c s₂ w, s.openFor d method start = some (s₁, c) ∧
      s₁.startRequest who c queue body start = some (s₂, w) ∧ t = finish (s₂, w) := by
  obtain ⟨⟨s₁, c⟩, hopen, hrest⟩ := Option.bind_eq_some_iff.mp h
  obtain ⟨⟨s₂, w⟩, hstart, ht⟩ := Option.map_eq_some_iff.mp hrest
  exact ⟨s₁, c, s₂, w, hopen, hstart, ht.symm⟩

/-- A call ends at once, or it sends a request and waits, or it fails on the way there. -/
theorem call_cases {d : ι} {a : NodeAction} {start : Start}
    (h : s.call cfg d a start = some t) : (s.device d).idle = true ∧
    ((methodReached (s.device d).node a = none ∧
        t = s.setDevice d ((s.device d).finish a .fail)) ∨
      (methodReached (s.device d).node a = some .deactivate ∧
        t = s.setDevice d { (s.device d).finish a .ok with source := false }) ∨
      ∃ method s₁ c s₂ w, methodReached (s.device d).node a = some method ∧
        method ≠ .deactivate ∧ s.openFor d method start = some (s₁, c) ∧
        s₁.startRequest (.device d) c cfg.enrollQueue
          (requestBody (cfg.kind d) method (cfg.uid d)) start = some (s₂, w) ∧
        ((w = none ∧ t = s₂.finishCall cfg d (a, method) .fail) ∨
          ∃ k, w = some k ∧
            t = s₂.setDevice d { s₂.device d with wait := some ⟨a, method, k, 0⟩ })) := by
  unfold System.call at h
  simp only [Bool.and_eq_true] at h
  split_ifs at h with hidle
  refine ⟨hidle.1, ?_⟩
  cases hm : methodReached (s.device d).node a with
  | none =>
    simp only [hm] at h
    exact Or.inl ⟨rfl, (Option.some.inj h).symm⟩
  | some method =>
    simp only [hm] at h
    cases method with
    | deactivate => exact Or.inr (Or.inl ⟨rfl, (Option.some.inj h).symm⟩)
    | enroll | delist | activate =>
      obtain ⟨s₁, c, s₂, w, hopen, hstart, ht⟩ := openFor_startRequest_eq_some h
      refine Or.inr (Or.inr ⟨_, s₁, c, s₂, w, rfl, by decide, hopen, hstart, ?_⟩)
      cases w with
      | none => exact Or.inl ⟨rfl, ht⟩
      | some k => exact Or.inr ⟨k, rfl, ht⟩

/-! ### The end of a call -/

section finish
variable {d e : ι} {w : NodeAction × BackendMethod} {r : ChamgeReturn}

omit [DecidableEq ι] in
theorem device_ne_device (h : e ≠ d) : ConnId.device e ≠ ConnId.device d :=
  fun hc => h (ConnId.device.inj hc)

@[simp] theorem setDevice_device_self (s : System ι) (d : ι) (dev : Device) :
    (s.setDevice d dev).device d = dev := Function.update_self ..

theorem setDevice_device_ne (s : System ι) (dev : Device) (h : e ≠ d) :
    (s.setDevice d dev).device e = s.device e := Function.update_of_ne h ..

theorem finishCall_frame : s.finishCall cfg d w r =
    { s with
      broker := (s.finishCall cfg d w r).broker, device := (s.finishCall cfg d w r).device
      lost := (s.finishCall cfg d w r).lost } := by
  unfold System.finishCall
  split_ifs <;> rfl

@[simp] theorem finishCall_arbiterWait :
    (s.finishCall cfg d w r).arbiterWait = s.arbiterWait := by rw [finishCall_frame]

@[simp] theorem finishCall_requests :
    (s.finishCall cfg d w r).requests = s.requests := by rw [finishCall_frame]

theorem finishCall_broker : (s.finishCall cfg d w r).broker =
    if w.2 = .delist then s.broker.close (.device d) else s.broker := by
  unfold System.finishCall
  split_ifs <;> rfl

theorem finishCall_lost : (s.finishCall cfg d w r).lost =
    if w.2 = .delist then s.lost ++ s.unread cfg d else s.lost := by
  unfold System.finishCall
  split_ifs <;> rfl

theorem finishCall_device_self : (s.finishCall cfg d w r).device d =
    (if w.2 = .delist then (s.device d).dropBackend else s.device d).finish w.1 r := by
  unfold System.finishCall
  split_ifs <;> simp [System.dropDevice]

theorem finishCall_device_ne (h : e ≠ d) :
    (s.finishCall cfg d w r).device e = s.device e := by
  unfold System.finishCall
  split_ifs <;> simp [System.dropDevice, setDevice_device_ne _ _ h, h]

end finish

theorem subscribe_cases {d : ι} {fin : Finish} {ret : ChamgeReturn}
    (h : s.subscribe cfg d fin = some (t, ret)) :
    (ret = .fail ∧ (t = s ∨
      (isServerNamed (cfg.uid d) = true ∧
        t = { s with broker := s.broker.cancel (.device d) }) ∨
      (isServerNamed (cfg.uid d) = false ∧
        t = { s with broker := s.broker.declare (cfg.uid d) }))) ∨
    (ret = .ok ∧ s.broker.channelOpen (.device d) = true ∧ isServerNamed (cfg.uid d) = false ∧
      t = { s with
        broker := (s.broker.declare (cfg.uid d)).subscribe (cfg.uid d) (.device d) }) := by
  unfold System.subscribe at h
  split at h
  · obtain ⟨rfl, rfl⟩ := Prod.mk.inj (Option.some.inj h)
    exact Or.inl ⟨rfl, Or.inl rfl⟩
  split_ifs at h with huid hclosed hserver hok
  · obtain ⟨rfl, rfl⟩ := Prod.mk.inj (Option.some.inj h)
    exact Or.inl ⟨rfl, Or.inl rfl⟩
  · obtain ⟨rfl, rfl⟩ := Prod.mk.inj (Option.some.inj h)
    exact Or.inl ⟨rfl, Or.inr (Or.inl ⟨hserver, rfl⟩)⟩
  · obtain ⟨rfl, rfl⟩ := Prod.mk.inj (Option.some.inj h)
    refine Or.inr ⟨rfl, ?_, Bool.eq_false_iff.mpr hserver, rfl⟩
    simpa using hclosed
  · obtain ⟨rfl, rfl⟩ := Prod.mk.inj (Option.some.inj h)
    exact Or.inl ⟨rfl, Or.inr (Or.inr ⟨Bool.eq_false_iff.mpr hserver, rfl⟩)⟩

theorem subscribe_frame {d : ι} {fin : Finish} {ret : ChamgeReturn}
    (h : s.subscribe cfg d fin = some (t, ret)) : t = { s with broker := t.broker } := by
  rcases subscribe_cases h with ⟨-, rfl | ⟨-, rfl⟩ | ⟨-, rfl⟩⟩ | ⟨-, -, -, rfl⟩
  all_goals rfl

theorem closeLink_frame (s : System ι) (c : ConnId ι) (fin : Finish) :
    s.closeLink c fin = { s with broker := (s.closeLink c fin).broker } := by
  cases fin <;> rfl

theorem not_mem_linksOf {c : ConnId ι} {d : ι} (h : ∀ k, c ≠ .temp k) : c ∉ s.linksOf d := by
  intro hc
  obtain ⟨-, htemp⟩ := List.mem_filter.mp hc
  cases c with
  | temp k => exact h k rfl
  | arbiter | device => cases htemp

theorem endWait_cases {d : ι} {w : DeviceWait} {r : Request ι} {response : Option Bytes}
    {fin : Finish} (h : s.endWait cfg d w r response fin = some t) :
    ((cfg.kind d).validate cfg.json response w.method.shouldbe = none ∧
      t = { s.dropDevice cfg d with
        broker := (s.broker.close (.device d)).closeAll (s.linksOf d) }.setDevice d
          { (s.device d).dropBackend with wait := none, crashed := true }) ∨
    (∃ ret, (cfg.kind d).validate cfg.json response w.method.shouldbe = some ret ∧ ret ≠ .ok ∧
      t = s.finishCall cfg d (w.action, w.method) .fail) ∨
    ((cfg.kind d).validate cfg.json response w.method.shouldbe = some .ok ∧
      (((w.method = .enroll ∨ w.method = .deactivate) ∧
        t = s.finishCall cfg d (w.action, w.method) .ok) ∨
      (w.method = .delist ∧ ∃ ret, (ret = .ok ↔ fin = .ok) ∧
        t = (s.closeLink r.conn fin).finishCall cfg d (w.action, w.method) ret) ∨
      (w.method = .activate ∧ ∃ s₁ ret, s.subscribe cfg d fin = some (s₁, ret) ∧
        t = s₁.setDevice d { (s₁.device d).finish w.action ret with source := ret = .ok }))) := by
  unfold System.endWait at h
  split at h
  · rename_i hv
    refine Or.inl ⟨hv, ?_⟩
    rw [← Option.some.inj h]
    simp [System.dropDevice, System.linksOf]
  · rename_i hv
    refine Or.inr (Or.inr ⟨hv, ?_⟩)
    split at h
    · rename_i hm
      exact Or.inl ⟨Or.inl hm, (Option.some.inj h).symm⟩
    · rename_i hm
      exact Or.inl ⟨Or.inr hm, (Option.some.inj h).symm⟩
    · rename_i hm
      obtain ⟨⟨s₁, ret⟩, hsub, ht⟩ := Option.map_eq_some_iff.mp h
      exact Or.inr (Or.inr ⟨hm, s₁, ret, hsub, ht.symm⟩)
    · rename_i hm
      refine Or.inr (Or.inl ⟨hm, _, ?_, (Option.some.inj h).symm⟩)
      split_ifs with hf <;> simp [hf]
  · rename_i ret hne hv
    exact Or.inr (Or.inl ⟨ret, hv, hne, (Option.some.inj h).symm⟩)

/-! ### Consuming -/

theorem waitPass_cases {d : ι} {w : DeviceWait} {r : Request ι} {o : ConsumeOutcome}
    {fin : Finish} (h : s.waitPass cfg d w r o fin = some t) :
    (waitLoop (some 10) r.correlationId w.retry [o] = none ∧
      t = s.setDevice d { s.device d with wait := some { w with retry := w.retry + 1 } }) ∨
    (∃ e, waitLoop (some 10) r.correlationId w.retry [o] = some (.reply e) ∧
      s.endWait cfg d w r (strndup e.body) fin = some t) ∨
    (∃ x, waitLoop (some 10) r.correlationId w.retry [o] = some x ∧ (∀ e, x ≠ .reply e) ∧
      s.endWait cfg d w r none fin = some t) := by
  unfold System.waitPass at h
  split at h
  · rename_i hw
    exact Or.inl ⟨hw, (Option.some.inj h).symm⟩
  · rename_i e hw
    exact Or.inr (Or.inl ⟨e, hw, h⟩)
  · rename_i x hne hw
    exact Or.inr (Or.inr ⟨x, hw, fun e he => hne e he, h⟩)

theorem waitDevice_cases {d : ι} {failed : Option AmqpRpcReply} {fin : Finish}
    (h : s.waitDevice cfg d failed fin = some t) : ∃ w r, (s.device d).wait = some w ∧
    s.requests[w.request]? = some r ∧
    ((∃ reply, failed = some reply ∧ reply ≠ .normal ∧
        s.waitPass cfg d w r (failedOutcome reply) fin = some t) ∨
      ∃ q m broker, failed = none ∧ s.broker.receive r.conn = some (q, m, broker) ∧
        System.waitPass cfg (({ s with broker }.logLost cfg d r.conn q m).logAccepted w.request
          r.correlationId m) d w r ⟨.normal, m.envelope⟩ fin = some t) := by
  obtain ⟨w, hw, h⟩ := Option.bind_eq_some_iff.mp h
  obtain ⟨r, hr, h⟩ := Option.bind_eq_some_iff.mp h
  refine ⟨w, r, hw, hr, ?_⟩
  cases failed with
  | some reply =>
    simp only at h
    split_ifs at h with hn
    exact Or.inl ⟨reply, rfl, hn, h⟩
  | none =>
    obtain ⟨⟨q, m, broker⟩, hrec, h⟩ := Option.bind_eq_some_iff.mp h
    exact Or.inr ⟨q, m, broker, rfl, hrec, h⟩

omit [DecidableEq ι] in
theorem logAccepted_frame (s : System ι) (k : ℕ) (cid : Bytes) (m : Message) :
    s.logAccepted k cid m = { s with accepted := (s.logAccepted k cid m).accepted } := by
  unfold System.logAccepted
  split <;> rfl

theorem waitArbiter_cases {failed : Option AmqpRpcReply} {fin : Finish}
    (h : s.waitArbiter failed fin = some t) : ∃ k r, s.arbiterWait = some k ∧
    s.requests[k]? = some r ∧ ∃ s₁,
      (s₁ = s ∨ ∃ q m broker, s.broker.receive r.conn = some (q, m, broker) ∧
        s₁ = { s with broker }.logAccepted k r.correlationId m) ∧
      (t = s₁ ∨ t = { s₁.closeLink r.conn fin with arbiterWait := none }) := by
  obtain ⟨k, hk, h⟩ := Option.bind_eq_some_iff.mp h
  obtain ⟨r, hr, h⟩ := Option.bind_eq_some_iff.mp h
  refine ⟨k, r, hk, hr, ?_⟩
  cases failed with
  | some reply =>
    simp only at h
    split_ifs at h
    refine ⟨s, Or.inl rfl, ?_⟩
    rw [← Option.some.inj h]
    split
    · exact Or.inl rfl
    · exact Or.inr rfl
  | none =>
    obtain ⟨⟨q, m, broker⟩, hrec, h⟩ := Option.map_eq_some_iff.mp h
    refine ⟨_, Or.inr ⟨q, m, broker, hrec, rfl⟩, ?_⟩
    rw [← h]
    simp only
    split
    · exact Or.inl rfl
    · exact Or.inr rfl

theorem dispatch_frame (s : System ι) (c : ConnId ι) (address : ReplyAddress)
    (e : Dispatched ι) : s.dispatch cfg c address e =
      { s with
        broker := (s.dispatch cfg c address e).broker
        dispatched := s.dispatched ++ [e] } := by
  unfold System.dispatch System.answer
  split_ifs <;> rfl

theorem pumpDevice_cases {d : ι} {answer : Option Bytes}
    (h : s.pumpDevice cfg d answer = some t) : (s.device d).idle = true ∧
    (s.device d).source = true ∧ ∃ q m broker, s.broker.receive (.device d) =
      some (q, m, broker) ∧
      ((replyAddress m.envelope = none ∧ t = { s with broker }.logLost cfg d (.device d) q m) ∨
        ∃ address lost, replyAddress m.envelope = some address ∧
          lost = (if reachesHandler cfg.json m.body then s.lost
            else ({ s with broker }.logLost cfg d (.device d) q m).lost) ∧
          t = { s with broker, lost }.dispatch cfg (.device d) address
            ⟨q, m, .device d answer⟩) := by
  simp only [System.pumpDevice, Bool.and_eq_true] at h
  split_ifs at h with hd
  obtain ⟨⟨q, m, broker⟩, hrec, h⟩ := Option.map_eq_some_iff.mp h
  refine ⟨hd.1, hd.2, q, m, broker, hrec, ?_⟩
  simp only at h
  cases ha : replyAddress m.envelope with
  | none =>
    simp only [ha] at h
    exact Or.inl ⟨rfl, h.symm⟩
  | some address =>
    simp only [ha] at h
    refine Or.inr ⟨address, _, rfl, rfl, ?_⟩
    rw [← h]
    split_ifs <;> rfl

theorem pumpArbiter_cases (h : s.pumpArbiter cfg = some t) : s.arbiterWait = none ∧
    ∃ q m broker, s.broker.receive .arbiter = some (q, m, broker) ∧
      ((replyAddress m.envelope = none ∧ t = { s with broker }) ∨
        ∃ address, replyAddress m.envelope = some address ∧
          t = { s with
            broker
            agent := (arbiterProcessJsonMessage cfg.json amqpArbiterBackend m.body
              s.agent).2 }.dispatch cfg .arbiter address ⟨q, m, .arbiter s.agent⟩) := by
  simp only [System.pumpArbiter] at h
  split_ifs at h with hw
  obtain ⟨⟨q, m, broker⟩, hrec, h⟩ := Option.map_eq_some_iff.mp h
  refine ⟨Option.isNone_iff_eq_none.mp hw, q, m, broker, hrec, ?_⟩
  simp only at h
  cases ha : replyAddress m.envelope with
  | none =>
    simp only [ha] at h
    exact Or.inl ⟨rfl, h.symm⟩
  | some address =>
    simp only [ha] at h
    exact Or.inr ⟨address, rfl, h.symm⟩

theorem deliver_cases {i : ℕ} {c : ConnId ι} (h : s.deliver i c = some t) :
    ∃ q m broker, s.broker.deliver i c = some (q, m, broker) ∧
      t = { s with broker, delivered := s.delivered ++ [(c, q, m)] } := by
  obtain ⟨⟨q, m, broker⟩, hb, rfl⟩ := Option.map_eq_some_iff.mp h
  exact ⟨q, m, broker, hb, rfl⟩

/-- The queue a user command is for, when every check before the request lets it pass. -/
def commandTarget (cfg : Config ι) (s : System ι) (cmd : Bytes) : Option Bytes :=
  match cfg.json.loadFromData cmd with
  | .error _ => none
  | .ok root =>
    if (refusal s.agent (nodeGetObject root)).isSome then none else getQueueName cfg.json cmd

theorem userCommand_cases {cmd : Bytes} {start : Start}
    (h : s.userCommand cfg cmd start = some t) : s.arbiterWait = none ∧
    ((commandTarget cfg s cmd = none ∧ t = s) ∨
      ∃ target s₂ w, commandTarget cfg s cmd = some target ∧
        System.startRequest { s with broker := s.broker.connect (.temp s.requests.length) }
          .agent (.temp s.requests.length) target cmd start = some (s₂, w) ∧
        t = { s₂ with arbiterWait := w }) := by
  simp only [System.userCommand] at h
  split_ifs at h with hw
  refine ⟨Option.isNone_iff_eq_none.mp hw, ?_⟩
  unfold commandTarget
  cases hload : cfg.json.loadFromData cmd with
  | error e =>
    simp only [hload] at h
    exact Or.inl ⟨rfl, (Option.some.inj h).symm⟩
  | ok root =>
    simp only [hload] at h ⊢
    split_ifs at h ⊢ with hrefuse
    · exact Or.inl ⟨rfl, (Option.some.inj h).symm⟩
    · cases hq : getQueueName cfg.json cmd with
      | none =>
        simp only [hq] at h
        exact Or.inl ⟨rfl, (Option.some.inj h).symm⟩
      | some target =>
        simp only [hq] at h
        obtain ⟨⟨s₂, w⟩, hstart, ht⟩ := Option.map_eq_some_iff.mp h
        exact Or.inr ⟨target, s₂, w, rfl, hstart, ht.symm⟩

end Chamge
