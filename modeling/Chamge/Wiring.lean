import Chamge.Waits

/-! The queues of the requests and their consumers in every reachable state. -/

namespace Chamge
open CString JsonGlib

variable {ι : Type} [DecidableEq ι] {cfg : Config ι} {s t : System ι}

structure Request.Proper (r : Request ι) : Prop where
  checksum : isChecksum r.correlationId = true
  serverNamed : isServerNamed r.replyQueue = true
  clean : Clean r.replyQueue
  target : r.target ≠ r.replyQueue

/-- The arbiter consumes its enroll queue, a device its own queue, and each the replies to
what it has sent. -/
def Consumer (cfg : Config ι) (requests : List (Request ι)) (q : Bytes) (c : ConnId ι) : Prop :=
  (c = .arbiter ∧ q = cfg.enrollQueue) ∨
    (∃ d, c = .device d ∧ q = cfg.uid d ∧ isServerNamed q = false) ∨
    ∃ (k : ℕ) (r : Request ι), requests[k]? = some r ∧ r.conn = c ∧ r.replyQueue = q

structure Wired (cfg : Config ι) (s : System ι) : Prop where
  proper : ∀ r ∈ s.requests, r.Proper
  replyQueues : (s.requests.map Request.replyQueue).Nodup
  consumer : ∀ q c, s.broker.Consumes q c → Consumer cfg s.requests q c

theorem wired_init : Wired cfg (.init cfg) := by
  refine ⟨nofun, List.nodup_nil, ?_⟩
  rintro q c ⟨cs, hcs, hc⟩
  simp only [System.init] at hcs
  split_ifs at hcs with hq
  obtain rfl := Option.some.inj hcs
  exact Or.inl ⟨List.mem_singleton.mp hc, hq⟩

omit [DecidableEq ι] in
theorem Consumer.mono {requests requests' : List (Request ι)} (hreq : requests <+: requests')
    {q : Bytes} {c : ConnId ι} (h : Consumer cfg requests q c) : Consumer cfg requests' q c := by
  rcases h with h | h | ⟨k, r, hr, hrest⟩
  · exact Or.inl h
  · exact Or.inr (Or.inl h)
  · exact Or.inr (Or.inr ⟨k, r, getElem?_of_isPrefix hreq hr, hrest⟩)

omit [DecidableEq ι] in
/-- Two requests with one id, or one reply queue, are one where these are all different. -/
theorem request_unique {α : Type} {f : Request ι → α} {requests : List (Request ι)}
    (h : (requests.map f).Nodup) {j k : ℕ} {r r' : Request ι} (hr : requests[j]? = some r)
    (hr' : requests[k]? = some r') (hf : f r = f r') : j = k ∧ r = r' := by
  obtain ⟨hlt, -⟩ := List.getElem?_eq_some_iff.mp hr
  have hmap : (requests.map f)[j]? = (requests.map f)[k]? := by
    rw [List.getElem?_map, List.getElem?_map, hr, hr', Option.map_some, Option.map_some, hf]
  have hjk : j = k := (List.getElem?_inj (by simpa using hlt) h).mp hmap
  subst hjk
  exact ⟨rfl, Option.some.inj (hr.symm.trans hr')⟩

omit [DecidableEq ι] in
theorem Wired.conn_of_consumes (h : Wired cfg s) {k : ℕ} {r : Request ι} {c : ConnId ι}
    (hr : s.requests[k]? = some r) (hc : Consumer cfg s.requests r.replyQueue c) :
    c = r.conn := by
  have hserver := (h.proper r (List.mem_of_getElem? hr)).serverNamed
  rcases hc with ⟨-, hq⟩ | ⟨d, -, -, hclient⟩ | ⟨j, r', hr', hconn, hq⟩
  · rw [hq] at hserver
    have hclash := cfg.enrollQueue_client.symm.trans hserver
    cases hclash
  · have hclash := hclient.symm.trans hserver
    cases hclash
  · rw [← hconn, (request_unique h.replyQueues hr' hr hq).2]

/-! ### Steps -/

omit [DecidableEq ι] in
theorem Wired.of_consumes (h : Wired cfg s) (hreq : t.requests = s.requests)
    (hcons : ∀ q c, t.broker.Consumes q c → s.broker.Consumes q c) : Wired cfg t := by
  refine ⟨hreq ▸ h.proper, hreq ▸ h.replyQueues, fun q c hc => ?_⟩
  rw [hreq]
  exact h.consumer q c (hcons q c hc)

theorem Wired.subscribe (h : Wired cfg s) {q : Bytes} {c : ConnId ι}
    (hq : Consumer cfg s.requests q c) :
    Wired cfg { s with broker := s.broker.subscribe q c } := by
  refine ⟨h.proper, h.replyQueues, fun q' c' hc => ?_⟩
  rcases Broker.consumes_subscribe.mp hc with hc | ⟨rfl, rfl, -⟩
  · exact h.consumer q' c' hc
  · exact hq

theorem send_consumes {who : Caller ι} {c c' : ConnId ι} {target body cid rq q : Bytes} :
    (s.send who c target body cid rq).broker.Consumes q c' ↔ s.broker.Consumes q c' := by
  have hpub : (s.send who c target body cid rq).broker.consumers =
    (s.broker.declare rq).consumers := Broker.publish_consumers
  simp only [Broker.Consumes, hpub]
  exact Broker.consumes_declare

theorem send_wired {who : Caller ι} {c : ConnId ι} {target body cid rq : Bytes} (h : Wired cfg s)
    (hcan : CanSend s c target cid rq) : Wired cfg (s.send who c target body cid rq) := by
  refine ⟨fun r hr => ?_, ?_, fun q c' hc => ?_⟩
  · rcases List.mem_append.mp hr with hr | hr
    · exact h.proper r hr
    · rw [List.mem_singleton.mp hr]
      refine ⟨hcan.checksum, hcan.serverNamed, hcan.clean, fun heq => ?_⟩
      have hqueue := hcan.target
      rw [show target = rq from heq, hcan.newQueue] at hqueue
      cases hqueue
  · simp only [System.send, List.map_append, List.map_cons, List.map_nil]
    refine List.nodup_append.mpr ⟨h.replyQueues, List.nodup_singleton _, fun a ha b hb => ?_⟩
    obtain ⟨r, hr, rfl⟩ := List.mem_map.mp ha
    rw [List.mem_singleton.mp hb]
    exact hcan.unused r hr
  · exact (h.consumer q c' (send_consumes.mp hc)).mono (List.prefix_append ..)

theorem startRequest_wired {who : Caller ι} {c : ConnId ι} {target body : Bytes} {start : Start}
    {w : Option ℕ} (h : Wired cfg s)
    (hstart : s.startRequest who c target body start = some (t, w)) : Wired cfg t := by
  rcases startRequest_cases hstart with
    ⟨-, rfl | ⟨-, rfl⟩, -⟩ | ⟨cid, rq, hcan, ⟨-, rfl, rfl⟩ | ⟨-, rfl, rfl⟩⟩
  · exact h
  · exact h.of_consumes rfl Broker.within_cancel.consumes
  · exact send_wired h hcan
  · refine (send_wired h hcan).subscribe (Or.inr (Or.inr ?_))
    exact ⟨s.requests.length, _, List.getElem?_concat_length .., rfl, rfl⟩

theorem finishCall_wired {d : ι} {w : NodeAction × BackendMethod} {r : ChamgeReturn}
    (h : Wired cfg s) : Wired cfg (s.finishCall cfg d w r) := by
  refine h.of_consumes finishCall_requests fun q c hc => ?_
  rw [finishCall_broker] at hc
  split_ifs at hc
  · exact Broker.within_close.consumes q c hc
  · exact hc

theorem closeLink_wired {c : ConnId ι} {fin : Finish} (h : Wired cfg s) :
    Wired cfg (s.closeLink c fin) := by
  cases fin with
  | ok => exact h.of_consumes rfl Broker.within_close.consumes
  | failed => exact h
  | partly => exact h.of_consumes rfl Broker.within_cancel.consumes

theorem subscribe_wired {d : ι} {fin : Finish} {ret : ChamgeReturn}
    (h : Wired cfg s) (hsub : s.subscribe cfg d fin = some (t, ret)) : Wired cfg t := by
  rcases subscribe_cases hsub with ⟨-, rfl | ⟨-, rfl⟩ | ⟨-, rfl⟩⟩ | ⟨-, -, hclient, rfl⟩
  · exact h
  · exact h.of_consumes rfl Broker.within_cancel.consumes
  · exact h.of_consumes rfl Broker.within_declare.consumes
  · have hdeclared : Wired cfg { s with broker := s.broker.declare (cfg.uid d) } :=
      h.of_consumes rfl Broker.within_declare.consumes
    exact hdeclared.subscribe (Or.inr (Or.inl ⟨d, rfl, rfl, hclient⟩))

theorem endWait_wired {d : ι} {w : DeviceWait} {r : Request ι} {response : Option Bytes}
    {fin : Finish} (h : Wired cfg s) (hend : s.endWait cfg d w r response fin = some t) :
    Wired cfg t := by
  rcases endWait_cases hend with ⟨-, rfl⟩ | ⟨ret, -, -, rfl⟩ | ⟨-, ⟨-, rfl⟩ | ⟨-, ret, -, rfl⟩ |
    ⟨-, s₁, ret, hsub, rfl⟩⟩
  · exact h.of_consumes rfl (Broker.within_closeAll.trans Broker.within_close).consumes
  · exact finishCall_wired h
  · exact finishCall_wired h
  · exact finishCall_wired (closeLink_wired h)
  · exact (subscribe_wired h hsub).of_consumes rfl fun _ _ => id

theorem waitPass_wired {d : ι} {w : DeviceWait} {r : Request ι} {o : ConsumeOutcome}
    {fin : Finish} (h : Wired cfg s) (hpass : s.waitPass cfg d w r o fin = some t) :
    Wired cfg t := by
  rcases waitPass_cases hpass with ⟨-, rfl⟩ | ⟨e, -, hend⟩ | ⟨x, -, -, hend⟩
  · exact h.of_consumes rfl fun _ _ => id
  · exact endWait_wired h hend
  · exact endWait_wired h hend

theorem call_wired {d : ι} {a : NodeAction} {start : Start} (h : Wired cfg s)
    (hcall : s.call cfg d a start = some t) : Wired cfg t := by
  obtain ⟨-, ⟨-, rfl⟩ | ⟨-, rfl⟩ | ⟨method, s₁, c, s₂, w, -, -, hopen, hstart, hw⟩⟩ :=
    call_cases hcall
  · exact h.of_consumes rfl fun _ _ => id
  · exact h.of_consumes rfl fun _ _ => id
  have h₁ : Wired cfg s₁ := by
    refine h.of_consumes (by rw [openFor_frame hopen]) ?_
    rcases openFor_cases hopen with ⟨-, -, rfl⟩ | ⟨-, -, -, rfl⟩ | ⟨-, -, rfl⟩
    · exact fun _ _ => id
    · exact Broker.within_connect.consumes
    · exact Broker.within_connect.consumes
  have h₂ := startRequest_wired h₁ hstart
  rcases hw with ⟨-, rfl⟩ | ⟨k, -, rfl⟩
  · exact finishCall_wired h₂
  · exact h₂.of_consumes rfl fun _ _ => id

theorem dispatch_wired {c : ConnId ι} {address : ReplyAddress} {e : Dispatched ι}
    (h : Wired cfg s) : Wired cfg (s.dispatch cfg c address e) := by
  refine h.of_consumes (by rw [dispatch_frame]) fun q c' hc => ?_
  unfold System.dispatch System.answer at hc
  split_ifs at hc
  · simpa only [Broker.Consumes, Broker.publish_consumers] using hc
  · exact (Broker.consumes_cancel.mp hc).1

theorem wired_step {l : Label ι} (h : Wired cfg s) (hstep : (system cfg).step s l = some t) :
    Wired cfg t := by
  cases l with
  | call d a start => exact call_wired h hstep
  | userCommand cmd start =>
    obtain ⟨-, ⟨-, rfl⟩ | ⟨target, s₂, w, -, hstart, rfl⟩⟩ := userCommand_cases hstep
    · exact h
    · have h₁ : Wired cfg { s with broker := s.broker.connect (.temp s.requests.length) } :=
        h.of_consumes rfl Broker.within_connect.consumes
      exact (startRequest_wired h₁ hstart).of_consumes rfl fun _ _ => id
  | waitDevice d failed fin =>
    obtain ⟨w, r, -, -, ⟨reply, -, -, hpass⟩ | ⟨q, m, broker, -, hrec, hpass⟩⟩ :=
      waitDevice_cases hstep
    · exact waitPass_wired h hpass
    · rw [logAccepted_frame] at hpass
      refine waitPass_wired ?_ hpass
      exact h.of_consumes rfl (Broker.within_receive hrec).consumes
  | waitArbiter failed fin =>
    obtain ⟨k, r, -, -, s₁, hs₁, ht⟩ := waitArbiter_cases hstep
    have h₁ : Wired cfg s₁ := by
      rcases hs₁ with rfl | ⟨q, m, broker, hrec, rfl⟩
      · exact h
      · rw [logAccepted_frame]
        exact h.of_consumes rfl (Broker.within_receive hrec).consumes
    rcases ht with rfl | rfl
    · exact h₁
    · exact (closeLink_wired h₁).of_consumes rfl fun _ _ => id
  | pumpDevice d answer =>
    obtain ⟨-, -, q, m, broker, hrec, ⟨-, rfl⟩ | ⟨address, lost, -, -, rfl⟩⟩ :=
      pumpDevice_cases hstep
    · exact h.of_consumes rfl (Broker.within_receive hrec).consumes
    · refine dispatch_wired ?_
      exact h.of_consumes rfl (Broker.within_receive hrec).consumes
  | pumpArbiter =>
    obtain ⟨-, q, m, broker, hrec, ⟨-, rfl⟩ | ⟨address, -, rfl⟩⟩ := pumpArbiter_cases hstep
    · exact h.of_consumes rfl (Broker.within_receive hrec).consumes
    · refine dispatch_wired ?_
      exact h.of_consumes rfl (Broker.within_receive hrec).consumes
  | deliver i c =>
    obtain ⟨q, m, broker, hb, rfl⟩ := deliver_cases hstep
    refine h.of_consumes rfl fun q' c' hc => ?_
    rwa [Broker.Consumes, Broker.deliver_consumers hb] at hc
  | lose i =>
    obtain ⟨broker, hb, rfl⟩ := Option.map_eq_some_iff.mp hstep
    exact h.of_consumes rfl (Broker.within_lose hb).consumes
  | post q properties body =>
    obtain rfl := Option.some.inj hstep
    refine h.of_consumes rfl fun q' c' hc => ?_
    rwa [Broker.Consumes, Broker.post_consumers] at hc

end Chamge
