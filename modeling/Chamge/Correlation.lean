import Chamge.Wiring

/-! Which message a wait loop takes for the answer to its request. -/

namespace Chamge
open CString JsonGlib

variable {ι : Type} [DecidableEq ι] {cfg : Config ι} {s t : System ι}

/-! ### The headers of requests and replies -/

theorem isChecksum_iff {b : Bytes} : isChecksum b = true ↔ b.length = 64 ∧
    ∀ c ∈ b, (48 ≤ c ∧ c ≤ 57) ∨ (97 ≤ c ∧ c ≤ 102) := by
  simp [isChecksum]

theorem clean_of_isChecksum {b : Bytes} (h : isChecksum b = true) : Clean b := by
  obtain ⟨hlen, hhex⟩ := isChecksum_iff.mp h
  refine ⟨fun hnil => ?_, fun hzero => ?_⟩
  · rw [hnil] at hlen
    cases hlen
  · exact absurd (hhex 0 hzero) (by decide)

theorem stringProperty_of_clean {b : Bytes} (h : Clean b) : stringProperty true b = some b := by
  rw [stringProperty_eq, if_pos ⟨rfl, h⟩]

theorem replyAddress_request {m : Message} {address : ReplyAddress} {rq cid : Bytes}
    (hm : m.properties = requestProperties rq cid) (hrq : Clean rq) (hcid : isChecksum cid = true)
    (h : replyAddress m.envelope = some address) : address = ⟨rq, some cid⟩ := by
  simp only [replyAddress, Message.envelope, hm, requestProperties,
    stringProperty_of_clean hrq, stringProperty_of_clean (clean_of_isChecksum hcid)] at h
  split_ifs at h
  exact (Option.some.inj h).symm

/-- A reply has no reply queue: the pumps drop it. -/
theorem replyAddress_reply {m : Message} {cid : Option Bytes}
    (hm : m.properties = replyProperties cid) : replyAddress m.envelope = none := by
  simp only [replyAddress, Message.envelope, hm, replyProperties, stringProperty,
    Bool.false_eq_true, false_and, if_false, Option.map_none, ite_self]

theorem accepted_correlationId {m : Message} {cid cid' : Bytes} {e : AmqpEnvelope}
    (hm : m.properties.correlationId = cid') (hcid : isChecksum cid = true)
    (hcid' : isChecksum cid' = true) (h : waitVerdict cid ⟨.normal, m.envelope⟩ = .reply e) :
    cid = cid' := by
  simp only [waitVerdict, Message.envelope, hm] at h
  split_ifs at h with hflag hcmp
  exact (strncmp_eq_zero_iff ((isChecksum_iff.mp hcid).1.trans (isChecksum_iff.mp hcid').1.symm)
    rfl (clean_of_isChecksum hcid).2).mp (not_not.mp hcmp)

/-! ### Where every message comes from -/

/-- The responder's `_process_json_message` has computed `response` from the request's body. -/
def Answered (cfg : Config ι) (dispatched : List (Dispatched ι)) (k : ℕ) (r : Request ι)
    (response : Bytes) : Prop :=
  ∃ e ∈ dispatched, e.message.origin = .request k ∧ e.queue = r.target ∧
    e.message.body = r.body ∧ response = e.response cfg.json

/-- A message in the broker is a request on its way to its target, and not on the connection
it came from unless a device has the name of the enroll queue, or a reply. -/
inductive Traced (cfg : Config ι) (requests : List (Request ι))
    (dispatched : List (Dispatched ι)) : Place (ConnId ι) Bytes × Message → Prop
  | request {p : Place (ConnId ι) Bytes} {m : Message} {k : ℕ} {r : Request ι}
    (horigin : m.origin = .request k) (hr : requests[k]? = some r)
    (hprops : m.properties = requestProperties r.replyQueue r.correlationId)
    (hbody : m.body = r.body)
    (hplace : p = .queue r.target ∨
      ∃ c, p = .inbox c r.target ∧ ((∀ d, cfg.uid d ≠ cfg.enrollQueue) → c ≠ r.conn)) :
    Traced cfg requests dispatched (p, m)
  | reply {p : Place (ConnId ι) Bytes} {m : Message} {k : ℕ} {r : Request ι}
    (horigin : m.origin = .reply k) (hr : requests[k]? = some r)
    (hprops : m.properties = replyProperties (some r.correlationId))
    (hanswer : Answered cfg dispatched k r m.body) : Traced cfg requests dispatched (p, m)

/-- The accepted message is the reply to the request, and its body the response. -/
def AnswerTo (cfg : Config ι) (requests : List (Request ι)) (dispatched : List (Dispatched ι))
    (k : ℕ) (m : Message) : Prop :=
  m.origin = .reply k ∧ ∃ r, requests[k]? = some r ∧ Answered cfg dispatched k r m.body

structure Correlated (cfg : Config ι) (s : System ι) : Prop where
  ids : (s.requests.map Request.correlationId).Nodup
  message : ∀ p ∈ s.broker.messages, Traced cfg s.requests s.dispatched p
  dispatched : ∀ e ∈ s.dispatched, ∃ k, e.message.origin = .request k
  accepted : (∀ d, cfg.uid d ≠ cfg.enrollQueue) → ∀ k m, (k, m) ∈ s.accepted →
    AnswerTo cfg s.requests s.dispatched k m

theorem correlated_init : Correlated cfg (.init cfg) :=
  ⟨List.nodup_nil, nofun, nofun, fun _ => nofun⟩

/-! ### Frames -/

section mono
variable {requests requests' : List (Request ι)} {dispatched dispatched' : List (Dispatched ι)}
  (hreq : requests <+: requests') (hdis : dispatched <+: dispatched')
include hreq hdis

omit [DecidableEq ι] hreq in
theorem Answered.mono {k : ℕ} {r : Request ι} {response : Bytes}
    (h : Answered cfg dispatched k r response) : Answered cfg dispatched' k r response := by
  obtain ⟨e, he, hrest⟩ := h
  exact ⟨e, hdis.subset he, hrest⟩

omit [DecidableEq ι] in
theorem Traced.mono {p : Place (ConnId ι) Bytes × Message}
    (h : Traced cfg requests dispatched p) : Traced cfg requests' dispatched' p := by
  cases h with
  | request horigin hr hprops hbody hplace =>
    exact .request horigin (getElem?_of_isPrefix hreq hr) hprops hbody hplace
  | reply horigin hr hprops hanswer =>
    exact .reply horigin (getElem?_of_isPrefix hreq hr) hprops (hanswer.mono hdis)

omit [DecidableEq ι] in
theorem AnswerTo.mono {k : ℕ} {m : Message} (h : AnswerTo cfg requests dispatched k m) :
    AnswerTo cfg requests' dispatched' k m := by
  obtain ⟨horigin, r, hr, hanswer⟩ := h
  exact ⟨horigin, r, getElem?_of_isPrefix hreq hr, hanswer.mono hdis⟩

end mono

omit [DecidableEq ι] in
theorem Correlated.within (h : Correlated cfg s) (hreq : t.requests = s.requests)
    (hdis : t.dispatched = s.dispatched) (hacc : t.accepted = s.accepted)
    (hmsg : t.broker.messages.Sublist s.broker.messages) : Correlated cfg t := by
  have hr : s.requests <+: t.requests := hreq ▸ List.prefix_rfl
  have hd : s.dispatched <+: t.dispatched := hdis ▸ List.prefix_rfl
  exact ⟨hreq ▸ h.ids, fun p hp => (h.message p (hmsg.subset hp)).mono hr hd,
    hdis ▸ h.dispatched, fun huid k m hkm => (h.accepted huid k m (hacc ▸ hkm)).mono hr hd⟩

/-! ### Sending -/

/-- The request's id is not one that an earlier request carries. -/
def Start.Fresh (s : System ι) : Start → Prop
  | .unheard correlationId _ | .sent correlationId _ =>
    ∀ r ∈ s.requests, r.correlationId ≠ correlationId
  | .refused | .noTarget => True

instance (s : System ι) : (start : Start) → Decidable (start.Fresh s)
  | .unheard _ _ | .sent _ _ => inferInstanceAs (Decidable (∀ r ∈ s.requests, _ ≠ _))
  | .refused | .noTarget => .isTrue trivial

theorem send_correlated {who : Caller ι} {c : ConnId ι} {target body cid rq : Bytes}
    (h : Correlated cfg s) (hfresh : ∀ r ∈ s.requests, r.correlationId ≠ cid) :
    Correlated cfg (s.send who c target body cid rq) := by
  have hreq : s.requests <+: (s.send who c target body cid rq).requests := List.prefix_append ..
  have hdis : s.dispatched <+: (s.send who c target body cid rq).dispatched := List.prefix_rfl
  have hnew : (s.send who c target body cid rq).requests[s.requests.length]? =
      some ⟨c, target, cid, rq, body, who⟩ := List.getElem?_concat_length ..
  refine ⟨?_, fun p hp => ?_, h.dispatched,
    fun huid k m hkm => (h.accepted huid k m hkm).mono hreq hdis⟩
  · simp only [System.send, List.map_append, List.map_cons, List.map_nil]
    refine List.nodup_append.mpr ⟨h.ids, List.nodup_singleton _, fun a ha b hb => ?_⟩
    obtain ⟨r, hr, rfl⟩ := List.mem_map.mp ha
    rw [List.mem_singleton.mp hb]
    exact hfresh r hr
  · rcases Broker.mem_publish hp with hp | rfl
    · rw [Broker.declare_messages] at hp
      exact (h.message p hp).mono hreq hdis
    · exact .request rfl hnew rfl rfl (Or.inl rfl)

theorem startRequest_correlated {who : Caller ι} {c : ConnId ι} {target body : Bytes}
    {start : Start} {w : Option ℕ} (h : Correlated cfg s) (hfresh : start.Fresh s)
    (hstart : s.startRequest who c target body start = some (t, w)) : Correlated cfg t := by
  rcases startRequest_cases hstart with
    ⟨-, rfl | ⟨-, rfl⟩, -⟩ | ⟨cid, rq, -, ⟨-, rfl, rfl⟩ | ⟨-, rfl, rfl⟩⟩
  · exact h
  · exact h.within rfl rfl rfl Broker.within_cancel.messages
  · exact send_correlated h hfresh
  · exact (send_correlated h hfresh).within rfl rfl rfl (List.Sublist.refl _)

/-! ### Delivering and accepting -/

omit [DecidableEq ι] in
theorem consumer_ne_conn (hshape : Shaped cfg s) (h : Wired cfg s)
    (huid : ∀ d, cfg.uid d ≠ cfg.enrollQueue) {k : ℕ} {r : Request ι} {c : ConnId ι}
    (hr : s.requests[k]? = some r) (hc : Consumer cfg s.requests r.target c) : c ≠ r.conn := by
  rintro rfl
  -- a connection made for this request consumes its replies only; a device's own consumes
  -- the uid's queue and reply queues, and the request went to the enroll queue
  rcases hshape.linked k r hr with hlink | ⟨d, hlink, htarget⟩
  · rcases hc with ⟨hc, -⟩ | ⟨d, hc, -, -⟩ | ⟨j, r', hr', hconn, hqueue⟩
    · have hclash := hlink.symm.trans hc
      cases hclash
    · have hclash := hlink.symm.trans hc
      cases hclash
    · have hjk : j = k := by
        rcases hshape.linked j r' hr' with hlink' | ⟨d, hlink', -⟩
        · exact ConnId.temp.inj (hlink'.symm.trans (hconn.trans hlink))
        · have hclash := hlink'.symm.trans (hconn.trans hlink)
          cases hclash
      subst hjk
      obtain rfl := Option.some.inj (hr.symm.trans hr')
      exact (h.proper r (List.mem_of_getElem? hr)).target hqueue.symm
  · rcases hc with ⟨hc, -⟩ | ⟨e, -, hqueue, -⟩ | ⟨j, r', hr', -, hqueue⟩
    · have hclash := hlink.symm.trans hc
      cases hclash
    · exact huid e (hqueue.symm.trans htarget)
    · have hserver := (h.proper r' (List.mem_of_getElem? hr')).serverNamed
      rw [hqueue, htarget] at hserver
      have hclash := cfg.enrollQueue_client.symm.trans hserver
      cases hclash

theorem deliver_correlated (hshape : Shaped cfg s) (hwired : Wired cfg s)
    (h : Correlated cfg s) {i : ℕ} {c : ConnId ι} (hstep : s.deliver i c = some t) :
    Correlated cfg t := by
  obtain ⟨q, m, broker, hb, rfl⟩ := deliver_cases hstep
  refine ⟨h.ids, fun p hp => ?_, h.dispatched, h.accepted⟩
  rcases Broker.mem_deliver hb hp with hp | ⟨rfl, hp, hc⟩
  · exact h.message p hp
  have hold := h.message _ hp
  cases hold with
  | request horigin hr hprops hbody hplace =>
    rcases hplace with hplace | ⟨c', hplace, -⟩
    · obtain rfl := Place.queue.inj hplace
      refine .request horigin hr hprops hbody (Or.inr ⟨c, rfl, fun huid => ?_⟩)
      exact consumer_ne_conn hshape hwired huid hr (hwired.consumer _ c hc)
    · cases hplace
  | reply horigin hr hprops hanswer => exact .reply horigin hr hprops hanswer

theorem accepted_answers (huid : ∀ d, cfg.uid d ≠ cfg.enrollQueue) (hwired : Wired cfg s)
    (h : Correlated cfg s) {k : ℕ} {r : Request ι} {q : Bytes} {m : Message}
    {broker : Broker (ConnId ι) Bytes Message} {e : AmqpEnvelope}
    (hr : s.requests[k]? = some r) (hrec : s.broker.receive r.conn = some (q, m, broker))
    (hverdict : waitVerdict r.correlationId ⟨.normal, m.envelope⟩ = .reply e) :
    AnswerTo cfg s.requests s.dispatched k m := by
  have hsame : ∀ {j : ℕ} {r' : Request ι}, s.requests[j]? = some r' →
      m.properties.correlationId = r'.correlationId → j = k ∧ r' = r := by
    intro j r' hr' hm
    have hcid := accepted_correlationId hm (hwired.proper r (List.mem_of_getElem? hr)).checksum
      (hwired.proper r' (List.mem_of_getElem? hr')).checksum hverdict
    exact request_unique h.ids hr' hr hcid.symm
  have htraced := h.message _ (Broker.mem_receive hrec).1
  cases htraced with
  | request horigin hr' hprops hbody hplace =>
    -- it would be request `k` itself, which is never delivered on its own connection
    obtain ⟨rfl, rfl⟩ := hsame hr' (by rw [hprops]; rfl)
    rcases hplace with hplace | ⟨c, hplace, hne⟩
    · cases hplace
    · exact absurd (Place.inbox.inj hplace).1.symm (hne huid)
  | reply horigin hr' hprops hanswer =>
    obtain ⟨rfl, rfl⟩ := hsame hr' (by rw [hprops]; rfl)
    exact ⟨horigin, _, hr, hanswer⟩

theorem logAccepted_correlated (hwired : Wired cfg s) (h : Correlated cfg s) {k : ℕ}
    {r : Request ι} {q : Bytes} {m : Message} {broker : Broker (ConnId ι) Bytes Message}
    {lost : List (Lost ι)} (hr : s.requests[k]? = some r)
    (hrec : s.broker.receive r.conn = some (q, m, broker)) :
    Correlated cfg (System.logAccepted { s with broker, lost } k r.correlationId m) := by
  have hkeep : Correlated cfg { s with broker, lost } :=
    h.within rfl rfl rfl (Broker.within_receive hrec).messages
  unfold System.logAccepted
  split
  · rename_i e hverdict
    refine ⟨hkeep.ids, hkeep.message, hkeep.dispatched, fun huid k' m' hkm => ?_⟩
    rcases List.mem_append.mp hkm with hkm | hkm
    · exact h.accepted huid k' m' hkm
    · obtain ⟨rfl, rfl⟩ := Prod.mk.inj (List.mem_singleton.mp hkm)
      exact accepted_answers huid hwired h hr hrec hverdict
  · exact hkeep

/-! ### Answering -/

/-- A pump dispatches requests only, and its reply goes back under the request's id. -/
theorem dispatch_correlated (hwired : Wired cfg s) (h : Correlated cfg s) {c : ConnId ι}
    {address : ReplyAddress} {e : Dispatched ι}
    (htraced : Traced cfg s.requests s.dispatched (.inbox c e.queue, e.message))
    (ha : replyAddress e.message.envelope = some address) :
    Correlated cfg (s.dispatch cfg c address e) := by
  cases htraced with
  | reply horigin hr hprops hanswer =>
    have hclash := (replyAddress_reply hprops).symm.trans ha
    cases hclash
  | request horigin hr hprops hbody hplace =>
    rename_i k r
    have hproper := hwired.proper r (List.mem_of_getElem? hr)
    have haddress := replyAddress_request hprops hproper.clean hproper.checksum ha
    have hqueue : e.queue = r.target := by
      rcases hplace with hplace | ⟨c', hplace, -⟩
      · cases hplace
      · exact (Place.inbox.inj hplace).2
    have hdis : s.dispatched <+: s.dispatched ++ [e] := List.prefix_append ..
    have hanswer : Answered cfg (s.dispatched ++ [e]) k r (e.response cfg.json) :=
      ⟨e, by simp, horigin, hqueue, hbody, rfl⟩
    rw [dispatch_frame]
    refine ⟨h.ids, fun p hp => ?_, fun e' he' => ?_,
      fun huid k' m' hkm => (h.accepted huid k' m' hkm).mono List.prefix_rfl hdis⟩
    · unfold System.dispatch System.answer at hp
      split_ifs at hp
      · rcases Broker.mem_publish hp with hp | rfl
        · exact (h.message p hp).mono List.prefix_rfl hdis
        · refine .reply ?_ hr ?_ hanswer
          · rw [horigin]
            rfl
          · rw [haddress]
      · exact (h.message p (Broker.mem_cancel hp)).mono List.prefix_rfl hdis
    · rcases List.mem_append.mp he' with he' | he'
      · exact h.dispatched e' he'
      · rw [List.mem_singleton.mp he']
        exact ⟨k, horigin⟩

/-! ### Calls and waits -/

theorem finishCall_correlated {d : ι} {w : NodeAction × BackendMethod} {r : ChamgeReturn}
    (h : Correlated cfg s) : Correlated cfg (s.finishCall cfg d w r) := by
  refine h.within finishCall_requests (by rw [finishCall_frame]) (by rw [finishCall_frame]) ?_
  rw [finishCall_broker]
  split_ifs
  · exact Broker.within_close.messages
  · exact List.Sublist.refl _

theorem closeLink_correlated {c : ConnId ι} {fin : Finish} (h : Correlated cfg s) :
    Correlated cfg (s.closeLink c fin) := by
  cases fin with
  | ok => exact h.within rfl rfl rfl Broker.within_close.messages
  | failed => exact h
  | partly => exact h.within rfl rfl rfl Broker.within_cancel.messages

theorem endWait_correlated {d : ι} {w : DeviceWait} {r : Request ι} {response : Option Bytes}
    {fin : Finish} (h : Correlated cfg s) (hend : s.endWait cfg d w r response fin = some t) :
    Correlated cfg t := by
  rcases endWait_cases hend with ⟨-, rfl⟩ | ⟨ret, -, -, rfl⟩ | ⟨-, ⟨-, rfl⟩ | ⟨-, ret, -, rfl⟩ |
    ⟨-, s₁, ret, hsub, rfl⟩⟩
  · exact h.within rfl rfl rfl (Broker.within_closeAll.trans Broker.within_close).messages
  · exact finishCall_correlated h
  · exact finishCall_correlated h
  · exact finishCall_correlated (closeLink_correlated h)
  · have h₁ : Correlated cfg s₁ := by
      rcases subscribe_cases hsub with ⟨-, rfl | ⟨-, rfl⟩ | ⟨-, rfl⟩⟩ | ⟨-, -, -, rfl⟩
      · exact h
      · exact h.within rfl rfl rfl Broker.within_cancel.messages
      · exact h.within rfl rfl rfl Broker.within_declare.messages
      · exact h.within rfl rfl rfl (Broker.within_declare (b := s.broker)).messages
    exact h₁.within rfl rfl rfl (List.Sublist.refl _)

theorem waitPass_correlated {d : ι} {w : DeviceWait} {r : Request ι} {o : ConsumeOutcome}
    {fin : Finish} (h : Correlated cfg s) (hpass : s.waitPass cfg d w r o fin = some t) :
    Correlated cfg t := by
  rcases waitPass_cases hpass with ⟨-, rfl⟩ | ⟨e, -, hend⟩ | ⟨x, -, -, hend⟩
  · exact h.within rfl rfl rfl (List.Sublist.refl _)
  · exact endWait_correlated h hend
  · exact endWait_correlated h hend

theorem call_correlated {d : ι} {a : NodeAction} {start : Start} (h : Correlated cfg s)
    (hfresh : start.Fresh s) (hcall : s.call cfg d a start = some t) : Correlated cfg t := by
  obtain ⟨-, ⟨-, rfl⟩ | ⟨-, rfl⟩ | ⟨method, s₁, c, s₂, w, -, -, hopen, hstart, hw⟩⟩ :=
    call_cases hcall
  · exact h.within rfl rfl rfl (List.Sublist.refl _)
  · exact h.within rfl rfl rfl (List.Sublist.refl _)
  have hreq : s₁.requests = s.requests := by rw [openFor_frame hopen]
  have h₁ : Correlated cfg s₁ := by
    refine h.within hreq (by rw [openFor_frame hopen]) (by rw [openFor_frame hopen]) ?_
    rcases openFor_cases hopen with ⟨-, -, rfl⟩ | ⟨-, -, -, rfl⟩ | ⟨-, -, rfl⟩
    · exact List.Sublist.refl _
    · exact Broker.within_connect.messages
    · exact Broker.within_connect.messages
  have hfresh₁ : start.Fresh s₁ := by
    cases start with
    | refused | noTarget => trivial
    | unheard cid rq | sent cid rq =>
      simp only [Start.Fresh, hreq]
      exact hfresh
  have h₂ := startRequest_correlated h₁ hfresh₁ hstart
  rcases hw with ⟨-, rfl⟩ | ⟨k, -, rfl⟩
  · exact finishCall_correlated h₂
  · exact h₂.within rfl rfl rfl (List.Sublist.refl _)

theorem userCommand_correlated {cmd : Bytes} {start : Start} (h : Correlated cfg s)
    (hfresh : start.Fresh s) (hcmd : s.userCommand cfg cmd start = some t) :
    Correlated cfg t := by
  obtain ⟨-, ⟨-, rfl⟩ | ⟨target, s₂, w, -, hstart, rfl⟩⟩ := userCommand_cases hcmd
  · exact h
  have h₁ : Correlated cfg
      { s with broker := s.broker.connect (.temp s.requests.length) } :=
    h.within rfl rfl rfl Broker.within_connect.messages
  have h₂ : Correlated cfg s₂ := startRequest_correlated h₁ hfresh hstart
  exact h₂.within rfl rfl rfl (List.Sublist.refl _)

/-! ### Runs -/

/-- The program's own traffic: no foreign message, and an id of its own for every request. -/
def OwnTraffic (s : System ι) : Label ι → Prop
  | .call _ _ start | .userCommand _ start => start.Fresh s
  | .post _ _ _ => False
  | _ => True

instance (s : System ι) : (l : Label ι) → Decidable (OwnTraffic s l)
  | .call _ _ start | .userCommand _ start => inferInstanceAs (Decidable (start.Fresh s))
  | .post _ _ _ => .isFalse id
  | .waitDevice _ _ _ | .pumpDevice _ _ | .waitArbiter _ _ | .pumpArbiter | .deliver _ _
  | .lose _ => .isTrue trivial

theorem correlated_step {l : Label ι} (hshape : Shaped cfg s) (hwired : Wired cfg s)
    (h : Correlated cfg s) (hown : OwnTraffic s l) (hstep : (system cfg).step s l = some t) :
    Correlated cfg t := by
  cases l with
  | call d a start => exact call_correlated h hown hstep
  | userCommand cmd start => exact userCommand_correlated h hown hstep
  | waitDevice d failed fin =>
    obtain ⟨w, r, hw, hr, ⟨reply, -, -, hpass⟩ | ⟨q, m, broker, -, hrec, hpass⟩⟩ :=
      waitDevice_cases hstep
    · exact waitPass_correlated h hpass
    · exact waitPass_correlated (logAccepted_correlated hwired h hr hrec) hpass
  | waitArbiter failed fin =>
    obtain ⟨k, r, hk, hr, s₁, hs₁, ht⟩ := waitArbiter_cases hstep
    have h₁ : Correlated cfg s₁ := by
      rcases hs₁ with rfl | ⟨q, m, broker, hrec, rfl⟩
      · exact h
      · exact logAccepted_correlated hwired h hr hrec
    rcases ht with rfl | rfl
    · exact h₁
    · exact (closeLink_correlated h₁).within rfl rfl rfl (List.Sublist.refl _)
  | pumpDevice d answer =>
    obtain ⟨-, -, q, m, broker, hrec, ⟨-, rfl⟩ | ⟨address, lost, ha, -, rfl⟩⟩ :=
      pumpDevice_cases hstep
    · exact h.within rfl rfl rfl (Broker.within_receive hrec).messages
    · have hkeep : Correlated cfg { s with broker, lost } :=
        h.within rfl rfl rfl (Broker.within_receive hrec).messages
      have hkeep' : Wired cfg { s with broker, lost } :=
        hwired.of_consumes rfl (Broker.within_receive hrec).consumes
      exact dispatch_correlated hkeep' hkeep (h.message _ (Broker.mem_receive hrec).1) ha
  | pumpArbiter =>
    obtain ⟨-, q, m, broker, hrec, ⟨-, rfl⟩ | ⟨address, ha, rfl⟩⟩ := pumpArbiter_cases hstep
    · exact h.within rfl rfl rfl (Broker.within_receive hrec).messages
    · refine dispatch_correlated ?_ ?_ (h.message _ (Broker.mem_receive hrec).1) ha
      · exact hwired.of_consumes rfl (Broker.within_receive hrec).consumes
      · exact h.within rfl rfl rfl (Broker.within_receive hrec).messages
  | deliver i c => exact deliver_correlated hshape hwired h hstep
  | lose i =>
    obtain ⟨broker, hb, rfl⟩ := Option.map_eq_some_iff.mp hstep
    exact h.within rfl rfl rfl (Broker.within_lose hb).messages
  | post q properties body => exact absurd hown id

/-- Every accepted message is the reply to the request it was accepted for, with the response
that the responder computed from that request's body, and the pumps dispatch only requests. -/
def AnswersMatch (cfg : Config ι) (s : System ι) : Prop :=
  (∀ k m, (k, m) ∈ s.accepted → AnswerTo cfg s.requests s.dispatched k m) ∧
    ∀ e ∈ s.dispatched, ∃ k, e.message.origin = .request k

/-- In every run of the program's own traffic where no device has the name of the enroll
queue, answers never cross. -/
theorem answers_never_cross (cfg : Config ι) (huid : ∀ d, cfg.uid d ≠ cfg.enrollQueue)
    (ls : List (Label ι)) (s : System ι)
    (hown : (system cfg).Along OwnTraffic (.init cfg) ls)
    (hrun : (system cfg).run (.init cfg) ls = some s) : AnswersMatch cfg s := by
  have h : Shaped cfg s ∧ Wired cfg s ∧ Correlated cfg s :=
    Machine.run_invariant (I := fun s => Shaped cfg s ∧ Wired cfg s ∧ Correlated cfg s)
      (fun s l t hI hl hstep => ⟨shaped_step hI.1 hstep, wired_step hI.2.1 hstep,
        correlated_step hI.1 hI.2.1 hI.2.2 hl hstep⟩)
      ⟨shaped_init, wired_init, correlated_init⟩ hown hrun
  exact ⟨h.2.2.accepted huid, h.2.2.dispatched⟩

theorem answers_never_cross_activated :
    ∃ s, (system loneEdge).run (.init loneEdge) activatedRun = some s ∧
      s.accepted.length = 2 ∧ AnswersMatch loneEdge s := by
  have hrun : ((system loneEdge).run (.init loneEdge) activatedRun).any (fun s =>
      s.accepted.length = 2) = true := by decide +kernel
  obtain ⟨s, hs, hlen⟩ := (Option.any_eq_true ..).mp hrun
  have huid : cstr "edge-1" ≠ cstr "enroll" := by decide
  exact ⟨s, hs, of_decide_eq_true hlen,
    answers_never_cross loneEdge (fun _ => huid) activatedRun s (by decide +kernel) hs⟩

def enrollNamedEdge : Config Unit := { loneEdge with uid := fun _ => cstr "enroll" }

def selfDeliveredRun : List (Label Unit) :=
  activatedRun ++ [.call () .deactivate .refused, .call () .activate (sentAs 2),
    .deliver 0 (.device ()), .waitDevice () none .ok]

/-- The edge consumes the enroll queue as its own: its next activate is delivered back to it,
and accepted as the answer to itself. -/
theorem own_request_accepted : ¬ ∀ s,
    (system enrollNamedEdge).Along OwnTraffic (.init enrollNamedEdge) selfDeliveredRun →
    (system enrollNamedEdge).run (.init enrollNamedEdge) selfDeliveredRun = some s →
    AnswersMatch enrollNamedEdge s := by
  intro h
  have hrun : ((system enrollNamedEdge).run (.init enrollNamedEdge) selfDeliveredRun).any
      (fun s => s.accepted.any fun a => a.1 = 2 && a.2.origin = .request 2) = true := by
    decide +kernel
  obtain ⟨s, hs, hacc⟩ := (Option.any_eq_true ..).mp hrun
  obtain ⟨⟨k, m⟩, hmem, hown⟩ := List.any_eq_true.mp hacc
  simp only [Bool.and_eq_true, decide_eq_true_eq] at hown
  have hreply := ((h s (by decide +kernel) hs).1 k m hmem).1
  have hclash := hown.2.symm.trans hreply
  cases hclash

end Chamge
