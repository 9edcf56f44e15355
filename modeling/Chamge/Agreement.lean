import Chamge.Correlation
import Chamge.RequestBody

/-! The agent's lists and the devices' states, in runs without failures. -/

namespace Chamge
open CString JsonGlib

/-! ### Requests and replies on their way -/

variable {ι : Type} [DecidableEq ι] {cfg : Config ι} {s t : System ι} {d : ι}
  {p : Place (ConnId ι) Bytes × Message}

def Agrees (cfg : Config ι) (s : System ι) (d : ι) : Prop :=
  cfg.uid d ∈ s.agent.listOf (cfg.kind d) ↔ (s.device d).node.state ≠ .null

/-- The device is in its wait loop's first pass, for the request that the message goes
back to. -/
structure Owns (s : System ι) (d : ι) (w : DeviceWait) (r : Request ι) (m : Message) : Prop where
  wait : (s.device d).wait = some w
  request : s.requests[w.request]? = some r
  retry : w.retry = 0
  index : m.origin.index = some w.request

/-- The message is a device's request on its way to the arbiter, or the reply on its way
back; the arbiter's list changes between the two. -/
inductive InFlight (cfg : Config ι) (s : System ι) (d : ι)
    (p : Place (ConnId ι) Bytes × Message) : Prop
  | request {w : DeviceWait} {r : Request ι} (howns : Owns s d w r p.2)
    (horigin : p.2.origin = .request w.request)
    (hprops : p.2.properties = requestProperties r.replyQueue r.correlationId)
    (hbody : p.2.body = r.body)
    (hplace : p.1 = .queue cfg.enrollQueue ∨ p.1 = .inbox .arbiter cfg.enrollQueue)
    (hagrees : Agrees cfg s d)
  | reply {w : DeviceWait} {r : Request ι} (howns : Owns s d w r p.2)
    (hprops : p.2.properties = replyProperties (some r.correlationId))
    (hbody : p.2.body = resultBody w.method.shouldbe)
    (hplace : p.1 = .queue r.replyQueue ∨ p.1 = .inbox r.conn r.replyQueue)
    (hanswered : cfg.uid d ∈ s.agent.listOf (cfg.kind d) ↔ w.method ≠ .delist)

structure Agreement (cfg : Config ι) (s : System ι) : Prop where
  idle : ∀ d, (s.device d).wait = none → Agrees cfg s d
  message : ∀ p ∈ s.broker.messages, ∃ d, InFlight cfg s d p
  apart : (s.broker.messages.map fun p => p.2.origin.index).Nodup
  lists : ∀ type, (s.agent.listOf type).Nodup
  noCommand : s.arbiterWait = none

theorem agreement_init : Agreement cfg (.init cfg) := by
  refine ⟨fun d _ => ?_, nofun, List.nodup_nil, fun type => ?_, rfl⟩
  · have hlist : (System.init cfg).agent.listOf (cfg.kind d) = [] := by
      cases hk : cfg.kind d <;> simp [System.init, ArbiterAgent.listOf, ArbiterAgent.empty]
    rw [Agrees, hlist]
    exact iff_of_false List.not_mem_nil (not_not.mpr rfl)
  · cases type <;> exact List.nodup_nil

omit [DecidableEq ι] in
theorem InFlight.owns (h : InFlight cfg s d p) : ∃ w r, Owns s d w r p.2 := by
  cases h with
  | request howns => exact ⟨_, _, howns⟩
  | reply howns => exact ⟨_, _, howns⟩

omit [DecidableEq ι] in
theorem InFlight.wait_ne (h : InFlight cfg s d p) : (s.device d).wait ≠ none := by
  obtain ⟨w, r, howns⟩ := h.owns
  rw [howns.wait]
  exact nofun

omit [DecidableEq ι] in
theorem InFlight.index_eq {p' : Place (ConnId ι) Bytes × Message} (h : InFlight cfg s d p)
    (h' : InFlight cfg s d p') : p.2.origin.index = p'.2.origin.index := by
  obtain ⟨w, r, howns⟩ := h.owns
  obtain ⟨w', r', howns'⟩ := h'.owns
  obtain rfl : w = w' := Option.some.inj (howns.wait.symm.trans howns'.wait)
  rw [howns.index, howns'.index]

omit [DecidableEq ι] in
theorem InFlight.mono (h : InFlight cfg s d p) (hwait : (t.device d).wait = (s.device d).wait)
    (hstate : (t.device d).node.state = (s.device d).node.state)
    (hreq : s.requests <+: t.requests)
    (hlist : cfg.uid d ∈ t.agent.listOf (cfg.kind d) ↔ cfg.uid d ∈ s.agent.listOf (cfg.kind d)) :
    InFlight cfg t d p := by
  have howns : ∀ {w r}, Owns s d w r p.2 → Owns t d w r p.2 := fun h =>
    ⟨hwait.trans h.wait, getElem?_of_isPrefix hreq h.request, h.retry, h.index⟩
  cases h with
  | request h horigin hprops hbody hplace hagrees =>
    refine .request (howns h) horigin hprops hbody hplace ?_
    rw [Agrees, hlist, hstate]
    exact hagrees
  | reply h hprops hbody hplace hanswered =>
    exact .reply (howns h) hprops hbody hplace (hlist.trans hanswered)

/-! ### Frames -/

omit [DecidableEq ι] in
theorem Agreement.within (h : Agreement cfg s) (hdev : t.device = s.device)
    (hagent : t.agent = s.agent) (hreq : t.requests = s.requests)
    (harb : t.arbiterWait = s.arbiterWait)
    (hmsg : t.broker.messages.Sublist s.broker.messages) : Agreement cfg t := by
  refine ⟨fun d hd => ?_, fun p hp => ?_, (hmsg.map _).nodup h.apart, hagent ▸ h.lists,
    harb.trans h.noCommand⟩
  · rw [Agrees, hdev, hagent]
    exact h.idle d (hdev ▸ hd)
  · obtain ⟨d, hd⟩ := h.message p (hmsg.subset hp)
    exact ⟨d, hd.mono (by rw [hdev]) (by rw [hdev]) (hreq ▸ List.prefix_rfl) (by rw [hagent])⟩

omit [DecidableEq ι] in
/-- One device changes, and the messages of the others stay as they are. -/
theorem Agreement.update (h : Agreement cfg s) (d : ι)
    (hne : ∀ e, e ≠ d → (t.device e).wait = (s.device e).wait ∧
      (t.device e).node.state = (s.device e).node.state)
    (hagent : t.agent = s.agent) (hreq : s.requests <+: t.requests)
    (harb : t.arbiterWait = s.arbiterWait)
    (hidle : (t.device d).wait = none → Agrees cfg t d)
    (hmsg : ∀ p ∈ t.broker.messages,
      InFlight cfg t d p ∨ p ∈ s.broker.messages ∧ ¬ InFlight cfg s d p)
    (hapart : (t.broker.messages.map fun p => p.2.origin.index).Nodup) : Agreement cfg t := by
  refine ⟨fun e he => ?_, fun p hp => ?_, hapart, hagent ▸ h.lists, harb.trans h.noCommand⟩
  · by_cases hed : e = d
    · subst hed
      exact hidle he
    · obtain ⟨hwait, hstate⟩ := hne e hed
      rw [Agrees, hstate, hagent]
      exact h.idle e (hwait ▸ he)
  · rcases hmsg p hp with hp | ⟨hp, hno⟩
    · exact ⟨d, hp⟩
    · obtain ⟨e, he⟩ := h.message p hp
      have hed : e ≠ d := by
        rintro rfl
        exact hno he
      exact ⟨e, he.mono (hne e hed).1 (hne e hed).2 hreq (by rw [hagent])⟩

/-! ### Calls -/

def Start.Sends : Start → Prop
  | .sent _ _ => True
  | .refused | .noTarget | .unheard _ _ => False

theorem call_sent {method : BackendMethod} {a : NodeAction} {s₁ s₂ : System ι} {c : ConnId ι}
    {start : Start} {w : Option ℕ} (h : Agreement cfg s) (hidle : (s.device d).wait = none)
    (hsends : start.Sends) (hopen : s.openFor d method start = some (s₁, c))
    (hstart : s₁.startRequest (.device d) c cfg.enrollQueue
      (requestBody (cfg.kind d) method (cfg.uid d)) start = some (s₂, w)) :
    ∃ k, w = some k ∧ Agreement cfg
      (s₂.setDevice d { s₂.device d with wait := some ⟨a, method, k, 0⟩ }) := by
  have hmsg₁ : s₁.broker.messages = s.broker.messages := by
    rcases openFor_cases hopen with ⟨-, -, rfl⟩ | ⟨-, -, -, rfl⟩ | ⟨-, -, rfl⟩
    all_goals rfl
  have hreq₁ : s₁.requests = s.requests := by rw [openFor_frame hopen]
  have hagent₁ : s₁.agent = s.agent := by rw [openFor_frame hopen]
  have harb₁ : s₁.arbiterWait = s.arbiterWait := by rw [openFor_frame hopen]
  rcases startRequest_cases hstart with
    ⟨-, -, hno⟩ | ⟨cid, rq, -, ⟨-, rfl, -⟩ | ⟨rfl, rfl, rfl⟩⟩
  · cases start with
    | sent cid rq => exact absurd rfl (hno cid rq)
    | refused | noTarget | unheard _ _ => exact absurd hsends id
  · exact absurd hsends id
  refine ⟨_, rfl, ?_⟩
  have hold : ∀ p ∈ s.broker.messages, ¬ InFlight cfg s d p := fun p _ hp => hp.wait_ne hidle
  have hnew : ∀ p ∈ s.broker.messages, p.2.origin.index ≠ some s.requests.length := by
    intro p hp heq
    obtain ⟨e, he⟩ := h.message p hp
    obtain ⟨w, r, howns⟩ := he.owns
    obtain ⟨hlt, -⟩ := List.getElem?_eq_some_iff.mp howns.request
    exact absurd (Option.some.inj (howns.index.symm.trans heq)) hlt.ne
  have hsub : ((s₁.broker.declare rq).publish c cfg.enrollQueue ⟨requestProperties rq cid,
      requestBody (cfg.kind d) method (cfg.uid d), .request s₁.requests.length⟩).messages.Sublist
      (s.broker.messages ++ [(.queue cfg.enrollQueue, ⟨requestProperties rq cid,
        requestBody (cfg.kind d) method (cfg.uid d), .request s₁.requests.length⟩)]) := by
    rw [← hmsg₁, ← Broker.declare_messages (b := s₁.broker) (q := rq)]
    exact Broker.publish_sublist
  refine h.update d (fun e he => ?_) hagent₁ ?_ harb₁ ?_ (fun p hp => ?_) ?_
  · obtain ⟨connected, hconn⟩ := openFor_device (e := e) hopen
    rw [setDevice_device_ne _ _ he]
    change (s₁.device e).wait = _ ∧ (s₁.device e).node.state = _
    rw [hconn]
    exact ⟨rfl, rfl⟩
  · exact hreq₁ ▸ List.prefix_append ..
  · rw [setDevice_device_self]
    nofun
  · rcases List.mem_append.mp (hsub.subset hp) with hp | hp
    · exact Or.inr ⟨hp, hold p hp⟩
    refine Or.inl ?_
    obtain rfl := List.mem_singleton.mp hp
    obtain ⟨connected, hconn⟩ := openFor_device (e := d) hopen
    have hwait : ((s₁.send (.device d) c cfg.enrollQueue
        (requestBody (cfg.kind d) method (cfg.uid d)) cid rq).setDevice d { s₁.device d with
          wait := some ⟨a, method, s₁.requests.length, 0⟩ }).device d =
        { s₁.device d with wait := some ⟨a, method, s₁.requests.length, 0⟩ } :=
      setDevice_device_self ..
    refine .request (r := ⟨c, cfg.enrollQueue, cid, rq, _, _⟩)
      ⟨congrArg Device.wait hwait, List.getElem?_concat_length .., rfl, rfl⟩ rfl rfl rfl
      (Or.inl rfl) ?_
    · rw [Agrees, setDevice_device_self]
      change cfg.uid d ∈ s₁.agent.listOf (cfg.kind d) ↔ (s₁.device d).node.state ≠ .null
      rw [hagent₁, hconn]
      exact h.idle d hidle
  · refine (hsub.map _).nodup ?_
    refine Broker.nodup_append_message (f := fun m : Message => m.origin.index) h.apart
      fun p hp => ?_
    rw [hreq₁]
    exact hnew p hp

/-- No library call fails, each message comes to its queue's consumer (the enroll queue's is
the arbiter), no wait loop gives up, and there is no user command. -/
def FailureFree (cfg : Config ι) (s : System ι) : Label ι → Prop
  | .call d a start => methodReached (s.device d).node a = none ∨
    methodReached (s.device d).node a = some .deactivate ∨ start.Sends
  | .waitDevice _ failed fin => failed = none ∧ fin = .ok
  | .deliver i c =>
    s.broker.messages[i]?.map Prod.fst = some (.queue cfg.enrollQueue) → c = .arbiter
  | .userCommand _ _ | .lose _ | .post _ _ _ => False
  | .waitArbiter _ _ | .pumpDevice _ _ | .pumpArbiter => True

theorem call_agreement {a : NodeAction} {start : Start} (h : Agreement cfg s)
    (hfree : FailureFree cfg s (.call d a start)) (hcall : s.call cfg d a start = some t) :
    Agreement cfg t := by
  obtain ⟨hidle, hcases⟩ := call_cases hcall
  simp only [Device.idle, Bool.and_eq_true, Option.isNone_iff_eq_none] at hidle
  have hold : ∀ p ∈ s.broker.messages, ¬ InFlight cfg s d p := fun p _ hp => hp.wait_ne hidle.1
  have hnode : ∀ ret, NodeCall (s.device d).node ret (methodReached (s.device d).node a)
      (nodeAction (s.device d).node a ret).node := nodeCall _ a
  rcases hcases with ⟨hm, rfl⟩ | ⟨hm, rfl⟩ | ⟨method, s₁, c, s₂, w, hm, hne, hopen, hstart, hw⟩
  · refine h.update d (fun e he => ?_) rfl List.prefix_rfl rfl (fun _ => ?_)
      (fun p hp => Or.inr ⟨hp, hold p hp⟩) h.apart
    · rw [setDevice_device_ne _ _ he]
      exact ⟨rfl, rfl⟩
    · have hstep := hnode .fail
      rw [hm] at hstep
      cases hstep with
      | none hstate =>
        rw [Agrees, setDevice_device_self]
        change _ ↔ (nodeAction (s.device d).node a .fail).node.state ≠ .null
        rw [hstate]
        exact h.idle d hidle.1
  · refine h.update d (fun e he => ?_) rfl List.prefix_rfl rfl (fun _ => ?_)
      (fun p hp => Or.inr ⟨hp, hold p hp⟩) h.apart
    · rw [setDevice_device_ne _ _ he]
      exact ⟨rfl, rfl⟩
    · have hstep := hnode .ok
      rw [hm] at hstep
      cases hstep with
      | deactivate hn hb hbackend hstate =>
        have hagrees := h.idle d hidle.1
        rw [Agrees, hn] at hagrees
        rw [Agrees, setDevice_device_self]
        change _ ↔ (nodeAction (s.device d).node a .ok).node.state ≠ .null
        rw [hstate, if_pos rfl]
        exact iff_of_true (hagrees.mpr nofun) nofun
  · have hsends : start.Sends := by
      rcases hfree with hfree | hfree | hfree
      · have hclash := hm.symm.trans hfree
        cases hclash
      · exact absurd (Option.some.inj (hm.symm.trans hfree)) hne
      · exact hfree
    obtain ⟨k, rfl, hsent⟩ := call_sent (a := a) h hidle.1 hsends hopen hstart
    rcases hw with ⟨hw, -⟩ | ⟨k', hw, rfl⟩
    · cases hw
    · obtain rfl := Option.some.inj hw
      exact hsent

/-! ### Waits -/

omit [DecidableEq ι] in
theorem Owns.sent {w : DeviceWait} {r : Request ι} {m : Message} (h : Owns s d w r m)
    (hshape : Shaped cfg s) :
    methodReached (s.device d).node w.action = some w.method ∧ w.method ≠ .deactivate ∧
      r.conn = (if w.method = .delist then .temp w.request else .device d) ∧
      r.body = requestBody (cfg.kind d) w.method (cfg.uid d) := by
  obtain ⟨hreached, hsends, r', hr', hconn, -, hbody⟩ := hshape.device d w h.wait
  obtain rfl := Option.some.inj (h.request.symm.trans hr')
  exact ⟨hreached, hsends, hconn, hbody⟩

omit [DecidableEq ι] in
theorem wait_conn_inj (hjson : ReadsPlain cfg.json) (huid : Function.Injective cfg.uid)
    (hplain : ∀ d, Plain (cfg.uid d)) (hshape : Shaped cfg s) {e : ι} {w w' : DeviceWait}
    {r r' : Request ι} (hw : (s.device d).wait = some w) (hr : s.requests[w.request]? = some r)
    (hw' : (s.device e).wait = some w') (hr' : s.requests[w'.request]? = some r')
    (hconn : r.conn = r'.conn) : d = e := by
  obtain ⟨-, -, r₀, hr₀, hc, -, hbody⟩ := hshape.device d w hw
  obtain rfl := Option.some.inj (hr.symm.trans hr₀)
  obtain ⟨-, -, r₁, hr₁, hc', -, hbody'⟩ := hshape.device e w' hw'
  obtain rfl := Option.some.inj (hr'.symm.trans hr₁)
  rw [hc, hc'] at hconn
  split_ifs at hconn
  · have hsame := ConnId.temp.inj hconn
    rw [hsame] at hr
    obtain rfl := Option.some.inj (hr.symm.trans hr')
    exact huid (requestBody_inj hjson (hplain d) (hplain e) (hbody.symm.trans hbody')).2
  · exact ConnId.device.inj hconn

/-- The end of a call whose request is answered as it should be; an activate may fail after
that. -/
structure Answers (s : System ι) (d : ι) (w : DeviceWait) (t : System ι) : Prop where
  wait : (t.device d).wait = none
  node : ∃ ret, (ret = .ok ∨ w.method = .activate) ∧
    (t.device d).node = (nodeAction (s.device d).node w.action ret).node
  others : ∀ e, e ≠ d → t.device e = s.device e
  agent : t.agent = s.agent
  requests : t.requests = s.requests
  arbiterWait : t.arbiterWait = s.arbiterWait
  messages : t.broker.messages.Sublist s.broker.messages

theorem finishCall_answers {w : DeviceWait} :
    Answers s d w (s.finishCall cfg d (w.action, w.method) .ok) := by
  refine ⟨?_, ?_, fun e he => finishCall_device_ne he, ?_, finishCall_requests,
    finishCall_arbiterWait, ?_⟩
  · rw [finishCall_device_self]
    rfl
  · rw [finishCall_device_self]
    exact ⟨.ok, Or.inl rfl, by split_ifs <;> rfl⟩
  · rw [finishCall_frame]
  · rw [finishCall_broker]
    split_ifs
    · exact Broker.within_close.messages
    · exact List.Sublist.refl _

theorem endWait_answers {w : DeviceWait} {r : Request ι} {response : Option Bytes}
    (hvalid : (cfg.kind d).validate cfg.json response w.method.shouldbe = some .ok)
    (hend : s.endWait cfg d w r response .ok = some t) : Answers s d w t := by
  rcases endWait_cases hend with ⟨hv, -⟩ | ⟨ret, hv, hne, -⟩ | ⟨-, ⟨-, rfl⟩ | ⟨-, ret, hret, rfl⟩ |
    ⟨hm, s₁, ret, hsub, rfl⟩⟩
  · have hclash := hvalid.symm.trans hv
    cases hclash
  · exact absurd (Option.some.inj (hv.symm.trans hvalid)) hne
  · exact finishCall_answers
  · obtain rfl := hret.mpr rfl
    have h : Answers (s.closeLink r.conn .ok) d w ((s.closeLink r.conn .ok).finishCall cfg d
        (w.action, w.method) .ok) := finishCall_answers
    exact ⟨h.wait, h.node, h.others, h.agent, h.requests, h.arbiterWait,
      h.messages.trans Broker.within_close.messages⟩
  · have hmsg : s₁.broker.messages.Sublist s.broker.messages := by
      rcases subscribe_cases hsub with ⟨-, rfl | ⟨-, rfl⟩ | ⟨-, rfl⟩⟩ | ⟨-, -, -, rfl⟩
      · exact List.Sublist.refl _
      · exact Broker.within_cancel.messages
      · exact Broker.within_declare.messages
      · exact (Broker.within_declare (b := s.broker)).messages
    rw [subscribe_frame hsub]
    refine ⟨?_, ⟨ret, Or.inr hm, ?_⟩, fun e he => setDevice_device_ne _ _ he, rfl, rfl, rfl, ?_⟩
    · rw [setDevice_device_self]
      rfl
    · rw [setDevice_device_self]
      rfl
    · exact hmsg

theorem waitPass_answers (hjson : ReadsPlain cfg.json) {w : DeviceWait} {r : Request ι}
    {m : Message} (hretry : w.retry = 0)
    (hprops : m.properties = replyProperties (some r.correlationId))
    (hbody : m.body = resultBody w.method.shouldbe)
    (hpass : s.waitPass cfg d w r ⟨.normal, m.envelope⟩ .ok = some t) : Answers s d w t := by
  have hverdict : waitVerdict r.correlationId ⟨.normal, m.envelope⟩ = .reply m.envelope := by
    simp [waitVerdict, Message.envelope, hprops, replyProperties, strncmp_self]
  have hloop : waitLoop (some 10) r.correlationId w.retry [⟨.normal, m.envelope⟩] =
      some (.reply m.envelope) := by
    rw [hretry]
    simp [waitLoop, overLimit, hverdict, WaitVerdict.exit]
  rcases waitPass_cases hpass with ⟨hgo, -⟩ | ⟨e, he, hend⟩ | ⟨x, hx, hno, -⟩
  · have hclash := hloop.symm.trans hgo
    cases hclash
  · obtain rfl := WaitExit.reply.inj (Option.some.inj (he.symm.trans hloop))
    refine endWait_answers ?_ hend
    change (cfg.kind d).validate cfg.json (strndup m.body) _ = _
    rw [hbody]
    exact validate_resultBody hjson (cfg.kind d) w.method
  · exact absurd (Option.some.inj (hx.symm.trans hloop)) (hno _)

theorem state_ne_null_iff {n : ChamgeNode} {a : NodeAction} {method : BackendMethod}
    {ret : ChamgeReturn} (hreached : methodReached n a = some method)
    (hret : ret = .ok ∨ method = .activate) :
    (nodeAction n a ret).node.state ≠ .null ↔ method ≠ .delist := by
  have hcall := nodeCall n a ret
  rw [hreached] at hcall
  cases hcall with
  | enroll hn hbackend hstate =>
    rw [hstate, if_pos (hret.resolve_right nofun)]
    exact iff_of_true nofun nofun
  | activate hn hb hbackend hstate =>
    rw [hstate]
    refine iff_of_true ?_ nofun
    split_ifs <;> nofun
  | deactivate hn hb hbackend hstate =>
    rw [hstate, if_pos (hret.resolve_right nofun)]
    exact iff_of_true nofun nofun
  | delist hb hbackend hstate =>
    rw [hstate, if_pos (hret.resolve_right nofun)]
    exact iff_of_false (not_not.mpr rfl) (not_not.mpr rfl)

theorem waitDevice_agreement (hjson : ReadsPlain cfg.json) (huid : Function.Injective cfg.uid)
    (hplain : ∀ d, Plain (cfg.uid d)) (hshape : Shaped cfg s) (h : Agreement cfg s)
    {e : ι} (hstep : s.waitDevice cfg e none .ok = some t) : Agreement cfg t := by
  obtain ⟨w, r, hw, hr, ⟨reply, hf, -⟩ | ⟨q, m, broker, -, hrec, hpass⟩⟩ := waitDevice_cases hstep
  · cases hf
  obtain ⟨hm, hrest⟩ := Broker.mem_receive hrec
  obtain ⟨hapart, hother⟩ := Broker.receive_nodup (f := fun m : Message => m.origin.index)
    h.apart hrec
  obtain ⟨d, hd⟩ := h.message _ hm
  have hmine : ∀ p ∈ broker.messages, ¬ InFlight cfg s d p :=
    fun p hp hp' => hother p hp (hp'.index_eq hd)
  cases hd with
  | request howns horigin hprops hbody hplace =>
    rename_i w' r'
    obtain ⟨-, -, r₀, hr₀, hconn, -⟩ := hshape.device e w hw
    obtain rfl := Option.some.inj (hr.symm.trans hr₀)
    rcases hplace with hplace | hplace
    · cases hplace
    · rw [(Place.inbox.inj hplace).1] at hconn
      split_ifs at hconn
  | reply howns hprops hbody hplace hanswered =>
    rename_i w' r'
    rcases hplace with hplace | hplace
    · cases hplace
    obtain rfl := wait_conn_inj hjson huid hplain hshape howns.wait howns.request hw hr
      (Place.inbox.inj hplace).1.symm
    obtain rfl := Option.some.inj (hw.symm.trans howns.wait)
    obtain rfl := Option.some.inj (hr.symm.trans howns.request)
    rw [logAccepted_frame] at hpass
    have hanswers := waitPass_answers hjson howns.retry hprops hbody hpass
    refine h.update d (fun e' he' => ?_) hanswers.agent ?_ hanswers.arbiterWait (fun _ => ?_)
      (fun p hp => ?_) ?_
    · rw [hanswers.others e' he']
      exact ⟨rfl, rfl⟩
    · rw [hanswers.requests]
      exact List.prefix_rfl
    · obtain ⟨ret, hret, hnode⟩ := hanswers.node
      rw [Agrees, hanswers.agent, hnode]
      exact hanswered.trans (state_ne_null_iff (howns.sent hshape).1 hret).symm
    · have hold := hanswers.messages.subset hp
      exact Or.inr ⟨hrest p hold, hmine p hold⟩
    · exact (hanswers.messages.map _).nodup hapart

/-! ### Pumps and deliveries -/

theorem dispatch_sublist {c : ConnId ι} {address : ReplyAddress} {e : Dispatched ι} :
    (s.dispatch cfg c address e).broker.messages.Sublist (s.broker.messages ++
      [(.queue address.replyQueue, ⟨replyProperties address.correlationId, e.response cfg.json,
        e.message.origin.answer⟩)]) := by
  unfold System.dispatch System.answer
  split_ifs
  · exact Broker.publish_sublist
  · exact Broker.within_cancel.messages.trans (List.sublist_append_left ..)

theorem answered_iff {n : ChamgeNode} {a : NodeAction} {method : BackendMethod}
    (hreached : methodReached n a = some method) (hsends : method ≠ .deactivate) :
    (method = .enroll ∨ n.state ≠ .null ∧ method ≠ .delist) ↔ method ≠ .delist := by
  have hcall := nodeCall n a .ok
  rw [hreached] at hcall
  cases hcall with
  | enroll => simp
  | activate hn => simp [hn]
  | deactivate => exact absurd rfl hsends
  | delist => simp

omit [DecidableEq ι] in
/-- The arbiter's processing of a device's request decides on that device's entry and leaves
the others alone. -/
theorem process_entries (hjson : ReadsPlain cfg.json) (huid : Function.Injective cfg.uid)
    (hplain : Plain (cfg.uid d)) (hlists : ∀ type, (s.agent.listOf type).Nodup)
    (hagrees : Agrees cfg s d) {a : NodeAction} {method : BackendMethod} {agent : ArbiterAgent}
    (hreached : methodReached (s.device d).node a = some method) (hsends : method ≠ .deactivate)
    (hagent : (arbiterProcessJsonMessage cfg.json amqpArbiterBackend
      (requestBody (cfg.kind d) method (cfg.uid d)) s.agent).2 = agent) :
    (cfg.uid d ∈ agent.listOf (cfg.kind d) ↔ method ≠ .delist) ∧
      (∀ e, e ≠ d → (cfg.uid e ∈ agent.listOf (cfg.kind e) ↔
        cfg.uid e ∈ s.agent.listOf (cfg.kind e))) ∧
      ∀ type, (agent.listOf type).Nodup := by
  obtain ⟨-, happlied⟩ := process_requestBody hjson hplain (cfg.kind d) method s.agent
  rw [hagent] at happlied
  refine ⟨?_, fun e hed => ?_, fun type => ?_⟩
  · rw [happlied, if_pos rfl, mem_applied (hlists _), show cfg.uid d ∈ _ ↔ _ from hagrees]
    simpa using answered_iff hreached hsends
  · rw [happlied]
    split_ifs
    · simp [mem_applied (hlists _), huid.ne hed]
    · exact Iff.rfl
  · rw [happlied]
    split_ifs
    · exact nodup_applied (hlists _)
    · exact hlists _

theorem pumpArbiter_agreement (hjson : ReadsPlain cfg.json) (huid : Function.Injective cfg.uid)
    (hplain : ∀ d, Plain (cfg.uid d)) (hshape : Shaped cfg s) (hwired : Wired cfg s)
    (h : Agreement cfg s) (hstep : s.pumpArbiter cfg = some t) : Agreement cfg t := by
  obtain ⟨-, q, m, broker, hrec, hcases⟩ := pumpArbiter_cases hstep
  obtain ⟨hm, hrest⟩ := Broker.mem_receive hrec
  obtain ⟨hapart, hnew⟩ := Broker.receive_nodup (f := fun m : Message => m.origin.index)
    h.apart hrec
  rcases hcases with ⟨-, rfl⟩ | ⟨address, haddress, rfl⟩
  · exact h.within rfl rfl rfl rfl (Broker.within_receive hrec).messages
  obtain ⟨d, hd⟩ := h.message _ hm
  have hmine : ∀ p ∈ broker.messages, ¬ InFlight cfg s d p :=
    fun p hp hp' => hnew p hp (hp'.index_eq hd)
  cases hd with
  | reply howns hprops =>
    have hclash := (replyAddress_reply hprops).symm.trans haddress
    cases hclash
  | request howns horigin hprops hbody hplace hagrees =>
    rename_i w r
    obtain ⟨hreached, hsends, hconn, hreq⟩ := howns.sent hshape
    have hproper := hwired.proper r (List.mem_of_getElem? howns.request)
    obtain rfl := replyAddress_request hprops hproper.clean hproper.checksum haddress
    -- the device has not moved since it sent the request, so its list entry is the old one
    have hbody : m.body = requestBody (cfg.kind d) w.method (cfg.uid d) := hbody.trans hreq
    have hresponse := (process_requestBody hjson (hplain d) (cfg.kind d) w.method s.agent).1
    obtain ⟨hanswered, hother, hlists⟩ :=
      process_entries hjson huid (hplain d) h.lists hagrees hreached hsends rfl
    rw [← hbody] at hresponse hanswered hother hlists
    have hanswer : m.origin.answer.index = some w.request := by
      rw [show m.origin = .request w.request from horigin]
      rfl
    rw [dispatch_frame]
    refine ⟨fun e he => ?_, fun p hp => ?_, ?_, hlists, h.noCommand⟩
    · have hed : e ≠ d := by
        rintro rfl
        have hclash := howns.wait.symm.trans he
        cases hclash
      exact (hother e hed).trans (h.idle e he)
    · rcases List.mem_append.mp (dispatch_sublist.subset hp) with hp | hp
      · obtain ⟨e, he⟩ := h.message p (hrest p hp)
        have hed : e ≠ d := by
          rintro rfl
          exact hmine p hp he
        exact ⟨e, he.mono rfl rfl List.prefix_rfl (hother e hed)⟩
      · obtain rfl := List.mem_singleton.mp hp
        refine ⟨d, .reply (w := w) (r := r) ⟨howns.wait, howns.request, howns.retry, hanswer⟩
          rfl hresponse (Or.inl rfl) hanswered⟩
    · refine (dispatch_sublist.map _).nodup ?_
      refine Broker.nodup_append_message (f := fun m : Message => m.origin.index) hapart
        fun p hp heq => ?_
      exact hnew p hp (heq.trans (hanswer.trans howns.index.symm))

omit [DecidableEq ι] in
theorem idle_receives_nothing (hshape : Shaped cfg s) (h : Agreement cfg s) {q : Bytes}
    {m : Message} (hidle : (s.device d).wait = none) :
    (.inbox (.device d) q, m) ∉ s.broker.messages := by
  intro hm
  obtain ⟨e, he⟩ := h.message _ hm
  cases he with
  | request howns horigin hprops hbody hplace =>
    rcases hplace with hplace | hplace
    · cases hplace
    · exact absurd (Place.inbox.inj hplace).1 nofun
  | reply howns hprops hbody hplace =>
    rcases hplace with hplace | hplace
    · cases hplace
    obtain ⟨-, -, hconn, -⟩ := howns.sent hshape
    rw [← (Place.inbox.inj hplace).1] at hconn
    split_ifs at hconn
    obtain rfl := ConnId.device.inj hconn
    have hclash := howns.wait.symm.trans hidle
    cases hclash

theorem deliver_agreement {i : ℕ} {c : ConnId ι} (hwired : Wired cfg s) (h : Agreement cfg s)
    (hfree : FailureFree cfg s (.deliver i c)) (hstep : s.deliver i c = some t) :
    Agreement cfg t := by
  obtain ⟨q, m, broker, hb, rfl⟩ := deliver_cases hstep
  obtain ⟨hi, -, -⟩ := Broker.deliver_eq_some hb
  refine ⟨h.idle, fun p hp => ?_,
    Broker.deliver_nodup (f := fun m : Message => m.origin.index) h.apart hb, h.lists,
    h.noCommand⟩
  rcases Broker.mem_deliver hb hp with hp | ⟨rfl, hp, hc⟩
  · obtain ⟨d, hd⟩ := h.message p hp
    exact ⟨d, hd.mono rfl rfl List.prefix_rfl Iff.rfl⟩
  obtain ⟨d, hd⟩ := h.message _ hp
  refine ⟨d, ?_⟩
  cases hd with
  | request howns horigin hprops hbody hplace hagrees =>
    rcases hplace with hplace | hplace
    · obtain rfl := Place.queue.inj hplace
      obtain rfl := hfree (by rw [hi]; rfl)
      exact .request ⟨howns.wait, howns.request, howns.retry, howns.index⟩ horigin hprops hbody
        (Or.inr rfl) hagrees
    · cases hplace
  | reply howns hprops hbody hplace hanswered =>
    rcases hplace with hplace | hplace
    · obtain rfl := Place.queue.inj hplace
      obtain rfl := hwired.conn_of_consumes howns.request (hwired.consumer _ c hc)
      exact .reply ⟨howns.wait, howns.request, howns.retry, howns.index⟩ hprops hbody
        (Or.inr rfl) hanswered
    · cases hplace

/-! ### Runs -/

theorem agreement_step (hjson : ReadsPlain cfg.json) (huid : Function.Injective cfg.uid)
    (hplain : ∀ d, Plain (cfg.uid d)) {l : Label ι} (hshape : Shaped cfg s)
    (hwired : Wired cfg s) (h : Agreement cfg s) (hfree : FailureFree cfg s l)
    (hstep : (system cfg).step s l = some t) : Agreement cfg t := by
  cases l with
  | call d a start => exact call_agreement h hfree hstep
  | userCommand cmd start => exact absurd hfree id
  | waitDevice d failed fin =>
    obtain ⟨rfl, rfl⟩ := hfree
    exact waitDevice_agreement hjson huid hplain hshape h hstep
  | waitArbiter failed fin =>
    obtain ⟨k, r, hk, -⟩ := waitArbiter_cases hstep
    have hclash := h.noCommand.symm.trans hk
    cases hclash
  | pumpDevice d answer =>
    obtain ⟨hidle, -, q, m, broker, hrec, -⟩ := pumpDevice_cases hstep
    simp only [Device.idle, Bool.and_eq_true, Option.isNone_iff_eq_none] at hidle
    exact absurd (Broker.mem_receive hrec).1 (idle_receives_nothing hshape h hidle.1)
  | pumpArbiter => exact pumpArbiter_agreement hjson huid hplain hshape hwired h hstep
  | deliver i c => exact deliver_agreement hwired h hfree hstep
  | lose i => exact absurd hfree id
  | post q properties body => exact absurd hfree id

instance (start : Start) : Decidable start.Sends :=
  match start with
  | .sent _ _ => .isTrue trivial
  | .refused | .noTarget | .unheard _ _ => .isFalse id

instance (cfg : Config ι) (s : System ι) : (l : Label ι) → Decidable (FailureFree cfg s l)
  | .call _ _ _ => inferInstanceAs (Decidable (_ ∨ _ ∨ _))
  | .waitDevice _ _ _ => inferInstanceAs (Decidable (_ ∧ _))
  | .deliver _ _ => inferInstanceAs (Decidable (_ → _))
  | .userCommand _ _ | .lose _ | .post _ _ _ => .isFalse id
  | .waitArbiter _ _ | .pumpDevice _ _ | .pumpArbiter => .isTrue trivial

/-- In every failure-free run, the agent's list of its type holds a device with no request in
flight exactly when that device is enrolled or activated. -/
theorem registry_agrees (cfg : Config ι) (hjson : ReadsPlain cfg.json)
    (huid : Function.Injective cfg.uid) (hplain : ∀ d, Plain (cfg.uid d)) (ls : List (Label ι))
    (s : System ι) (hfree : (system cfg).Along (FailureFree cfg) (.init cfg) ls)
    (hrun : (system cfg).run (.init cfg) ls = some s) (d : ι)
    (hidle : (s.device d).wait = none) :
    cfg.uid d ∈ s.agent.listOf (cfg.kind d) ↔
      (s.device d).node.state = .enrolled ∨ (s.device d).node.state = .activated := by
  have h : Shaped cfg s ∧ Wired cfg s ∧ Agreement cfg s :=
    Machine.run_invariant (I := fun s => Shaped cfg s ∧ Wired cfg s ∧ Agreement cfg s)
      (fun s l t hI hl hstep => ⟨shaped_step hI.1 hstep, wired_step hI.2.1 hstep,
        agreement_step hjson huid hplain hI.1 hI.2.1 hI.2.2 hl hstep⟩)
      ⟨shaped_init, wired_init, agreement_init⟩ hfree hrun
  refine (h.2.2.idle d hidle).trans ?_
  cases (s.device d).node.state <;> simp

/-- The hub's enroll overtakes the edge's, and its delist overlaps the edge's activate. -/
def overlappingCalls : List (Label Bool) :=
  [.call false (.enroll none) (sentAs 0), .call true (.enroll none) (sentAs 1),
    .deliver 1 .arbiter, .deliver 0 .arbiter, .pumpArbiter, .pumpArbiter,
    .deliver 0 (.device true), .deliver 0 (.device false), .waitDevice false none .ok,
    .waitDevice true none .ok, .call false .activate (sentAs 2), .call true .delist (sentAs 3),
    .deliver 1 .arbiter, .pumpArbiter, .deliver 0 .arbiter, .pumpArbiter, .deliver 0 (.temp 3),
    .deliver 0 (.device false), .waitDevice true none .ok, .waitDevice false none .ok]

theorem registry_agrees_activated :
    ∃ s, (system hubAndEdge).run (.init hubAndEdge) overlappingCalls = some s ∧
      (s.device false).node.state = .activated ∧ (s.device true).node.state = .null ∧
      ∀ d, hubAndEdge.uid d ∈ s.agent.listOf (hubAndEdge.kind d) ↔
        (s.device d).node.state = .enrolled ∨ (s.device d).node.state = .activated := by
  have hrun : ((system hubAndEdge).run (.init hubAndEdge) overlappingCalls).any (fun s =>
      ((s.device false).node.state = .activated && (s.device true).node.state = .null) &&
        ((s.device false).wait.isNone && (s.device true).wait.isNone)) = true := by
    decide +kernel
  obtain ⟨s, hs, hstate⟩ := (Option.any_eq_true ..).mp hrun
  simp only [Bool.and_eq_true, Option.isNone_iff_eq_none, decide_eq_true_eq] at hstate
  obtain ⟨⟨hedge, hhub⟩, hedgeIdle, hhubIdle⟩ := hstate
  have hinj : ∀ d e, hubAndEdge.uid d = hubAndEdge.uid e → d = e := by decide
  have hplain : ∀ d, Plain (hubAndEdge.uid d) := by
    intro d
    cases d <;> exact plain_cstr (by decide)
  have hidle : ∀ d, (s.device d).wait = none := by
    intro d
    cases d
    · exact hedgeIdle
    · exact hhubIdle
  exact ⟨s, hs, hedge, hhub, fun d => registry_agrees hubAndEdge plainParser_reads
    (fun d e => hinj d e) hplain overlappingCalls s (by decide +kernel) hs d (hidle d)⟩

end Chamge
