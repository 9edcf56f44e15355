import Chamge.BackendClass
import Chamge.History

/-! The running system with the user commands that hubs send: over a connection of its own,
to the queue that the command names, with no look at the arbiter's registry. A hub waits for
the answer as in its other requests. -/

namespace Chamge
open CString JsonGlib

structure CommandWait where
  request : ℕ
  retry : ℕ

/-- `sending` is the command that a hub waits for; `answers` records who took which message
for the answer to which request. -/
structure HubSystem (ι : Type) where
  base : System ι
  sending : ι → Option CommandWait
  answers : List (ι × ℕ × Message)

variable {ι : Type} [DecidableEq ι] (cfg : Config ι)

def HubSystem.init : HubSystem ι :=
  { base := .init cfg, sending := fun _ => none, answers := [] }

def HubSystem.setSending (s : HubSystem ι) (d : ι) (w : Option CommandWait) : HubSystem ι :=
  { s with sending := Function.update s.sending d w }

def HubSystem.openCommand (s : HubSystem ι) : System ι :=
  { s.base with broker := s.base.broker.connect (.temp s.base.requests.length) }

/-- `chamge_node_user_command` on a hub, up to the wait loop of its request or, where it sends
none, to its end. -/
def HubSystem.userCommand (s : HubSystem ι) (d : ι) (cmd : Bytes) (start : Start) :
    Option (HubSystem ι) :=
  let dev := s.base.device d
  if cfg.kind d = .hub && dev.idle && (s.sending d).isNone then
    if dev.node.state ≠ .activated ∨ dev.node.backend = none then some s
    else match getQueueName cfg.json cmd with
      | none => some s
      | some target =>
        (s.openCommand.startRequest (.hub d) (.temp s.base.requests.length) target cmd start).map
          fun (base, k) => { s with base }.setSending d (k.map (⟨·, 0⟩))
  else none

def HubSystem.logAnswer (s : HubSystem ι) (d : ι) (k : ℕ) (correlationId : Bytes) (m : Message) :
    HubSystem ι :=
  match waitVerdict correlationId ⟨.normal, m.envelope⟩ with
  | .reply _ =>
    { s with
      base := s.base.logAccepted k correlationId m
      answers := s.answers ++ [(d, k, m)] }
  | _ => s

/-- One pass of the wait loop, after which the connection is closed or the loop goes on. -/
def HubSystem.commandPass (s : HubSystem ι) (d : ι) (w : CommandWait) (r : Request ι)
    (o : ConsumeOutcome) (fin : Finish) : HubSystem ι :=
  match waitLoop (some 10) r.correlationId w.retry [o] with
  | none => s.setSending d (some { w with retry := w.retry + 1 })
  | some _ => { s with base := s.base.closeLink r.conn fin }.setSending d none

def HubSystem.waitCommand (s : HubSystem ι) (d : ι) (failed : Option AmqpRpcReply)
    (fin : Finish) : Option (HubSystem ι) :=
  (s.sending d).bind fun w => s.base.requests[w.request]?.bind fun r =>
    match failed with
    | some reply =>
      if reply = .normal then none else some (s.commandPass d w r (failedOutcome reply) fin)
    | none =>
      (s.base.broker.receive r.conn).map fun (_, m, broker) =>
        let s := { s with base := { s.base with broker } }.logAnswer d w.request r.correlationId m
        s.commandPass d w r ⟨.normal, m.envelope⟩ fin

inductive HubLabel (ι : Type)
  | base (l : Label ι)
  | userCommand (d : ι) (cmd : Bytes) (start : Start)
  | waitCommand (d : ι) (failed : Option AmqpRpcReply) (fin : Finish)

/-- A hub that waits for its command's answer does nothing else. -/
def HubSystem.free (s : HubSystem ι) (l : Label ι) : Bool :=
  l.device.all fun d => (s.sending d).isNone

def hubSystem : Machine (HubSystem ι) (HubLabel ι) where
  step s
    | .base l =>
      if s.free l then ((system cfg).step s.base l).map fun base => { s with base } else none
    | .userCommand d cmd start => s.userCommand cfg d cmd start
    | .waitCommand d failed fin => s.waitCommand d failed fin

variable {cfg} {s t : HubSystem ι} {d : ι} {start : Start} {cmd : Bytes} {fin : Finish}

/-! ### What a step can do -/

theorem setSending_self (s : HubSystem ι) (w : Option CommandWait) :
    (s.setSending d w).sending d = w := Function.update_self ..

theorem setSending_ne (s : HubSystem ι) (w : Option CommandWait) {e : ι} (h : e ≠ d) :
    (s.setSending d w).sending e = s.sending e := Function.update_of_ne h ..

theorem base_cases {l : Label ι} (h : (hubSystem cfg).step s (.base l) = some t) :
    (∀ d, l.device = some d → s.sending d = none) ∧
      ∃ base, (system cfg).step s.base l = some base ∧ t = { s with base } := by
  simp only [hubSystem] at h
  split_ifs at h with hfree
  obtain ⟨base, hstep, rfl⟩ := Option.map_eq_some_iff.mp h
  refine ⟨fun d hd => ?_, base, hstep, rfl⟩
  rw [HubSystem.free, hd] at hfree
  exact Option.isNone_iff_eq_none.mp hfree

/-- A command is sent by an activated hub that does not wait, to the queue it names. -/
theorem hubCommand_cases (h : s.userCommand cfg d cmd start = some t) :
    cfg.kind d = .hub ∧ (s.base.device d).idle = true ∧ s.sending d = none ∧
    ((t = s ∧ ((s.base.device d).node.state ≠ .activated ∨ (s.base.device d).node.backend = none ∨
        getQueueName cfg.json cmd = none)) ∨
      ∃ target base k, (s.base.device d).node.state = .activated ∧
        (s.base.device d).node.backend ≠ none ∧ getQueueName cfg.json cmd = some target ∧
        s.openCommand.startRequest (.hub d) (.temp s.base.requests.length) target cmd start =
          some (base, k) ∧
        t = { s with base }.setSending d (k.map (⟨·, 0⟩))) := by
  simp only [HubSystem.userCommand, Bool.and_eq_true, decide_eq_true_eq] at h
  split_ifs at h with hfree hstate
  · obtain ⟨⟨hkind, hidle⟩, hnone⟩ := hfree
    refine ⟨hkind, hidle, Option.isNone_iff_eq_none.mp hnone, Or.inl ⟨(Option.some.inj h).symm, ?_⟩⟩
    exact hstate.imp_right Or.inl
  obtain ⟨⟨hkind, hidle⟩, hnone⟩ := hfree
  refine ⟨hkind, hidle, Option.isNone_iff_eq_none.mp hnone, ?_⟩
  cases hqueue : getQueueName cfg.json cmd with
  | none =>
    simp only [hqueue] at h
    exact Or.inl ⟨(Option.some.inj h).symm, Or.inr (Or.inr rfl)⟩
  | some target =>
    simp only [hqueue] at h
    obtain ⟨⟨base, k⟩, hstart, rfl⟩ := Option.map_eq_some_iff.mp h
    have hactive : (s.base.device d).node.state = .activated :=
      not_not.mp fun hne => hstate (Or.inl hne)
    have hbacked : (s.base.device d).node.backend ≠ none := fun hnone => hstate (Or.inr hnone)
    exact Or.inr ⟨target, base, k, hactive, hbacked, rfl, hstart, rfl⟩

omit [DecidableEq ι] in
theorem logAnswer_cases (s : HubSystem ι) (d : ι) (k : ℕ) (cid : Bytes) (m : Message) :
    s.logAnswer d k cid m = s ∨
      (∃ e, waitVerdict cid ⟨.normal, m.envelope⟩ = .reply e) ∧
        s.logAnswer d k cid m =
          { s with base := s.base.logAccepted k cid m, answers := s.answers ++ [(d, k, m)] } := by
  unfold HubSystem.logAnswer
  split
  · rename_i e he
    exact Or.inr ⟨⟨e, he⟩, rfl⟩
  · exact Or.inl rfl

theorem commandPass_loop (s : HubSystem ι) (d : ι) (w : CommandWait) (r : Request ι)
    (o : ConsumeOutcome) (fin : Finish) :
    (waitLoop (some 10) r.correlationId w.retry [o] = none ∧
        s.commandPass d w r o fin = s.setSending d (some { w with retry := w.retry + 1 })) ∨
      ∃ x, waitLoop (some 10) r.correlationId w.retry [o] = some x ∧
        s.commandPass d w r o fin =
          { s with base := s.base.closeLink r.conn fin }.setSending d none := by
  unfold HubSystem.commandPass
  cases hloop : waitLoop (some 10) r.correlationId w.retry [o] with
  | none => exact Or.inl ⟨rfl, rfl⟩
  | some x => exact Or.inr ⟨x, rfl, rfl⟩

theorem commandPass_cases (s : HubSystem ι) (d : ι) (w : CommandWait) (r : Request ι)
    (o : ConsumeOutcome) (fin : Finish) :
    (w.retry < 10 ∧
        s.commandPass d w r o fin = s.setSending d (some { w with retry := w.retry + 1 })) ∨
      s.commandPass d w r o fin =
        { s with base := s.base.closeLink r.conn fin }.setSending d none := by
  rcases commandPass_loop s d w r o fin with ⟨hloop, hpass⟩ | ⟨x, -, hpass⟩
  · obtain ⟨-, hlimit⟩ := waitLoop_eq_none_iff.mp hloop
    have hretry : w.retry + 1 ≤ 10 := by
      simpa [overLimit] using hlimit
    exact Or.inl ⟨hretry, hpass⟩
  · exact Or.inr hpass

/-- One pass, with the outcome that the loop has judged. -/
theorem waitCommand_pass {failed : Option AmqpRpcReply}
    (h : s.waitCommand d failed fin = some t) : ∃ w r, s.sending d = some w ∧
    s.base.requests[w.request]? = some r ∧ ∃ s₁ o, t = s₁.commandPass d w r o fin ∧
      ((s₁ = s ∧ o.reply ≠ .normal) ∨
        ∃ q m broker, s.base.broker.receive r.conn = some (q, m, broker) ∧
          s₁ = { s with base := { s.base with broker } }.logAnswer d w.request r.correlationId m ∧
          o = ⟨.normal, m.envelope⟩) := by
  obtain ⟨w, hw, h⟩ := Option.bind_eq_some_iff.mp h
  obtain ⟨r, hr, h⟩ := Option.bind_eq_some_iff.mp h
  refine ⟨w, r, hw, hr, ?_⟩
  cases failed with
  | some reply =>
    simp only at h
    split_ifs at h with hnormal
    exact ⟨s, failedOutcome reply, (Option.some.inj h).symm, Or.inl ⟨rfl, hnormal⟩⟩
  | none =>
    obtain ⟨⟨q, m, broker⟩, hrec, rfl⟩ := Option.map_eq_some_iff.mp h
    exact ⟨_, _, rfl, Or.inr ⟨q, m, broker, hrec, rfl, rfl⟩⟩

theorem waitCommand_cases {failed : Option AmqpRpcReply}
    (h : s.waitCommand d failed fin = some t) : ∃ w r, s.sending d = some w ∧
    s.base.requests[w.request]? = some r ∧ ∃ s₁ o, t = s₁.commandPass d w r o fin ∧
      (s₁ = s ∨ ∃ q m broker, s.base.broker.receive r.conn = some (q, m, broker) ∧
        s₁ = { s with base := { s.base with broker } }.logAnswer d w.request r.correlationId
          m) := by
  obtain ⟨w, r, hw, hr, s₁, o, ht, hfrom⟩ := waitCommand_pass h
  refine ⟨w, r, hw, hr, s₁, o, ht, ?_⟩
  rcases hfrom with ⟨hsame, -⟩ | ⟨q, m, broker, hrec, hs₁, -⟩
  · exact Or.inl hsame
  · exact Or.inr ⟨q, m, broker, hrec, hs₁⟩

/-- A command opens a connection and sends a request, if anything. -/
theorem hubCommand_frame (h : s.userCommand cfg d cmd start = some t) :
    t.base = { s.base with broker := t.base.broker, requests := t.base.requests } ∧
      s.base.requests <+: t.base.requests ∧ t.answers = s.answers := by
  obtain ⟨-, -, -, ⟨rfl, -⟩ | ⟨target, base, k, -, -, -, hstart, rfl⟩⟩ := hubCommand_cases h
  · exact ⟨rfl, List.prefix_rfl, rfl⟩
  · have hreq : s.openCommand.requests <+: base.requests := startRequest_prefix hstart
    have hframe : base = { s.openCommand with broker := base.broker, requests := base.requests } :=
      startRequest_frame hstart
    exact ⟨hframe, hreq, rfl⟩

/-- A pass takes a message, and marks an answer, and closes the connection at the end. -/
theorem waitCommand_frame {failed : Option AmqpRpcReply}
    (h : s.waitCommand d failed fin = some t) :
    t.base = { s.base with broker := t.base.broker, accepted := t.base.accepted } ∧
      NoArrival s.base t.base ∧ s.answers <+: t.answers ∧
      ∀ e, e ≠ d → t.sending e = s.sending e := by
  obtain ⟨w, r, -, -, s₁, o, rfl, hfrom⟩ := waitCommand_cases h
  have hfirst : s₁.base = { s.base with broker := s₁.base.broker, accepted := s₁.base.accepted } ∧
      NoArrival s.base s₁.base ∧ s.answers <+: s₁.answers ∧ s₁.sending = s.sending := by
    rcases hfrom with rfl | ⟨q, m, broker, hrec, rfl⟩
    · exact ⟨rfl, .refl _, List.prefix_rfl, rfl⟩
    rcases logAnswer_cases { s with base := { s.base with broker } } d w.request r.correlationId m
      with hsame | ⟨-, hlogged⟩
    · rw [hsame]
      exact ⟨rfl, receive_noArrival hrec rfl, List.prefix_rfl, rfl⟩
    · rw [hlogged, logAccepted_frame]
      exact ⟨rfl, receive_noArrival hrec rfl, List.prefix_append .., rfl⟩
  obtain ⟨hbase, hno, hanswers, hsending⟩ := hfirst
  rcases commandPass_loop s₁ d w r o fin with ⟨-, hpass⟩ | ⟨x, -, hpass⟩
  · rw [hpass]
    refine ⟨hbase, hno, hanswers, fun e he => ?_⟩
    rw [setSending_ne _ _ he, hsending]
  · rw [hpass]
    have hclosed := closeLink_frame s₁.base r.conn fin
    refine ⟨?_, hno.trans closeLink_noArrival, hanswers, fun e he => ?_⟩
    · rw [HubSystem.setSending, hclosed, hbase]
    · rw [setSending_ne _ _ he]
      exact congrFun hsending e

theorem waitCommand_device {failed : Option AmqpRpcReply}
    (h : s.waitCommand d failed fin = some t) :
    t.base.device = s.base.device ∧ t.base.requests = s.base.requests ∧
      t.base.delivered = s.base.delivered := by
  have hframe := (waitCommand_frame h).1
  refine ⟨?_, ?_, ?_⟩ <;> rw [hframe]

/-! ### The steps of a command keep what holds of the system -/

section steps
variable {u v : System ι}

theorem connect_legal {c : ConnId ι} (h : Legal cfg u) :
    Legal cfg { u with broker := u.broker.connect c } :=
  ⟨h.shaped.of_eq rfl rfl rfl, h.wired.of_consumes rfl Broker.within_connect.consumes,
    h.correlated.within rfl rfl rfl Broker.within_connect.messages, h.received⟩

theorem startRequest_shaped {who : Caller ι} {target body : Bytes} {k : Option ℕ} (h : Shaped cfg u)
    (hstart : u.startRequest who (.temp u.requests.length) target body start = some (v, k)) :
    Shaped cfg v := by
  have hreq := startRequest_prefix hstart
  have hframe := startRequest_frame hstart
  have hdevice : v.device = u.device := by rw [hframe]
  have harbiter : v.arbiterWait = u.arbiterWait := by rw [hframe]
  refine ⟨fun d w hw => ?_, fun k hk => ?_, ?_, ?_⟩
  · rw [hdevice] at hw ⊢
    exact (h.device d w hw).mono hreq
  · obtain ⟨r, hr, hconn⟩ := h.arbiter k (harbiter ▸ hk)
    exact ⟨r, getElem?_of_isPrefix hreq hr, hconn⟩
  · rw [hdevice]
    exact h.source
  · exact startRequest_linked hstart h.linked (Or.inl rfl)

theorem startRequest_legal {who : Caller ι} {target body : Bytes} {k : Option ℕ} (h : Legal cfg u)
    (hfresh : start.Fresh u)
    (hstart : u.startRequest who (.temp u.requests.length) target body start = some (v, k)) :
    Legal cfg v :=
  have hreq := startRequest_prefix hstart
  ⟨startRequest_shaped h.shaped hstart, startRequest_wired h.wired hstart,
    startRequest_correlated h.correlated hfresh hstart,
    h.received.mono (startRequest_noArrival hstart) hreq⟩

theorem closeLink_legal {c : ConnId ι} (h : Legal cfg u) : Legal cfg (u.closeLink c fin) := by
  have hframe := closeLink_frame u c fin
  have hreq : (u.closeLink c fin).requests = u.requests := by rw [hframe]
  refine ⟨h.shaped.of_eq ?_ ?_ hreq, closeLink_wired h.wired, closeLink_correlated h.correlated,
    h.received.mono closeLink_noArrival ?_⟩
  · rw [hframe]
  · rw [hframe]
  · exact hreq ▸ List.prefix_rfl

theorem logAccepted_legal (h : Legal cfg u) {k : ℕ} {r : Request ι} {q : Bytes} {m : Message}
    {broker : Broker (ConnId ι) Bytes Message} (hr : u.requests[k]? = some r)
    (hrec : u.broker.receive r.conn = some (q, m, broker)) :
    Legal cfg ({ u with broker }.logAccepted k r.correlationId m) := by
  have hwithin := Broker.within_receive hrec
  have hcorrelated : Correlated cfg ({ u with broker }.logAccepted k r.correlationId m) :=
    logAccepted_correlated h.wired h.correlated hr hrec
  rw [logAccepted_frame] at hcorrelated ⊢
  exact ⟨h.shaped.of_eq rfl rfl rfl, h.wired.of_consumes rfl hwithin.consumes, hcorrelated,
    h.received.mono (.of_sublist hwithin.messages) List.prefix_rfl⟩

theorem receive_legal (h : Legal cfg u) {c : ConnId ι} {q : Bytes} {m : Message}
    {broker : Broker (ConnId ι) Bytes Message} (hrec : u.broker.receive c = some (q, m, broker)) :
    Legal cfg { u with broker } := by
  have hwithin := Broker.within_receive hrec
  exact ⟨h.shaped.of_eq rfl rfl rfl, h.wired.of_consumes rfl hwithin.consumes,
    h.correlated.within rfl rfl rfl hwithin.messages,
    h.received.mono (.of_sublist hwithin.messages) List.prefix_rfl⟩

end steps

/-! ### Answers -/

/-- The connection that a pump of this party reads. -/
def Responder.conn : Responder ι → ConnId ι
  | .arbiter _ => .arbiter
  | .device d _ => .device d

/-- The message is the reply to the hub's request, and its body what another party, one that
consumes the queue the command names, has made of the command. -/
def AnsweredElsewhere (cfg : Config ι) (s : System ι) (d : ι) (k : ℕ) (m : Message) : Prop :=
  ∃ r e, s.requests[k]? = some r ∧ getQueueName cfg.json r.body = some r.target ∧
    e ∈ s.dispatched ∧ e.message.origin = .request k ∧ e.queue = r.target ∧
    e.message.body = r.body ∧ m.origin = .reply k ∧ m.body = e.response cfg.json ∧
    Consumer cfg s.requests e.queue e.responder.conn ∧ e.responder.conn ≠ .device d

structure HubLegal (cfg : Config ι) (s : HubSystem ι) : Prop where
  base : Legal cfg s.base
  handled : ∀ e ∈ s.base.dispatched, Consumer cfg s.base.requests e.queue e.responder.conn ∧
    ∀ k, e.message.origin = .request k → k < s.base.requests.length
  waits : ∀ d w, s.sending d = some w → ∃ r, s.base.requests[w.request]? = some r ∧
    getQueueName cfg.json r.body = some r.target
  silent : ∀ d w, s.sending d = some w → ∀ e ∈ s.base.dispatched,
    e.message.origin = .request w.request → e.responder.conn ≠ .device d
  answers : ∀ d k m, (d, k, m) ∈ s.answers → AnsweredElsewhere cfg s.base d k m

theorem hubLegal_init : HubLegal cfg (.init cfg) := ⟨legal_init, nofun, nofun, nofun, nofun⟩

omit [DecidableEq ι] in
theorem AnsweredElsewhere.mono {u v : System ι} {k : ℕ} {m : Message}
    (h : AnsweredElsewhere cfg u d k m) (hreq : u.requests <+: v.requests)
    (hdis : u.dispatched <+: v.dispatched) : AnsweredElsewhere cfg v d k m := by
  obtain ⟨r, e, hr, hto, he, horigin, hqueue, hbody, hreply, hresponse, hconsumer, hne⟩ := h
  exact ⟨r, e, getElem?_of_isPrefix hreq hr, hto, hdis.subset he, horigin, hqueue, hbody, hreply,
    hresponse, hconsumer.mono hreq, hne⟩

omit [DecidableEq ι] in
/-- A party hands on what is in its own inbox. -/
theorem hands_conn {u : System ι} {l : Label ι} {e : Dispatched ι} (hands : Hands u l e) :
    (.inbox e.responder.conn e.queue, e.message) ∈ u.broker.messages ∧
      ∀ d, e.responder.conn = .device d → l.device = some d := by
  cases hands with
  | device hsource hinbox hresponder =>
    rw [hresponder]
    exact ⟨hinbox, fun d hd => congrArg some (ConnId.device.inj hd)⟩
  | arbiter hinbox hresponder =>
    rw [hresponder]
    exact ⟨hinbox, fun d hd => by cases hd⟩

theorem base_hubLegal (h : HubLegal cfg s) {l : Label ι} (hown : OwnTraffic s.base l)
    (hstep : (hubSystem cfg).step s (.base l) = some t) : HubLegal cfg t := by
  obtain ⟨hfree, base, hbase, rfl⟩ := base_cases hstep
  have hreq : s.base.requests <+: base.requests := by
    rcases step_requests hbase with hsame | ⟨r, hnew, -⟩
    · exact hsame ▸ List.prefix_rfl
    · exact hnew ▸ List.prefix_append ..
  have hwaits : ∀ d w, s.sending d = some w → ∃ r, base.requests[w.request]? = some r ∧
      getQueueName cfg.json r.body = some r.target := by
    intro d w hw
    obtain ⟨r, hr, hto⟩ := h.waits d w hw
    exact ⟨r, getElem?_of_isPrefix hreq hr, hto⟩
  have hhandled : ∀ e ∈ s.base.dispatched,
      Consumer cfg base.requests e.queue e.responder.conn ∧
        ∀ k, e.message.origin = .request k → k < base.requests.length := by
    intro e he
    obtain ⟨hconsumer, hlt⟩ := h.handled e he
    exact ⟨hconsumer.mono hreq, fun k hk => (hlt k hk).trans_le hreq.length_le⟩
  rcases step_dispatched hbase with hsame | ⟨e, hnew, hands⟩
  · refine ⟨legal_step h.base hown hbase, ?_, hwaits, ?_, fun d k m hm => ?_⟩
    · exact hsame ▸ hhandled
    · exact hsame ▸ h.silent
    · exact (h.answers d k m hm).mono hreq (hsame ▸ List.prefix_rfl)
  obtain ⟨hinbox, hdevice⟩ := hands_conn hands
  refine ⟨legal_step h.base hown hbase, fun e' he' => ?_, hwaits, fun d w hw e' he' hk => ?_,
    fun d k m hm => ?_⟩
  · rcases List.mem_append.mp (hnew ▸ he') with hold | hlast
    · exact hhandled e' hold
    obtain rfl := List.mem_singleton.mp hlast
    refine ⟨(h.base.received _ _ _ hinbox).mono hreq, fun k hk => ?_⟩
    obtain ⟨r, hr, -⟩ := hands_request h.base hk hands
    exact (List.getElem?_eq_some_iff.mp (getElem?_of_isPrefix hreq hr)).1
  · rcases List.mem_append.mp (hnew ▸ he') with hold | hlast
    · exact h.silent d w hw e' hold hk
    -- a hub that waits runs no pump
    obtain rfl := List.mem_singleton.mp hlast
    intro hconn
    have hnone := hfree d (hdevice d hconn)
    have hclash := hnone.symm.trans hw
    cases hclash
  · exact (h.answers d k m hm).mono hreq (hnew ▸ List.prefix_append ..)

theorem userCommand_hubLegal (h : HubLegal cfg s) (hfresh : start.Fresh s.base)
    (hstep : s.userCommand cfg d cmd start = some t) : HubLegal cfg t := by
  obtain ⟨-, -, -, ⟨rfl, -⟩ | ⟨target, base, k, -, -, hto, hstart, rfl⟩⟩ :=
    hubCommand_cases hstep
  · exact h
  have hgrown : s.openCommand.requests <+: base.requests := startRequest_prefix hstart
  have hreq : s.base.requests <+: base.requests := hgrown
  have hdis : base.dispatched = s.base.dispatched := by
    rw [startRequest_frame hstart]
    rfl
  have hfresh' : start.Fresh s.openCommand := hfresh
  -- a new wait is for the request that has just gone out
  have hnew : ∀ e w, ({ s with base }.setSending d (k.map (⟨·, 0⟩))).sending e = some w →
      s.sending e = some w ∨ e = d ∧ w.request = s.base.requests.length ∧ k = some w.request := by
    intro e w hw
    by_cases he : e = d
    · rw [he, setSending_self] at hw
      obtain ⟨n, hn, rfl⟩ := Option.map_eq_some_iff.mp hw
      rw [hn] at hstart
      exact Or.inr ⟨he, (startRequest_waits hstart).1, hn⟩
    · rw [setSending_ne _ _ he] at hw
      exact Or.inl hw
  refine ⟨startRequest_legal (connect_legal h.base) hfresh' hstart, ?_, ?_, ?_, ?_⟩
  · intro e he
    obtain ⟨hconsumer, hlt⟩ := h.handled e (hdis ▸ he)
    exact ⟨hconsumer.mono hreq, fun k hk => (hlt k hk).trans_le hreq.length_le⟩
  · intro e w hw
    rcases hnew e w hw with hold | ⟨-, -, rfl⟩
    · obtain ⟨r, hr, hto⟩ := h.waits e w hold
      exact ⟨r, getElem?_of_isPrefix hreq hr, hto⟩
    · obtain ⟨-, r, hr, -, htarget, hbody⟩ := startRequest_waits hstart
      exact ⟨r, hr, by rw [hbody, htarget, hto]⟩
  · intro e w hw e' he' hk
    rcases hnew e w hw with hold | ⟨-, hlen, -⟩
    · exact h.silent e w hold e' (hdis ▸ he') hk
    · have hlt := (h.handled e' (hdis ▸ he')).2 w.request hk
      rw [hlen] at hlt
      exact absurd hlt (Nat.lt_irrefl _)
  · intro e n m hm
    exact (h.answers e n m hm).mono hreq (hdis ▸ List.prefix_rfl)

/-- The pass after the message has been taken changes nothing that has been recorded. -/
theorem commandPass_hubLegal (h : HubLegal cfg s) {w : CommandWait} {r : Request ι}
    {o : ConsumeOutcome} (hw : s.sending d = some w) :
    HubLegal cfg (s.commandPass d w r o fin) := by
  rcases commandPass_cases s d w r o fin with ⟨-, hpass⟩ | hpass
  · have hsame : ∀ e w', (s.setSending d (some { w with retry := w.retry + 1 })).sending e =
        some w' → ∃ w₀, s.sending e = some w₀ ∧ w₀.request = w'.request := by
      intro e w' hw'
      by_cases he : e = d
      · rw [he, setSending_self] at hw'
        obtain rfl := Option.some.inj hw'
        exact ⟨w, he ▸ hw, rfl⟩
      · rw [setSending_ne _ _ he] at hw'
        exact ⟨w', hw', rfl⟩
    rw [hpass]
    refine ⟨h.base, h.handled, fun e w' hw' => ?_, fun e w' hw' => ?_, h.answers⟩
    · obtain ⟨w₀, hold, hreq⟩ := hsame e w' hw'
      rw [← hreq]
      exact h.waits e w₀ hold
    · obtain ⟨w₀, hold, hreq⟩ := hsame e w' hw'
      rw [← hreq]
      exact h.silent e w₀ hold
  · have hframe := closeLink_frame s.base r.conn fin
    have hold : ∀ e w', ({ s with base := s.base.closeLink r.conn fin }.setSending d
        none).sending e = some w' → s.sending e = some w' := by
      intro e w' hw'
      by_cases he : e = d
      · rw [he, setSending_self] at hw'
        cases hw'
      · rwa [setSending_ne _ _ he] at hw'
    rw [hpass]
    refine ⟨closeLink_legal h.base, ?_, fun e w' hw' => ?_, fun e w' hw' => ?_, ?_⟩
    all_goals rw [HubSystem.setSending, hframe]
    · exact h.handled
    · exact h.waits e w' (hold e w' hw')
    · exact h.silent e w' (hold e w' hw')
    · exact h.answers

theorem logAnswer_hubLegal (huid : ∀ d, cfg.uid d ≠ cfg.enrollQueue) (h : HubLegal cfg s)
    {w : CommandWait} {r : Request ι} {q : Bytes} {m : Message}
    {broker : Broker (ConnId ι) Bytes Message} (hw : s.sending d = some w)
    (hr : s.base.requests[w.request]? = some r)
    (hrec : s.base.broker.receive r.conn = some (q, m, broker)) :
    HubLegal cfg ({ s with base := { s.base with broker } }.logAnswer d w.request r.correlationId
      m) := by
  rcases logAnswer_cases { s with base := { s.base with broker } } d w.request r.correlationId m
    with hsame | ⟨⟨e, hverdict⟩, hlogged⟩
  · rw [hsame]
    exact ⟨receive_legal h.base hrec, h.handled, h.waits, h.silent, h.answers⟩
  have hframe := logAccepted_frame { s.base with broker } w.request r.correlationId m
  rw [hlogged]
  refine ⟨logAccepted_legal h.base hr hrec, ?_, ?_, ?_, fun d' k' m' hm => ?_⟩
  all_goals rw [hframe]
  · exact h.handled
  · exact h.waits
  · exact h.silent
  rcases List.mem_append.mp hm with hold | hlast
  · exact h.answers d' k' m' hold
  obtain ⟨rfl, hpair⟩ := Prod.mk.inj (List.mem_singleton.mp hlast)
  obtain ⟨rfl, rfl⟩ := Prod.mk.inj hpair
  obtain ⟨hreply, r', hr', e, he, horigin, hqueue, hbody, hresponse⟩ :=
    accepted_answers huid h.base.wired h.base.correlated hr hrec hverdict
  obtain ⟨r'', hr'', hto⟩ := h.waits d' w hw
  obtain rfl := Option.some.inj (hr'.symm.trans hr'')
  exact ⟨r', e, hr', hto, he, horigin, hqueue, hbody, hreply, hresponse, (h.handled e he).1,
    h.silent d' w hw e he horigin⟩

/-- The program's own traffic, the hubs' commands included. -/
def HubTraffic (s : HubSystem ι) : HubLabel ι → Prop
  | .base l => OwnTraffic s.base l
  | .userCommand _ _ start => start.Fresh s.base
  | .waitCommand _ _ _ => True

instance (s : HubSystem ι) : (l : HubLabel ι) → Decidable (HubTraffic s l)
  | .base l => inferInstanceAs (Decidable (OwnTraffic s.base l))
  | .userCommand _ _ start => inferInstanceAs (Decidable (start.Fresh s.base))
  | .waitCommand _ _ _ => .isTrue trivial

theorem hubLegal_step (huid : ∀ d, cfg.uid d ≠ cfg.enrollQueue) (h : HubLegal cfg s)
    {l : HubLabel ι} (hown : HubTraffic s l) (hstep : (hubSystem cfg).step s l = some t) :
    HubLegal cfg t := by
  cases l with
  | base l => exact base_hubLegal h hown hstep
  | userCommand d cmd start => exact userCommand_hubLegal h hown hstep
  | waitCommand d failed fin =>
    obtain ⟨w, r, hw, hr, s₁, o, rfl, rfl | ⟨q, m, broker, hrec, rfl⟩⟩ := waitCommand_cases hstep
    · exact commandPass_hubLegal h hw
    · refine commandPass_hubLegal (logAnswer_hubLegal huid h hw hr hrec) ?_
      rcases logAnswer_cases { s with base := { s.base with broker } } d w.request
        r.correlationId m with hsame | ⟨-, hlogged⟩
      · rw [hsame]
        exact hw
      · rw [hlogged]
        exact hw

/-- In every run of the program's own traffic, hubs sending commands of their own among it, no
wait loop takes an answer that is not its request's, and what a hub takes for the answer to a
command another party has made of it. -/
theorem hub_answers_never_cross (cfg : Config ι) (huid : ∀ d, cfg.uid d ≠ cfg.enrollQueue)
    (ls : List (HubLabel ι)) (s : HubSystem ι)
    (hown : (hubSystem cfg).Along HubTraffic (.init cfg) ls)
    (hrun : (hubSystem cfg).run (.init cfg) ls = some s) :
    AnswersMatch cfg s.base ∧
      ∀ d k m, (d, k, m) ∈ s.answers → AnsweredElsewhere cfg s.base d k m := by
  have h : HubLegal cfg s := Machine.run_invariant (fun _ _ _ h => hubLegal_step huid h)
    hubLegal_init hown hrun
  exact ⟨⟨h.base.correlated.accepted huid, h.base.correlated.dispatched⟩, h.answers⟩

/-! ### A hub and an edge -/

def answeredHubCall (d : Bool) (a : NodeAction) (n : UInt8) : List (HubLabel Bool) :=
  [.base (.call d a (sentAs n)), .base (.deliver 0 .arbiter), .base .pumpArbiter,
    .base (.deliver 0 (.device d)), .base (.waitDevice d none .ok)]

def bothActivated : List (HubLabel Bool) :=
  answeredHubCall false (.enroll none) 0 ++ answeredHubCall false .activate 1 ++
    answeredHubCall true (.enroll none) 2 ++ answeredHubCall true .activate 3

def hubCommandRun : List (HubLabel Bool) :=
  bothActivated ++ [.userCommand true (commandTo (cstr "edge-1")) (sentAs 4),
    .base (.deliver 0 (.device false)), .base (.pumpDevice false (some (cstr "srt://edge-1"))),
    .base (.deliver 0 (.temp 4)), .waitCommand true none .ok]

theorem hub_answers_never_cross_command :
    ∃ s m, (hubSystem hubAndEdge).run (.init hubAndEdge) hubCommandRun = some s ∧
      (true, 4, m) ∈ s.answers ∧ AnsweredElsewhere hubAndEdge s.base true 4 m := by
  have hrun : ((hubSystem hubAndEdge).run (.init hubAndEdge) hubCommandRun).any (fun s =>
      s.answers.any fun a => a.1 && a.2.1 = 4) = true := by decide +kernel
  obtain ⟨s, hs, hany⟩ := (Option.any_eq_true ..).mp hrun
  obtain ⟨⟨d, k, m⟩, hanswer, hfacts⟩ := List.any_eq_true.mp hany
  simp only [Bool.and_eq_true, decide_eq_true_eq] at hfacts
  obtain ⟨rfl, rfl⟩ := hfacts
  have huid : ∀ d, hubAndEdge.uid d ≠ hubAndEdge.enrollQueue := by decide
  have hmatch := hub_answers_never_cross hubAndEdge huid hubCommandRun s (by decide +kernel) hs
  exact ⟨s, m, hs, hanswer, hmatch.2 true 4 m hanswer⟩

end Chamge
