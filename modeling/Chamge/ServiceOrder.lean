import Chamge.CommandDelivery
import Chamge.HubRefinement
import Chamge.Lib.Fifo

/-! The order in which the parties handle what is delivered to them: each connection is a
queue read from the front, and the arbiter skips nothing that asks for a reply. -/

namespace Chamge
open CString JsonGlib

variable {ι : Type} [DecidableEq ι] {cfg : Config ι} {s t : System ι} {d : ι} {c : ConnId ι}
  {start : Start} {fin : Finish}

/-- The connection as a queue: what has been delivered on it, what is unread, and what its
party's pump has handled. -/
def System.fifo (s : System ι) (c : ConnId ι) : Fifo (Bytes × Message) where
  arrived := (s.delivered.filter fun x => x.1 = c).map Prod.snd
  waiting := s.broker.inboxOf c
  served := (s.dispatched.filter fun e => e.responder.conn = c).map fun e => (e.queue, e.message)

/-- The message names a reply queue, has JSON content and a body. -/
def asksReply (p : Bytes × Message) : Bool := (replyAddress p.2.envelope).isSome

/-! ### Steps that handle nothing -/

/-- Nothing is delivered or handled, and messages are taken from the front of inboxes other
than the arbiter's. -/
structure Drains (s t : System ι) : Prop where
  delivered : t.delivered = s.delivered
  dispatched : t.dispatched = s.dispatched
  broker : s.broker.Drains .arbiter t.broker

theorem Drains.refl (s : System ι) : Drains s s := ⟨rfl, rfl, Broker.Drains.refl ..⟩

theorem Drains.trans {u : System ι} (h : Drains s t) (h' : Drains t u) : Drains s u :=
  ⟨h'.delivered.trans h.delivered, h'.dispatched.trans h.dispatched,
    h.broker.trans h'.broker⟩

theorem Drains.of_broker {broker : Broker (ConnId ι) Bytes Message}
    (h : s.broker.Drains .arbiter broker) : Drains s { s with broker } := ⟨rfl, rfl, h⟩

theorem Drains.arbiter (h : Drains s t) : t.fifo .arbiter = s.fifo .arbiter := by
  unfold System.fifo
  rw [h.delivered, h.dispatched, h.broker.kept]

theorem Drains.leads (h : Drains s t) (c : ConnId ι) : (s.fifo c).Leads (t.fifo c) := by
  have hskip := Fifo.leads_skip (f := s.fifo c) (h.broker.front c)
  have hsame : t.fifo c = { s.fifo c with waiting := t.broker.inboxOf c } := by
    unfold System.fifo
    rw [h.delivered, h.dispatched]
  rwa [hsame]

theorem startRequest_drains {who : Caller ι} {target body : Bytes} {w : Option ℕ}
    (h : s.startRequest who c target body start = some (t, w)) : Drains s t := by
  rcases startRequest_cases h with
    ⟨-, rfl | ⟨-, rfl⟩, -⟩ | ⟨cid, rq, -, ⟨-, -, rfl⟩ | ⟨-, -, rfl⟩⟩
  · exact Drains.refl _
  · exact .of_broker Broker.drains_cancel
  · exact ⟨rfl, rfl, Broker.drains_of_eq fun c' => by simp [System.send]⟩
  · exact ⟨rfl, rfl, Broker.drains_of_eq fun c' => by simp [System.send]⟩

theorem openFor_drains {method : BackendMethod} (h : s.openFor d method start = some (t, c)) :
    Drains s t := by
  rcases openFor_cases h with ⟨-, -, rfl⟩ | ⟨-, -, -, rfl⟩ | ⟨-, -, rfl⟩
  · exact Drains.refl _
  · exact ⟨rfl, rfl, Broker.drains_of_eq fun _ => rfl⟩
  · exact .of_broker (Broker.drains_of_eq fun _ => rfl)

theorem subscribe_drains {ret : ChamgeReturn} (h : s.subscribe cfg d fin = some (t, ret)) :
    Drains s t := by
  rcases subscribe_cases h with ⟨-, rfl | ⟨-, rfl⟩ | ⟨-, rfl⟩⟩ | ⟨-, -, -, rfl⟩
  · exact Drains.refl _
  · exact .of_broker Broker.drains_cancel
  · exact .of_broker (Broker.drains_of_eq fun c' => Broker.inboxOf_declare)
  · exact .of_broker (Broker.drains_of_eq fun c' => by simp)

theorem closeLink_drains (hc : c ≠ .arbiter) : Drains s (s.closeLink c fin) := by
  cases fin with
  | ok => exact .of_broker (Broker.drains_close hc.symm)
  | failed => exact Drains.refl _
  | partly => exact .of_broker Broker.drains_cancel

theorem finishCall_drains {w : NodeAction × BackendMethod} {ret : ChamgeReturn} :
    Drains s (s.finishCall cfg d w ret) := by
  refine ⟨by rw [finishCall_frame], by rw [finishCall_frame], ?_⟩
  rw [finishCall_broker]
  split_ifs
  · exact Broker.drains_close (by simp)
  · exact Broker.Drains.refl ..

theorem endWait_drains {w : DeviceWait} {r : Request ι} {response : Option Bytes}
    (hc : r.conn ≠ .arbiter) (h : s.endWait cfg d w r response fin = some t) : Drains s t := by
  rcases endWait_cases h with ⟨-, rfl⟩ | ⟨ret, -, -, rfl⟩ | ⟨-, ⟨-, rfl⟩ | ⟨-, ret, -, rfl⟩ |
    ⟨-, s₁, ret, hsub, rfl⟩⟩
  · have hown : s.broker.Drains .arbiter (s.broker.close (.device d)) :=
      Broker.drains_close (by simp)
    exact ⟨rfl, rfl, hown.trans (Broker.drains_closeAll (not_mem_linksOf nofun))⟩
  · exact finishCall_drains
  · exact finishCall_drains
  · exact (closeLink_drains hc).trans finishCall_drains
  · have hsubscribed : Drains s s₁ := subscribe_drains hsub
    exact hsubscribed.trans ⟨rfl, rfl, Broker.Drains.refl ..⟩

theorem waitPass_drains {w : DeviceWait} {r : Request ι} {o : ConsumeOutcome}
    (hc : r.conn ≠ .arbiter) (h : s.waitPass cfg d w r o fin = some t) : Drains s t := by
  rcases waitPass_cases h with ⟨-, rfl⟩ | ⟨_, -, hend⟩ | ⟨_, -, -, hend⟩
  · exact ⟨rfl, rfl, Broker.Drains.refl ..⟩
  · exact endWait_drains hc hend
  · exact endWait_drains hc hend

omit [DecidableEq ι] in
/-- No request goes out on the arbiter's own connection. -/
theorem request_conn (h : Shaped cfg s) {k : ℕ} {r : Request ι} (hr : s.requests[k]? = some r) :
    r.conn ≠ .arbiter := by
  rcases h.linked k r hr with hconn | ⟨d, hconn, -⟩
  · simp [hconn]
  · simp [hconn]

/-! ### Steps that handle a message -/

/-- A pump takes the first unread message of its connection, and handles it if it asks for a
reply. -/
structure Pumps (c : ConnId ι) (p : Bytes × Message) (s t : System ι) : Prop where
  arrived : (t.fifo c).arrived = (s.fifo c).arrived
  waiting : (s.fifo c).waiting = p :: (t.fifo c).waiting
  served : (t.fifo c).served = (s.fifo c).served ++ [p].filter asksReply
  elsewhere : ∀ c', c' ≠ c → t.fifo c' = s.fifo c'

theorem pumps_of_receive (rs : Responder ι) {q : Bytes} {m : Message}
    {broker : Broker (ConnId ι) Bytes Message}
    (hrec : s.broker.receive rs.conn = some (q, m, broker))
    (hdelivered : t.delivered = s.delivered)
    (hinbox : ∀ c', t.broker.inboxOf c' = broker.inboxOf c')
    (hdispatched : t.dispatched = s.dispatched ++
      if asksReply (q, m) then [⟨q, m, rs⟩] else []) : Pumps rs.conn (q, m) s t := by
  have hserved : ∀ c', (t.fifo c').served = (s.fifo c').served ++
      if c' = rs.conn then [(q, m)].filter asksReply else [] := by
    intro c'
    simp only [System.fifo, hdispatched, List.filter_append, List.map_append]
    congr 1
    cases hasks : asksReply (q, m) with
    | false => simp [hasks]
    | true =>
      by_cases hc : c' = rs.conn
      · simp [hasks, hc]
      · simp [hc, Ne.symm hc]
  refine ⟨?_, ?_, ?_, fun c' hc => ?_⟩
  · simp only [System.fifo, hdelivered]
  · simp only [System.fifo, hinbox]
    exact Broker.inboxOf_receive_self hrec
  · rw [hserved, if_pos rfl]
  · have hnone := hserved c'
    rw [if_neg hc, List.append_nil] at hnone
    simp only [System.fifo] at hnone ⊢
    rw [hdelivered, hnone, hinbox, Broker.inboxOf_receive_ne hrec hc]

theorem Pumps.leads {p : Bytes × Message} (h : Pumps c p s t) (c' : ConnId ι) :
    (s.fifo c').Leads (t.fifo c') := by
  by_cases hc : c' = c
  · subst hc
    have htake := Fifo.leads_take (asksReply p) h.waiting
    have hfilter : [p].filter asksReply = if asksReply p then [p] else [] := by
      rw [List.filter_cons, List.filter_nil]
    have hsame : t.fifo c' = { s.fifo c' with
        waiting := (t.fifo c').waiting
        served := (s.fifo c').served ++ if asksReply p then [p] else [] } :=
      Fifo.ext h.arrived rfl (hfilter ▸ h.served)
    rwa [hsame]
  · rw [h.elsewhere c' hc]
    exact Fifo.Leads.refl _

theorem pumpDevice_pumps {answer : Option Bytes} (h : s.pumpDevice cfg d answer = some t) :
    ∃ p, Pumps (.device d) p s t := by
  obtain ⟨-, -, q, m, broker, hrec, ⟨hnone, rfl⟩ | ⟨address, lost, hsome, -, rfl⟩⟩ :=
    pumpDevice_cases h
  · refine ⟨(q, m), pumps_of_receive (.device d answer) hrec rfl (fun _ => rfl) ?_⟩
    rw [if_neg (by simp [asksReply, hnone]), List.append_nil]
    rfl
  · refine ⟨(q, m), pumps_of_receive (.device d answer) hrec ?_ (fun c' => ?_) ?_⟩
    · rw [dispatch_frame]
    · rw [dispatch_inbox]
    · rw [if_pos (by simp [asksReply, hsome]), dispatch_frame]

theorem pumpArbiter_pumps (h : s.pumpArbiter cfg = some t) : ∃ p, Pumps .arbiter p s t := by
  obtain ⟨-, q, m, broker, hrec, ⟨hnone, rfl⟩ | ⟨address, hsome, rfl⟩⟩ := pumpArbiter_cases h
  · refine ⟨(q, m), pumps_of_receive (.arbiter s.agent) hrec rfl (fun _ => rfl) ?_⟩
    rw [if_neg (by simp [asksReply, hnone]), List.append_nil]
  · refine ⟨(q, m), pumps_of_receive (.arbiter s.agent) hrec ?_ (fun c' => ?_) ?_⟩
    · rw [dispatch_frame]
    · rw [dispatch_inbox]
    · rw [if_pos (by simp [asksReply, hsome]), dispatch_frame]

/-- The step takes nothing from the arbiter, whatever it brings. -/
def Brings (s t : System ι) : Prop :=
  ∃ new, t.fifo .arbiter = { s.fifo .arbiter with
    arrived := (s.fifo .arbiter).arrived ++ new, waiting := (s.fifo .arbiter).waiting ++ new }

theorem brings_of_eq (h : t.fifo .arbiter = s.fifo .arbiter) : Brings s t := by
  refine ⟨[], ?_⟩
  rw [h, List.append_nil, List.append_nil]

theorem deliver_serves {i : ℕ} (h : s.deliver i c = some t) :
    (∀ c, (s.fifo c).Leads (t.fifo c)) ∧ Brings s t := by
  obtain ⟨q, m, broker, hb, rfl⟩ := deliver_cases h
  have hfifo : ∀ c', System.fifo { s with broker, delivered := s.delivered ++ [(c, q, m)] } c' =
      { s.fifo c' with
        arrived := (s.fifo c').arrived ++ if c = c' then [(q, m)] else []
        waiting := (s.fifo c').waiting ++ if c = c' then [(q, m)] else [] } := by
    intro c'
    simp only [System.fifo, List.filter_append, List.map_append, Broker.inboxOf_deliver hb]
    congr 2
    by_cases hc : c = c'
    · simp [hc]
    · simp [hc]
  refine ⟨fun c' => ?_, _, hfifo .arbiter⟩
  · rw [hfifo]
    by_cases hc : c = c'
    · rw [if_pos hc]
      exact Fifo.leads_arrive
    · rw [if_neg hc, List.append_nil, List.append_nil]
      exact Fifo.Leads.refl _

/-! ### Runs -/

def Label.isPumpArbiter : Label ι → Bool
  | .pumpArbiter => true
  | .call _ _ _ | .waitDevice _ _ _ | .pumpDevice _ _ | .userCommand _ _ | .waitArbiter _ _
  | .deliver _ _ | .lose _ | .post _ _ _ => false

/-- What a step of the system does to the queues; only the arbiter's pump takes from its. -/
theorem step_serves {l : Label ι} (hshape : Shaped cfg s) (h : (system cfg).step s l = some t) :
    (∀ c, (s.fifo c).Leads (t.fifo c)) ∧
      if l.isPumpArbiter then ∃ p, Pumps .arbiter p s t else Brings s t := by
  have hquiet : Drains s t → (∀ c, (s.fifo c).Leads (t.fifo c)) ∧ Brings s t :=
    fun hd => ⟨hd.leads, brings_of_eq hd.arbiter⟩
  cases l with
  | call d a start =>
    obtain ⟨-, ⟨-, rfl⟩ | ⟨-, rfl⟩ | ⟨method, s₁, c, s₂, w, -, -, hfor, hstart, hw⟩⟩ :=
      call_cases h
    · exact hquiet ⟨rfl, rfl, Broker.Drains.refl ..⟩
    · exact hquiet ⟨rfl, rfl, Broker.Drains.refl ..⟩
    have hsent : Drains s s₂ := (openFor_drains hfor).trans (startRequest_drains hstart)
    rcases hw with ⟨-, rfl⟩ | ⟨k, -, rfl⟩
    · exact hquiet (hsent.trans finishCall_drains)
    · exact hquiet (hsent.trans ⟨rfl, rfl, Broker.Drains.refl ..⟩)
  | userCommand cmd start =>
    obtain ⟨-, ⟨-, rfl⟩ | ⟨target, s₂, w, -, hstart, rfl⟩⟩ := userCommand_cases h
    · exact hquiet (Drains.refl _)
    · have hopened : Drains s { s with broker := s.broker.connect (.temp s.requests.length) } :=
        .of_broker (Broker.drains_of_eq fun _ => rfl)
      have hsent := hopened.trans (startRequest_drains hstart)
      exact hquiet (hsent.trans ⟨rfl, rfl, Broker.Drains.refl ..⟩)
  | waitDevice d failed fin =>
    obtain ⟨w, r, -, hr, ⟨reply, -, -, hpass⟩ | ⟨q, m, broker, -, hrec, hpass⟩⟩ :=
      waitDevice_cases h
    · exact hquiet (waitPass_drains (request_conn hshape hr) hpass)
    · have hconn : r.conn ≠ .arbiter := request_conn hshape hr
      rw [logAccepted_frame] at hpass
      have hreceived : s.broker.Drains .arbiter broker := Broker.drains_receive hconn.symm hrec
      have hlater := waitPass_drains hconn hpass
      exact hquiet ⟨hlater.delivered, hlater.dispatched, hreceived.trans hlater.broker⟩
  | waitArbiter failed fin =>
    obtain ⟨k, r, -, hr, s₁, hs₁, ht⟩ := waitArbiter_cases h
    have hconn : r.conn ≠ .arbiter := request_conn hshape hr
    have hreceived : Drains s s₁ := by
      rcases hs₁ with rfl | ⟨q, m, broker, hrec, rfl⟩
      · exact Drains.refl _
      · rw [logAccepted_frame]
        exact ⟨rfl, rfl, Broker.drains_receive hconn.symm hrec⟩
    rcases ht with rfl | rfl
    · exact hquiet hreceived
    · have hclosed : Drains s (s₁.closeLink r.conn fin) :=
        hreceived.trans (closeLink_drains hconn)
      exact hquiet (hclosed.trans ⟨rfl, rfl, Broker.Drains.refl ..⟩)
  | pumpDevice d answer =>
    obtain ⟨p, hp⟩ := pumpDevice_pumps h
    exact ⟨hp.leads, brings_of_eq (hp.elsewhere .arbiter (by simp))⟩
  | pumpArbiter =>
    obtain ⟨p, hp⟩ := pumpArbiter_pumps h
    exact ⟨hp.leads, p, hp⟩
  | deliver i c =>
    exact deliver_serves h
  | lose i =>
    obtain ⟨broker, hb, rfl⟩ := Option.map_eq_some_iff.mp h
    exact hquiet (.of_broker (Broker.drains_of_eq fun _ => Broker.inboxOf_lose hb))
  | post q properties body =>
    obtain rfl := Option.some.inj h
    exact hquiet (.of_broker (Broker.drains_of_eq fun _ => Broker.inboxOf_post))

section hub
variable {v w : HubSystem ι}

def HubLabel.isPumpArbiter : HubLabel ι → Bool
  | .base l => l.isPumpArbiter
  | .userCommand _ _ _ | .waitCommand _ _ _ => false

theorem userCommand_drains {cmd : Bytes} (h : v.userCommand cfg d cmd start = some w) :
    Drains v.base w.base := by
  obtain ⟨-, -, -, ⟨rfl, -⟩ | ⟨target, base, k, -, -, -, hstart, rfl⟩⟩ := hubCommand_cases h
  · exact Drains.refl _
  · have hopened : Drains v.base v.openCommand := .of_broker (Broker.drains_of_eq fun _ => rfl)
    exact hopened.trans (startRequest_drains hstart)

theorem waitCommand_drains {failed : Option AmqpRpcReply} (hshape : Shaped cfg v.base)
    (h : v.waitCommand d failed fin = some w) : Drains v.base w.base := by
  obtain ⟨wait, r, -, hr, s₁, o, rfl, hfrom⟩ := waitCommand_cases h
  have hconn : r.conn ≠ .arbiter := request_conn hshape hr
  have hreceived : Drains v.base s₁.base := by
    rcases hfrom with rfl | ⟨q, m, broker, hrec, rfl⟩
    · exact Drains.refl _
    have hbroker : v.base.broker.Drains .arbiter broker :=
      Broker.drains_receive hconn.symm hrec
    rcases logAnswer_cases { v with base := { v.base with broker } } d wait.request
      r.correlationId m with hsame | ⟨-, hlogged⟩
    · rw [hsame]
      exact .of_broker hbroker
    · rw [hlogged, logAccepted_frame]
      exact ⟨rfl, rfl, hbroker⟩
  rcases commandPass_loop s₁ d wait r o fin with ⟨-, hpass⟩ | ⟨x, -, hpass⟩
  · rw [hpass]
    exact hreceived
  · rw [hpass]
    exact hreceived.trans (closeLink_drains hconn)

theorem hubStep_serves {l : HubLabel ι} (hshape : Shaped cfg v.base)
    (h : (hubSystem cfg).step v l = some w) :
    (∀ c, (v.base.fifo c).Leads (w.base.fifo c)) ∧
      if l.isPumpArbiter then ∃ p, Pumps .arbiter p v.base w.base else Brings v.base w.base := by
  cases l with
  | base l =>
    obtain ⟨-, base, hbase, rfl⟩ := base_cases h
    exact step_serves hshape hbase
  | userCommand e cmd start =>
    have hd := userCommand_drains h
    exact ⟨hd.leads, brings_of_eq hd.arbiter⟩
  | waitCommand e failed fin =>
    have hd := waitCommand_drains hshape h
    exact ⟨hd.leads, brings_of_eq hd.arbiter⟩

theorem prompt_step {l : HubLabel ι} {n : ℕ} (hshape : Shaped cfg v.base)
    (hn : (v.base.fifo .arbiter).Prompt asksReply n) (h : (hubSystem cfg).step v l = some w) :
    (w.base.fifo .arbiter).Prompt asksReply (n + if l.isPumpArbiter then 1 else 0) := by
  have hserves := (hubStep_serves hshape h).2
  cases hl : l.isPumpArbiter with
  | true =>
    rw [hl, if_pos rfl] at hserves
    obtain ⟨p, hp⟩ := hserves
    exact hn.take hp.waiting hp.arrived hp.served
  | false =>
    rw [hl, if_neg Bool.false_ne_true] at hserves
    obtain ⟨new, hnew⟩ := hserves
    refine hn.arrive new ?_ ?_ ?_ <;> rw [hnew]

end hub

/-- In every run, with the hubs' commands too, the arbiter has handled of its first deliveries,
one for each turn of its pump, those that ask for a reply, in their order; none waits longer
than for the deliveries before it. A device has handled what it has in the order of delivery,
and all of it came before what is still unread there. -/
theorem served_in_order (cfg : Config ι) (ls : List (HubLabel ι)) (s : HubSystem ι)
    (hrun : (hubSystem cfg).run (.init cfg) ls = some s) :
    (s.base.fifo .arbiter).Prompt asksReply (ls.countP HubLabel.isPumpArbiter) ∧
      (∀ (i : ℕ) p, (s.base.fifo .arbiter).arrived[i]? = some p → asksReply p = true →
        i < ls.countP HubLabel.isPumpArbiter → p ∈ (s.base.fifo .arbiter).served) ∧
      ∀ d, (s.base.fifo (.device d)).Ordered := by
  have hprompt : Shaped cfg s.base ∧ (s.base.fifo .arbiter).Prompt asksReply
      (0 + ls.countP HubLabel.isPumpArbiter) := by
    apply Machine.run_counted (I := fun n (v : HubSystem ι) => Shaped cfg v.base ∧
      (v.base.fifo .arbiter).Prompt asksReply n) _ _ hrun
    · intro n v l w hv hstep
      exact ⟨hubShaped_step hv.1 hstep, prompt_step hv.1 hv.2 hstep⟩
    · exact ⟨shaped_init, Nat.zero_le _, rfl, rfl⟩
  rw [Nat.zero_add] at hprompt
  refine ⟨hprompt.2, fun i p hp hasks hi => hprompt.2.mem_served hp hasks hi, fun d => ?_⟩
  have hordered : Shaped cfg s.base ∧ (s.base.fifo (.device d)).Ordered := by
    apply Machine.Reachable.invariant (M := hubSystem cfg) (I := fun v : HubSystem ι =>
      Shaped cfg v.base ∧ (v.base.fifo (.device d)).Ordered) _ _ ⟨ls, hrun⟩
    · intro v l w hv hstep
      exact ⟨hubShaped_step hv.1 hstep,
        ((hubStep_serves hv.1 hstep).1 (.device d)).ordered hv.2⟩
    · exact ⟨shaped_init, List.Sublist.refl _⟩
  exact hordered.2

/-- A hub and an edge enroll, and their requests reach the arbiter the other way round, with a
message between them that asks for no reply. -/
def crossedEnrolls : List (HubLabel Bool) :=
  [.base (.call true (.enroll none) (sentAs 0)), .base (.call false (.enroll none) (sentAs 1)),
    .base (.post hubAndEdge.enrollQueue (replyProperties none) (cstr "hello")),
    .base (.deliver 1 .arbiter), .base (.deliver 1 .arbiter), .base (.deliver 0 .arbiter),
    .base .pumpArbiter, .base .pumpArbiter]

theorem served_in_order_crossed :
    ∃ s, (hubSystem hubAndEdge).run (.init hubAndEdge) crossedEnrolls = some s ∧
      (s.base.fifo .arbiter).arrived.length = 3 ∧ (s.base.fifo .arbiter).served.length = 1 ∧
      (s.base.fifo .arbiter).Prompt asksReply 2 := by
  have hrun : ((hubSystem hubAndEdge).run (.init hubAndEdge) crossedEnrolls).any (fun s =>
      (s.base.fifo .arbiter).arrived.length = 3 ∧ (s.base.fifo .arbiter).served.length = 1) =
        true := by decide +kernel
  obtain ⟨s, hs, hlengths⟩ := (Option.any_eq_true ..).mp hrun
  obtain ⟨harrived, hserved⟩ := of_decide_eq_true hlengths
  exact ⟨s, hs, harrived, hserved, (served_in_order hubAndEdge crossedEnrolls s hs).1⟩

end Chamge
