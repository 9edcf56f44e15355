import Chamge.History

/-! How often a request is handled, how often it is answered, and how often an answer is
taken, over all runs: foreign messages, losses and time-outs included. -/

namespace Chamge
open CString JsonGlib

variable {ι : Type} [DecidableEq ι] {cfg : Config ι} {s t u : System ι} {d : ι}

/-! ### Messages by their origin -/

def System.onTheWay (s : System ι) (o : Origin) : ℕ := s.broker.countOf Message.origin o

/-- How many messages of the origin the pumps have given to a `_process_json_message`. -/
def System.handled (s : System ι) (o : Origin) : ℕ :=
  (s.dispatched.map fun e => e.message.origin).count o

def System.taken (s : System ι) (o : Origin) : ℕ := (s.accepted.map fun a => a.2.origin).count o

def System.total (s : System ι) (o : Origin) : ℕ := s.onTheWay o + s.handled o + s.taken o

def Origin.isRequest : Origin → Bool
  | request _ => true
  | reply _ | foreign => false

/-- What a step has published, and what it has handed to a `_process_json_message`. -/
structure Traffic (s t : System ι) (published handed : List Origin) : Prop where
  total : ∀ o, t.total o ≤ s.total o + published.count o
  handled : ∀ o, t.handled o = s.handled o + handed.count o
  requests : t.requests.length = s.requests.length + published.countP Origin.isRequest

omit [DecidableEq ι] in
theorem Traffic.trans {p p' h h' : List Origin} (hst : Traffic s t p h)
    (htu : Traffic t u p' h') : Traffic s u (p ++ p') (h ++ h') := by
  refine ⟨fun o => ?_, fun o => ?_, ?_⟩
  · have hs := hst.total o
    have ht := htu.total o
    rw [List.count_append]
    omega
  · rw [htu.handled, hst.handled, List.count_append, Nat.add_assoc]
  · rw [htu.requests, hst.requests, List.countP_append, Nat.add_assoc]

omit [DecidableEq ι] in
theorem Traffic.of_broker {p : List Origin} (hreq : t.requests = s.requests)
    (hdis : t.dispatched = s.dispatched) (hacc : t.accepted = s.accepted)
    (hp : p.countP Origin.isRequest = 0)
    (hmsg : ∀ o, t.onTheWay o ≤ s.onTheWay o + p.count o) : Traffic s t p [] := by
  have hhandled : ∀ o, t.handled o = s.handled o := fun o => by
    rw [System.handled, System.handled, hdis]
  refine ⟨fun o => ?_, fun o => ?_, ?_⟩
  · have htaken : t.taken o = s.taken o := by rw [System.taken, System.taken, hacc]
    have hway := hmsg o
    rw [System.total, System.total, hhandled, htaken]
    omega
  · rw [hhandled, List.count_nil, Nat.add_zero]
  · rw [hreq, hp, Nat.add_zero]

theorem Traffic.quiet (hreq : t.requests = s.requests) (hdis : t.dispatched = s.dispatched)
    (hacc : t.accepted = s.accepted) (hmsg : t.broker.messages.Sublist s.broker.messages) :
    Traffic s t [] [] :=
  .of_broker hreq hdis hacc rfl fun o => Broker.countOf_le _ o hmsg

theorem Traffic.refl (s : System ι) : Traffic s s [] [] :=
  .quiet rfl rfl rfl (List.Sublist.refl _)

theorem send_traffic {who : Caller ι} {c : ConnId ι} {target body cid rq : Bytes} :
    Traffic s (s.send who c target body cid rq) [.request s.requests.length] [] := by
  refine ⟨fun o => ?_, fun o => rfl, ?_⟩
  · have hpub := Broker.countOf_publish (b := s.broker.declare rq) (c := c) (q := target)
      (m := ⟨requestProperties rq cid, body, .request s.requests.length⟩) Message.origin o
    have hdeclare : (s.broker.declare rq).countOf Message.origin o =
        s.broker.countOf Message.origin o := Broker.countOf_eq _ o Broker.declare_messages
    rw [hdeclare] at hpub
    rw [List.count_singleton]
    simp only [beq_iff_eq]
    have hway : (s.send who c target body cid rq).onTheWay o ≤
      s.onTheWay o + if Origin.request s.requests.length = o then 1 else 0 := hpub
    simp only [System.total]
    have hhandled : (s.send who c target body cid rq).handled o = s.handled o := rfl
    have htaken : (s.send who c target body cid rq).taken o = s.taken o := rfl
    omega
  · simp [System.send, Origin.isRequest]

/-! ### The parts of a step -/

theorem startRequest_traffic {who : Caller ι} {c : ConnId ι} {target body : Bytes} {start : Start}
    {w : Option ℕ} (h : s.startRequest who c target body start = some (t, w)) :
    Traffic s t [] [] ∨ Traffic s t [.request s.requests.length] [] := by
  rcases startRequest_cases h with
    ⟨-, rfl | ⟨-, rfl⟩, -⟩ | ⟨cid, rq, -, ⟨-, -, rfl⟩ | ⟨-, -, rfl⟩⟩
  · exact Or.inl (.refl _)
  · exact Or.inl (.quiet rfl rfl rfl Broker.within_cancel.messages)
  · exact Or.inr send_traffic
  · have hsubscribed : Traffic (s.send who c target body cid rq)
        { s.send who c target body cid rq with
          broker := (s.send who c target body cid rq).broker.subscribe rq c } [] [] :=
      .quiet rfl rfl rfl (List.Sublist.refl _)
    exact Or.inr (send_traffic.trans hsubscribed)

theorem finishCall_traffic {w : NodeAction × BackendMethod} {r : ChamgeReturn} :
    Traffic s (s.finishCall cfg d w r) [] [] := by
  apply Traffic.quiet finishCall_requests (by rw [finishCall_frame]) (by rw [finishCall_frame])
  rw [finishCall_broker]
  split_ifs
  · exact Broker.within_close.messages
  · exact List.Sublist.refl _

theorem closeLink_traffic {c : ConnId ι} {fin : Finish} :
    Traffic s (s.closeLink c fin) [] [] := by
  cases fin with
  | ok => exact .quiet rfl rfl rfl Broker.within_close.messages
  | failed => exact .refl _
  | partly => exact .quiet rfl rfl rfl Broker.within_cancel.messages

theorem openFor_traffic {method : BackendMethod} {start : Start} {c : ConnId ι}
    (h : s.openFor d method start = some (t, c)) : Traffic s t [] [] := by
  rcases openFor_cases h with ⟨-, -, rfl⟩ | ⟨-, -, -, rfl⟩ | ⟨-, -, rfl⟩
  · exact .refl _
  · exact .quiet rfl rfl rfl (List.Sublist.refl _)
  · exact .quiet rfl rfl rfl (List.Sublist.refl _)

theorem setDevice_traffic {dev : Device} : Traffic s (s.setDevice d dev) [] [] :=
  .quiet rfl rfl rfl (List.Sublist.refl _)

theorem endWait_traffic {w : DeviceWait} {r : Request ι} {response : Option Bytes}
    {fin : Finish} (h : s.endWait cfg d w r response fin = some t) : Traffic s t [] [] := by
  rcases endWait_cases h with ⟨-, rfl⟩ | ⟨ret, -, -, rfl⟩ | ⟨-, ⟨-, rfl⟩ | ⟨-, ret, -, rfl⟩ |
    ⟨-, s₁, ret, hsub, rfl⟩⟩
  · exact .quiet rfl rfl rfl (Broker.within_closeAll.trans Broker.within_close).messages
  · exact finishCall_traffic
  · exact finishCall_traffic
  · exact closeLink_traffic.trans finishCall_traffic
  · have hsubscribed : Traffic s s₁ [] [] := by
      rcases subscribe_cases hsub with ⟨-, rfl | ⟨-, rfl⟩ | ⟨-, rfl⟩⟩ | ⟨-, -, -, rfl⟩
      · exact .refl _
      · exact .quiet rfl rfl rfl Broker.within_cancel.messages
      · exact .quiet rfl rfl rfl Broker.within_declare.messages
      · exact .quiet rfl rfl rfl (Broker.within_declare (b := s.broker)).messages
    exact hsubscribed.trans setDevice_traffic

theorem waitPass_traffic {w : DeviceWait} {r : Request ι} {o : ConsumeOutcome} {fin : Finish}
    (h : s.waitPass cfg d w r o fin = some t) : Traffic s t [] [] := by
  rcases waitPass_cases h with ⟨-, rfl⟩ | ⟨e, -, hend⟩ | ⟨x, -, -, hend⟩
  · exact setDevice_traffic
  · exact endWait_traffic hend
  · exact endWait_traffic hend

section receive
variable {c : ConnId ι} {q : Bytes} {m : Message} {broker : Broker (ConnId ι) Bytes Message}
  (hrec : s.broker.receive c = some (q, m, broker))
include hrec

/-- A wait loop takes a message off its connection, for the answer or not. -/
theorem logAccepted_traffic {k : ℕ} {cid : Bytes} {lost : List (Lost ι)} :
    Traffic s (System.logAccepted { s with broker, lost } k cid m) [] [] := by
  have hway := Broker.countOf_receive Message.origin (h := hrec)
  unfold System.logAccepted
  split
  · refine ⟨fun o => ?_, fun o => rfl, rfl⟩
    have hcount := hway o
    simp only [System.total, System.onTheWay, System.handled, System.taken, List.map_append,
      List.map_cons, List.map_nil, List.count_append, List.count_singleton, beq_iff_eq,
      List.count_nil, hcount]
    omega
  · exact .quiet rfl rfl rfl (Broker.within_receive hrec).messages

/-- A pump takes a message off its connection, gives it to its handler, and answers it. -/
theorem dispatch_traffic {address : ReplyAddress} {responder : Responder ι}
    {lost : List (Lost ι)} {agent : ArbiterAgent} :
    Traffic s (System.dispatch cfg { s with broker, lost, agent } c address ⟨q, m, responder⟩)
      [m.origin.answer] [m.origin] := by
  have hanswer : ∀ o, (System.dispatch cfg { s with broker, lost, agent } c address
      ⟨q, m, responder⟩).onTheWay o ≤
        broker.countOf Message.origin o + if m.origin.answer = o then 1 else 0 := by
    intro o
    unfold System.dispatch System.answer System.onTheWay
    split
    · exact Broker.countOf_publish Message.origin o
    · exact (Broker.within_cancel.countOf_le _ o).trans (Nat.le_add_right ..)
  have hhandled : ∀ o, (System.dispatch cfg { s with broker, lost, agent } c address
      ⟨q, m, responder⟩).handled o = s.handled o + if m.origin = o then 1 else 0 := by
    intro o
    rw [dispatch_frame]
    simp only [System.handled, List.map_append, List.map_cons, List.map_nil, List.count_append,
      List.count_singleton, beq_iff_eq]
  refine ⟨fun o => ?_, fun o => ?_, ?_⟩
  · have htaken : (System.dispatch cfg { s with broker, lost, agent } c address
        ⟨q, m, responder⟩).taken o = s.taken o := by rw [dispatch_frame]; rfl
    have hway := Broker.countOf_receive Message.origin o hrec
    have hon := hanswer o
    rw [System.total, System.total, hhandled, htaken, List.count_singleton]
    simp only [beq_iff_eq, System.onTheWay] at hon hway ⊢
    omega
  · rw [hhandled, List.count_singleton]
    simp only [beq_iff_eq]
  · rw [dispatch_frame]
    cases m.origin <;> rfl

end receive

/-! ### Steps -/

/-- The step publishes the next request, the answer to what it has handed on, a foreign
message, or nothing. -/
inductive Publishes (s t : System ι) : Prop
  | quiet (h : Traffic s t [] [])
  | sends (h : Traffic s t [.request s.requests.length] [])
  | answers (o : Origin) (h : Traffic s t [o.answer] [o])
  | posts (h : Traffic s t [.foreign] [])

theorem call_publishes {a : NodeAction} {start : Start} (h : s.call cfg d a start = some t) :
    Publishes s t := by
  obtain ⟨-, ⟨-, rfl⟩ | ⟨-, rfl⟩ | ⟨method, s₁, c, s₂, w, -, -, hopen, hstart, hw⟩⟩ :=
    call_cases h
  · exact .quiet setDevice_traffic
  · exact .quiet setDevice_traffic
  have hfirst : Traffic s s₁ [] [] := openFor_traffic hopen
  have hlast : Traffic s₂ t [] [] := by
    rcases hw with ⟨-, rfl⟩ | ⟨k, -, rfl⟩
    · exact finishCall_traffic
    · exact setDevice_traffic
  have hlen : s₁.requests.length = s.requests.length := hfirst.requests
  rcases startRequest_traffic hstart with hmid | hmid
  · exact .quiet ((hfirst.trans hmid).trans hlast)
  · rw [hlen] at hmid
    exact .sends ((hfirst.trans hmid).trans hlast)

theorem userCommand_publishes {cmd : Bytes} {start : Start}
    (h : s.userCommand cfg cmd start = some t) : Publishes s t := by
  obtain ⟨-, ⟨-, rfl⟩ | ⟨target, s₂, w, -, hstart, rfl⟩⟩ := userCommand_cases h
  · exact .quiet (.refl _)
  have hfirst : Traffic s { s with broker := s.broker.connect (.temp s.requests.length) }
    [] [] := .quiet rfl rfl rfl (List.Sublist.refl _)
  have hlast : Traffic s₂ { s₂ with arbiterWait := w } [] [] :=
    .quiet rfl rfl rfl (List.Sublist.refl _)
  rcases startRequest_traffic hstart with hmid | hmid
  · exact .quiet ((hfirst.trans hmid).trans hlast)
  · exact .sends ((hfirst.trans hmid).trans hlast)

theorem waitArbiter_publishes {failed : Option AmqpRpcReply} {fin : Finish}
    (h : s.waitArbiter failed fin = some t) : Publishes s t := by
  obtain ⟨k, r, -, -, s₁, hs₁, ht⟩ := waitArbiter_cases h
  have hfirst : Traffic s s₁ [] [] := by
    rcases hs₁ with rfl | ⟨q, m, broker, hrec, rfl⟩
    · exact .refl _
    · exact logAccepted_traffic hrec
  rcases ht with rfl | rfl
  · exact .quiet hfirst
  · have hlast : Traffic (s₁.closeLink r.conn fin)
        { s₁.closeLink r.conn fin with arbiterWait := none } [] [] :=
      .quiet rfl rfl rfl (List.Sublist.refl _)
    exact .quiet ((hfirst.trans closeLink_traffic).trans hlast)

theorem system_publishes {l : Label ι} (h : (system cfg).step s l = some t) : Publishes s t := by
  cases l with
  | call d a start => exact call_publishes h
  | userCommand cmd start => exact userCommand_publishes h
  | waitArbiter failed fin => exact waitArbiter_publishes h
  | waitDevice d failed fin =>
    obtain ⟨w, r, -, -, ⟨reply, -, -, hpass⟩ | ⟨q, m, broker, -, hrec, hpass⟩⟩ :=
      waitDevice_cases h
    · exact .quiet (waitPass_traffic hpass)
    · exact .quiet ((logAccepted_traffic hrec).trans (waitPass_traffic hpass))
  | pumpDevice d answer =>
    obtain ⟨-, -, q, m, broker, hrec, ⟨-, rfl⟩ | ⟨address, lost, -, -, rfl⟩⟩ :=
      pumpDevice_cases h
    · exact .quiet (.quiet rfl rfl rfl (Broker.within_receive hrec).messages)
    · exact .answers m.origin (dispatch_traffic hrec)
  | pumpArbiter =>
    obtain ⟨-, q, m, broker, hrec, ⟨-, rfl⟩ | ⟨address, -, rfl⟩⟩ := pumpArbiter_cases h
    · exact .quiet (.quiet rfl rfl rfl (Broker.within_receive hrec).messages)
    · exact .answers m.origin (dispatch_traffic hrec)
  | deliver i c =>
    obtain ⟨q, m, broker, hb, rfl⟩ := deliver_cases h
    have hway : ∀ o, broker.countOf Message.origin o = s.broker.countOf Message.origin o :=
      fun o => Broker.countOf_deliver Message.origin o hb
    exact .quiet (.of_broker rfl rfl rfl rfl fun o => (hway o).le)
  | lose i =>
    obtain ⟨broker, hb, rfl⟩ := Option.map_eq_some_iff.mp h
    exact .quiet (.quiet rfl rfl rfl (Broker.within_lose hb).messages)
  | post q properties body =>
    obtain rfl := Option.some.inj h
    refine .posts (.of_broker rfl rfl rfl rfl fun o => ?_)
    rw [List.count_singleton]
    simp only [beq_iff_eq]
    exact Broker.countOf_post Message.origin o

/-! ### Requests and replies, each once -/

/-- No request is there twice, in whatever place, and no reply to it is there that does not
come from its handling. -/
structure Ledger (s : System ι) : Prop where
  unsent : ∀ k, s.requests.length ≤ k → s.total (.request k) = 0
  request : ∀ k, s.total (.request k) ≤ 1
  reply : ∀ k, s.total (.reply k) ≤ s.handled (.request k)

theorem ledger_init : Ledger (System.init cfg) :=
  ⟨fun _ _ => rfl, fun _ => Nat.zero_le _, fun _ => Nat.le_refl _⟩

omit [DecidableEq ι] in
/-- Only the next request is published, and a reply only with the handling of its request. -/
theorem Ledger.traffic {p handed : List Origin} (h : Ledger s) (ht : Traffic s t p handed)
    (hone : p.countP Origin.isRequest ≤ 1)
    (hnew : ∀ k, p.count (.request k) ≤
      if k = s.requests.length then p.countP Origin.isRequest else 0)
    (hreply : ∀ k, p.count (.reply k) ≤ handed.count (.request k)) : Ledger t := by
  have hlen := ht.requests
  refine ⟨fun k hk => ?_, fun k => ?_, fun k => ?_⟩
  · have htotal := ht.total (.request k)
    have hold := h.unsent k (by omega)
    have hcount := hnew k
    split_ifs at hcount <;> omega
  · have htotal := ht.total (.request k)
    have hold := h.request k
    have hcount := hnew k
    split_ifs at hcount with hk
    · have hzero := h.unsent k hk.ge
      omega
    · omega
  · have htotal := ht.total (.reply k)
    have hold := h.reply k
    have hcount := hreply k
    rw [ht.handled]
    omega

omit [DecidableEq ι] in
theorem Ledger.step (h : Ledger s) (hstep : Publishes s t) : Ledger t := by
  cases hstep with
  | quiet ht => exact h.traffic ht (Nat.zero_le _) (fun _ => Nat.zero_le _) fun _ => Nat.zero_le _
  | sends ht =>
    refine h.traffic ht (Nat.le_refl _) (fun k => ?_) fun k => Nat.zero_le _
    by_cases hk : k = s.requests.length
    · rw [if_pos hk]
      exact List.count_le_length
    · have hne : Origin.request s.requests.length ≠ .request k := by simp [Ne.symm hk]
      rw [if_neg hk, List.count_singleton, beq_eq_false_iff_ne.mpr hne]
      exact Nat.le_refl 0
  | answers o ht =>
    refine h.traffic ht ?_ (fun k => ?_) fun k => ?_
    · cases o <;> exact Nat.zero_le _
    · cases o <;> exact Nat.zero_le _
    · cases o with
      | request j => simp [Origin.answer, List.count_singleton]
      | reply j | foreign => exact Nat.zero_le _
  | posts ht => exact h.traffic ht (Nat.zero_le _) (fun _ => Nat.zero_le _) fun _ => Nat.zero_le _

/-! ### Who waits for what -/

/-- The request that a party waits for: a device, or the arbiter. -/
def System.waitsFor (s : System ι) : Option ι → Option ℕ
  | none => s.arbiterWait
  | some d => (s.device d).wait.map DeviceWait.request

/-- Each request is waited for by one party, and once its answer is taken by none. -/
structure Taken (s : System ι) : Prop where
  sent : ∀ p k, s.waitsFor p = some k → k < s.requests.length
  apart : ∀ p p' k, s.waitsFor p = some k → s.waitsFor p' = some k → p = p'
  once : (s.accepted.map Prod.fst).Nodup
  finished : ∀ a ∈ s.accepted, a.1 < s.requests.length ∧ ∀ p, s.waitsFor p ≠ some a.1

theorem taken_init : Taken (System.init cfg) := by
  have hnone : ∀ p, (System.init cfg).waitsFor p = none := fun p => by cases p <;> rfl
  refine ⟨fun p k hk => ?_, fun p p' k hk => ?_, List.nodup_nil, nofun⟩
  · rw [hnone] at hk
    cases hk
  · rw [hnone] at hk
    cases hk

omit [DecidableEq ι] in
/-- One party starts to wait for the next request, or goes on, or leaves its wait, perhaps
with the answer. -/
theorem Taken.update (h : Taken s) (p : Option ι)
    (hne : ∀ p', p' ≠ p → t.waitsFor p' = s.waitsFor p')
    (hlen : s.requests.length ≤ t.requests.length)
    (hp : t.waitsFor p = none ∨ t.waitsFor p = s.waitsFor p ∨
      t.waitsFor p = some s.requests.length ∧ s.requests.length < t.requests.length)
    (hacc : t.accepted = s.accepted ∨ ∃ k m, s.waitsFor p = some k ∧ t.waitsFor p = none ∧
      t.accepted = s.accepted ++ [(k, m)]) : Taken t := by
  -- what is waited for now was waited for before, or is the next request
  have hold : ∀ p' k, t.waitsFor p' = some k → s.waitsFor p' = some k ∨
      (p' = p ∧ k = s.requests.length ∧ s.requests.length < t.requests.length) := by
    intro p' k hk
    by_cases hpp : p' = p
    · subst hpp
      rcases hp with hnone | hsame | ⟨hnew, hlt⟩
      · rw [hnone] at hk
        cases hk
      · exact Or.inl (hsame ▸ hk)
      · rw [hnew] at hk
        exact Or.inr ⟨rfl, (Option.some.inj hk).symm, hlt⟩
    · exact Or.inl (hne p' hpp ▸ hk)
  have hover : ∀ a ∈ s.accepted, a.1 < t.requests.length ∧ ∀ p', t.waitsFor p' ≠ some a.1 := by
    intro a ha
    obtain ⟨hlt, hno⟩ := h.finished a ha
    refine ⟨by omega, fun p' hp' => ?_⟩
    rcases hold p' _ hp' with hs | ⟨-, hk, -⟩
    · exact hno p' hs
    · omega
  refine ⟨fun p' k hk => ?_, fun p' p'' k hk hk' => ?_, ?_, fun a ha => ?_⟩
  · rcases hold p' k hk with hs | ⟨-, rfl, hlt⟩
    · exact (h.sent p' k hs).trans_le hlen
    · exact hlt
  · rcases hold p' k hk with hs | ⟨rfl, hnew, -⟩
    · rcases hold p'' k hk' with hs' | ⟨-, hnew, -⟩
      · exact h.apart p' p'' k hs hs'
      · exact absurd (h.sent p' k hs) (by omega)
    · rcases hold p'' k hk' with hs' | ⟨rfl, -, -⟩
      · exact absurd (h.sent p'' k hs') (by omega)
      · rfl
  · rcases hacc with hacc | ⟨k, m, hk, -, hacc⟩
    · rw [hacc]
      exact h.once
    · rw [hacc, List.map_append, List.map_singleton]
      refine List.nodup_append.mpr ⟨h.once, List.nodup_singleton _, fun b hb c hc => ?_⟩
      obtain ⟨a, ha, rfl⟩ := List.mem_map.mp hb
      rw [List.mem_singleton.mp hc]
      intro heq
      exact (h.finished a ha).2 p (heq ▸ hk)
  · rcases hacc with hacc | ⟨k, m, hk, hnone, hacc⟩
    · exact hover a (hacc ▸ ha)
    · rw [hacc] at ha
      rcases List.mem_append.mp ha with ha | ha
      · exact hover a ha
      · rw [List.mem_singleton.mp ha]
        refine ⟨(h.sent p k hk).trans_le hlen, fun p' hp' => ?_⟩
        rcases hold p' k hp' with hs | ⟨-, hnew, -⟩
        · rw [h.apart p' p k hs hk, hnone] at hp'
          cases hp'
        · exact absurd (h.sent p k hk) (by omega)

omit [DecidableEq ι] in
theorem Taken.of_eq (h : Taken s) (hwaits : ∀ p, t.waitsFor p = s.waitsFor p)
    (hreq : t.requests = s.requests) (hacc : t.accepted = s.accepted) : Taken t :=
  h.update none (fun p _ => hwaits p) (hreq ▸ Nat.le_refl _) (Or.inr (Or.inl (hwaits none)))
    (Or.inl hacc)

omit [DecidableEq ι] in
theorem waitsFor_ne (harb : t.arbiterWait = s.arbiterWait)
    (hdev : ∀ e, e ≠ d → t.device e = s.device e) (p : Option ι) (hp : p ≠ some d) :
    t.waitsFor p = s.waitsFor p := by
  cases p with
  | none => exact harb
  | some e =>
    change (t.device e).wait.map _ = (s.device e).wait.map _
    rw [hdev e fun h => hp (h ▸ rfl)]

/-- What has been logged as the answer ends the wait. -/
theorem waitLoop_ne_none {limit : Option ℕ} {cid : Bytes} {retry : ℕ} {o : ConsumeOutcome}
    {e : AmqpEnvelope} (h : waitVerdict cid o = .reply e) :
    waitLoop limit cid retry [o] ≠ none := by
  simp only [waitLoop, h, WaitVerdict.exit]
  split_ifs <;> exact Option.some_ne_none _

omit [DecidableEq ι] in
theorem logAccepted_cases (s : System ι) (k : ℕ) (cid : Bytes) (m : Message) :
    s.logAccepted k cid m = s ∨ (∃ e, waitVerdict cid ⟨.normal, m.envelope⟩ = .reply e) ∧
      (s.logAccepted k cid m).accepted = s.accepted ++ [(k, m)] := by
  unfold System.logAccepted
  split
  · rename_i e he
    exact Or.inr ⟨⟨e, he⟩, rfl⟩
  · exact Or.inl rfl

/-! ### Steps of the parties that wait -/

theorem waitDevice_taken {failed : Option AmqpRpcReply} {fin : Finish} (h : Taken s)
    (hstep : s.waitDevice cfg d failed fin = some t) : Taken t := by
  have hlabel : (system cfg).step s (.waitDevice d failed fin) = some t := hstep
  have hne : ∀ e, e ≠ d → t.device e = s.device e := by
    intro e he
    refine step_device_ne ?_ hlabel
    exact fun hc => he (Option.some.inj hc).symm
  obtain ⟨w, r, hw, hr, hcase⟩ := waitDevice_cases hstep
  have hwait : s.waitsFor (some d) = some w.request := by
    change (s.device d).wait.map _ = _
    rw [hw, Option.map_some]
  have hleaves : ∀ {u : System ι} {o : ConsumeOutcome}, u.waitPass cfg d w r o fin = some t →
      t.waitsFor (some d) = none ∨ t.waitsFor (some d) = s.waitsFor (some d) := by
    intro u o hpass
    rcases waitPass_wait hpass with hnone | ⟨-, hsome⟩
    · left
      change (t.device d).wait.map _ = none
      rw [hnone, Option.map_none]
    · right
      rw [hwait]
      change (t.device d).wait.map _ = _
      rw [hsome, Option.map_some]
  rcases hcase with ⟨reply, -, -, hpass⟩ | ⟨q, m, broker, -, -, hpass⟩
  · have hframe := waitPass_frame hpass
    refine h.update (some d) (waitsFor_ne (by rw [hframe]) hne) (by rw [hframe]) ?_
      (Or.inl (by rw [hframe]))
    rcases hleaves hpass with hnone | hsame
    · exact Or.inl hnone
    · exact Or.inr (Or.inl hsame)
  · obtain ⟨s₁, hs₁⟩ : ∃ s₁, s₁ = ({ s with broker } : System ι).logLost cfg d r.conn q m :=
      ⟨_, rfl⟩
    rw [← hs₁] at hpass
    have hreq₁ : s₁.requests = s.requests := by rw [hs₁]; rfl
    have harb₁ : s₁.arbiterWait = s.arbiterWait := by rw [hs₁]; rfl
    have hacc₁ : s₁.accepted = s.accepted := by rw [hs₁]; rfl
    have hframe := waitPass_frame hpass
    have hlogged := logAccepted_frame s₁ w.request r.correlationId m
    have harb : t.arbiterWait = s.arbiterWait := by rw [hframe, hlogged, ← harb₁]
    have hreq : t.requests = s.requests := by rw [hframe, hlogged, ← hreq₁]
    have haccepted : t.accepted = (s₁.logAccepted w.request r.correlationId m).accepted := by
      rw [hframe]
    refine h.update (some d) (waitsFor_ne harb hne) (by rw [hreq]) ?_ ?_
    · rcases hleaves hpass with hnone | hsame
      · exact Or.inl hnone
      · exact Or.inr (Or.inl hsame)
    · rcases logAccepted_cases s₁ w.request r.correlationId m with hsame | ⟨⟨e, he⟩, hlog⟩
      · exact Or.inl (by rw [haccepted, hsame, hacc₁])
      · refine Or.inr ⟨w.request, m, hwait, ?_, by rw [haccepted, hlog, hacc₁]⟩
        rcases waitPass_wait hpass with hnone | ⟨hloop, -⟩
        · change (t.device d).wait.map _ = none
          rw [hnone, Option.map_none]
        · exact absurd hloop (waitLoop_ne_none he)

theorem waitArbiter_taken {failed : Option AmqpRpcReply} {fin : Finish} (h : Taken s)
    (hstep : s.waitArbiter failed fin = some t) : Taken t := by
  obtain ⟨k, r, s₁, o, hk, -, htake, hleave⟩ := waitArbiter_pass hstep
  have hdev₁ : s₁.device = s.device := by
    rcases htake with ⟨reply, -, -, rfl, -⟩ | ⟨q, m, broker, -, -, rfl, -⟩
    · rfl
    · rw [logAccepted_frame]
  have hreq₁ : s₁.requests = s.requests := by
    rcases htake with ⟨reply, -, -, rfl, -⟩ | ⟨q, m, broker, -, -, rfl, -⟩
    · rfl
    · rw [logAccepted_frame]
  have harb₁ : s₁.arbiterWait = s.arbiterWait := by
    rcases htake with ⟨reply, -, -, rfl, -⟩ | ⟨q, m, broker, -, -, rfl, -⟩
    · rfl
    · rw [logAccepted_frame]
  have hne : t.device = s.device → ∀ p : Option ι, p ≠ none → t.waitsFor p = s.waitsFor p := by
    intro hdev p hp
    cases p with
    | none => exact absurd rfl hp
    | some e =>
      change (t.device e).wait.map _ = (s.device e).wait.map _
      rw [hdev]
  -- what has been logged as the answer has ended the loop
  have hlog : s₁.accepted = s.accepted ∨ (∃ m, s₁.accepted = s.accepted ++ [(k, m)]) ∧
      waitLoop none r.correlationId 0 [o] ≠ none := by
    rcases htake with ⟨reply, -, -, rfl, -⟩ | ⟨q, m, broker, -, -, rfl, rfl⟩
    · exact Or.inl rfl
    · rcases logAccepted_cases ({ s with broker } : System ι) k r.correlationId m with
        hsame | ⟨⟨e, he⟩, hlog⟩
      · exact Or.inl (by rw [hsame])
      · exact Or.inr ⟨⟨m, hlog⟩, waitLoop_ne_none he⟩
  rcases hleave with ⟨hloop, rfl⟩ | ⟨x, -, rfl⟩
  · refine h.update none (hne hdev₁) (by rw [hreq₁]) (Or.inr (Or.inl harb₁)) (Or.inl ?_)
    rcases hlog with hsame | ⟨-, hended⟩
    · exact hsame
    · exact absurd hloop hended
  · refine h.update none (hne ?_) ?_ (Or.inl rfl) ?_
    · rw [closeLink_frame]
      exact hdev₁
    · rw [closeLink_frame]
      exact hreq₁ ▸ Nat.le_refl _
    · rw [closeLink_frame]
      rcases hlog with hsame | ⟨⟨m, hlog⟩, -⟩
      · exact Or.inl hsame
      · exact Or.inr ⟨k, m, hk, rfl, hlog⟩

theorem call_taken {a : NodeAction} {start : Start} (h : Taken s)
    (hstep : s.call cfg d a start = some t) : Taken t := by
  have hne : ∀ e, e ≠ d → t.device e = s.device e := fun e he => call_device_ne he hstep
  obtain ⟨-, ⟨-, rfl⟩ | ⟨-, rfl⟩ | ⟨method, s₁, c, s₂, w, -, -, hopen, hstart, hw⟩⟩ :=
    call_cases hstep
  · refine h.update (some d) (waitsFor_ne rfl hne) (Nat.le_refl _) (Or.inl ?_) (Or.inl rfl)
    change Option.map _ (Device.wait _) = none
    rw [setDevice_device_self]
    rfl
  · refine h.update (some d) (waitsFor_ne rfl hne) (Nat.le_refl _) (Or.inl ?_) (Or.inl rfl)
    change Option.map _ (Device.wait _) = none
    rw [setDevice_device_self]
    rfl
  have hreq₁ : s₁.requests = s.requests := by rw [openFor_frame hopen]
  have harb : s₂.arbiterWait = s.arbiterWait := by
    rw [startRequest_frame hstart, openFor_frame hopen]
  have hacc : s₂.accepted = s.accepted := by
    rw [startRequest_frame hstart, openFor_frame hopen]
  have hlen : s.requests.length ≤ s₂.requests.length := by
    rw [← hreq₁]
    have hpre := startRequest_prefix hstart
    exact hpre.length_le
  rcases hw with ⟨-, rfl⟩ | ⟨k, rfl, rfl⟩
  · refine h.update (some d) (waitsFor_ne ?_ hne) ?_ (Or.inl ?_) (Or.inl ?_)
    · rw [finishCall_arbiterWait, harb]
    · rw [finishCall_requests]
      exact hlen
    · change Option.map _ (Device.wait _) = none
      rw [finishCall_device_self]
      rfl
    · rw [finishCall_frame]
      exact hacc
  · obtain ⟨rfl, r, hr, -⟩ := startRequest_waits hstart
    refine h.update (some d) (waitsFor_ne harb hne) hlen (Or.inr (Or.inr ⟨?_, ?_⟩)) (Or.inl hacc)
    · change Option.map _ (Device.wait _) = _
      rw [setDevice_device_self, hreq₁]
      rfl
    · rw [← hreq₁]
      exact (List.getElem?_eq_some_iff.mp hr).1

theorem userCommand_taken {cmd : Bytes} {start : Start} (h : Taken s)
    (hstep : s.userCommand cfg cmd start = some t) : Taken t := by
  obtain ⟨-, ⟨-, rfl⟩ | ⟨target, s₂, w, -, hstart, rfl⟩⟩ := userCommand_cases hstep
  · exact h
  have hframe := startRequest_frame hstart
  have hacc : s₂.accepted = s.accepted := by rw [hframe]
  have hpre := startRequest_prefix hstart
  refine h.update none (fun p hp => ?_) hpre.length_le ?_ (Or.inl hacc)
  · cases p with
    | none => exact absurd rfl hp
    | some e =>
      change (s₂.device e).wait.map _ = (s.device e).wait.map _
      rw [hframe]
  · cases w with
    | none => exact Or.inl rfl
    | some k =>
      obtain ⟨rfl, r, hr, -⟩ := startRequest_waits hstart
      exact Or.inr (Or.inr ⟨rfl, (List.getElem?_eq_some_iff.mp hr).1⟩)

theorem taken_step {l : Label ι} (h : Taken s) (hstep : (system cfg).step s l = some t) :
    Taken t := by
  cases l with
  | call d a start => exact call_taken h hstep
  | userCommand cmd start => exact userCommand_taken h hstep
  | waitDevice d failed fin => exact waitDevice_taken h hstep
  | waitArbiter failed fin => exact waitArbiter_taken h hstep
  | pumpDevice d answer =>
    obtain ⟨-, -, q, m, broker, -, ⟨-, rfl⟩ | ⟨address, lost, -, -, rfl⟩⟩ :=
      pumpDevice_cases hstep
    · exact h.of_eq (fun p => by cases p <;> rfl) rfl rfl
    · rw [dispatch_frame]
      exact h.of_eq (fun p => by cases p <;> rfl) rfl rfl
  | pumpArbiter =>
    obtain ⟨-, q, m, broker, -, ⟨-, rfl⟩ | ⟨address, -, rfl⟩⟩ := pumpArbiter_cases hstep
    · exact h.of_eq (fun p => by cases p <;> rfl) rfl rfl
    · rw [dispatch_frame]
      exact h.of_eq (fun p => by cases p <;> rfl) rfl rfl
  | deliver i c =>
    obtain ⟨q, m, broker, -, rfl⟩ := deliver_cases hstep
    exact h.of_eq (fun p => by cases p <;> rfl) rfl rfl
  | lose i =>
    obtain ⟨broker, -, rfl⟩ := Option.map_eq_some_iff.mp hstep
    exact h.of_eq (fun p => by cases p <;> rfl) rfl rfl
  | post q properties body =>
    obtain rfl := Option.some.inj hstep
    exact h.of_eq (fun p => by cases p <;> rfl) rfl rfl

/-! ### Runs -/

/-- A request is handled at most once; as many answers to it exist, at any place, as it has
been handled; and each request has at most one message taken as its answer. -/
structure HandledOnce (s : System ι) : Prop where
  request : ∀ k, s.onTheWay (.request k) + s.handled (.request k) + s.taken (.request k) ≤ 1
  reply : ∀ k, s.onTheWay (.reply k) + s.handled (.reply k) + s.taken (.reply k) ≤
    s.handled (.request k)
  answer : (s.accepted.map Prod.fst).Nodup

/-- In every state of every run, whatever is lost, delayed, failing or posted by others. -/
theorem requests_handled_once (cfg : Config ι) (ls : List (Label ι)) :
    (system cfg).Always HandledOnce (.init cfg) ls := by
  have hstep : ∀ (s : System ι) l t, Ledger s ∧ Taken s → (system cfg).step s l = some t →
      Ledger t ∧ Taken t :=
    fun s l t h ht => ⟨h.1.step (system_publishes ht), taken_step h.2 ht⟩
  have hledger : ∀ s : System ι, Ledger s ∧ Taken s → HandledOnce s :=
    fun s h => ⟨h.1.request, h.1.reply, h.2.once⟩
  exact Machine.always_of_invariant hstep hledger ⟨ledger_init, taken_init⟩ ls

end Chamge
