import Chamge.ChannelLife
import Chamge.History

/-! How long the reply queues exist: as long as the channel that their request was sent on
stays open, or for good where the subscription has failed. -/

namespace Chamge
open CString JsonGlib

variable {ι : Type} [DecidableEq ι] {cfg : Config ι} {s t : System ι} {r : Request ι}
  {d : ι} {l : Label ι} {start : Start} {fin : Finish}

/-! ### What a step does to the reply queue of an earlier request -/

theorem send_retains {who : Caller ι} {c : ConnId ι} {target body cid rq : Bytes}
    (hr : r ∈ s.requests) (hcan : CanSend s c target cid rq) :
    s.broker.Retains r.replyQueue (s.send who c target body cid rq).broker :=
  (Broker.retains_declare (hcan.unused r hr)).trans Broker.retains_publish

theorem startRequest_retains {who : Caller ι} {c : ConnId ι} {target body : Bytes} {w : Option ℕ}
    (hr : r ∈ s.requests) (h : s.startRequest who c target body start = some (t, w)) :
    s.broker.Retains r.replyQueue t.broker := by
  rcases startRequest_cases h with
    ⟨-, rfl | ⟨-, rfl⟩, -⟩ | ⟨cid, rq, hcan, ⟨-, -, rfl⟩ | ⟨-, -, rfl⟩⟩
  · exact Broker.Retains.refl ..
  · exact Broker.retains_cancel
  · exact send_retains hr hcan
  · exact (send_retains hr hcan).trans (Broker.retains_subscribe (hcan.unused r hr))

theorem closeLink_retains (s : System ι) (c : ConnId ι) (q : Bytes) :
    s.broker.Retains q (s.closeLink c fin).broker := by
  cases fin with
  | ok => exact Broker.retains_close
  | failed => exact Broker.Retains.refl ..
  | partly => exact Broker.retains_cancel

theorem finishCall_retains {w : NodeAction × BackendMethod} {ret : ChamgeReturn} (q : Bytes) :
    s.broker.Retains q (s.finishCall cfg d w ret).broker := by
  rw [finishCall_broker]
  split_ifs
  · exact Broker.retains_close
  · exact Broker.Retains.refl ..

/-- A device declares no queue under a name of the broker's. -/
theorem subscribe_retains {ret : ChamgeReturn} {q : Bytes} (hq : isServerNamed q = true)
    (h : s.subscribe cfg d fin = some (t, ret)) : s.broker.Retains q t.broker := by
  have hdeclares : isServerNamed (cfg.uid d) = false → s.broker.Retains q
      (s.broker.declare (cfg.uid d)) ∧ q ≠ cfg.uid d := by
    intro hclient
    have hne : q ≠ cfg.uid d := by
      rintro rfl
      have hclash := hq.symm.trans hclient
      cases hclash
    exact ⟨Broker.retains_declare hne, hne⟩
  rcases subscribe_cases h with ⟨-, rfl | ⟨-, rfl⟩ | ⟨hclient, rfl⟩⟩ | ⟨-, -, hclient, rfl⟩
  · exact Broker.Retains.refl ..
  · exact Broker.retains_cancel
  · exact (hdeclares hclient).1
  · obtain ⟨hdeclared, hne⟩ := hdeclares hclient
    exact hdeclared.trans (Broker.retains_subscribe hne)

theorem endWait_retains {w : DeviceWait} {r' : Request ι} {response : Option Bytes} {q : Bytes}
    (hq : isServerNamed q = true) (h : s.endWait cfg d w r' response fin = some t) :
    s.broker.Retains q t.broker := by
  rcases endWait_cases h with ⟨-, rfl⟩ | ⟨ret, -, -, rfl⟩ | ⟨-, ⟨-, rfl⟩ | ⟨-, ret, -, rfl⟩ |
    ⟨-, s₁, ret, hsub, rfl⟩⟩
  · have hfirst : s.broker.Retains q (s.broker.close (.device d)) := Broker.retains_close
    exact hfirst.trans Broker.retains_closeAll
  · exact finishCall_retains q
  · exact finishCall_retains q
  · exact (closeLink_retains s r'.conn q).trans (finishCall_retains q)
  · have hsubscribed : s.broker.Retains q s₁.broker := subscribe_retains hq hsub
    exact hsubscribed

theorem waitPass_retains {w : DeviceWait} {r' : Request ι} {o : ConsumeOutcome} {q : Bytes}
    (hq : isServerNamed q = true) (h : s.waitPass cfg d w r' o fin = some t) :
    s.broker.Retains q t.broker := by
  rcases waitPass_cases h with ⟨-, rfl⟩ | ⟨_, -, hend⟩ | ⟨_, -, -, hend⟩
  · exact Broker.Retains.refl ..
  · exact endWait_retains hq hend
  · exact endWait_retains hq hend

theorem dispatch_retains {c : ConnId ι} {address : ReplyAddress} {e : Dispatched ι} (q : Bytes)
    {broker : Broker (ConnId ι) Bytes Message} (h : broker.Retains q s.broker) :
    broker.Retains q (s.dispatch cfg c address e).broker := by
  refine h.trans ?_
  unfold System.dispatch System.answer
  split_ifs
  · exact Broker.retains_publish
  · exact Broker.retains_cancel

/-- A step opens a connection first, if any, and retains the queue after that. -/
theorem step_retains (hserver : isServerNamed r.replyQueue = true) (hr : r ∈ s.requests)
    (hstep : (system cfg).step s l = some t) : ∃ b : Broker (ConnId ι) Bytes Message,
      b.consumers = s.broker.consumers ∧
      (∀ c, s.broker.channelOpen c = true → b.channelOpen c = true) ∧
      b.Retains r.replyQueue t.broker := by
  have hsame : s.broker.Retains r.replyQueue t.broker → ∃ b : Broker (ConnId ι) Bytes Message,
      b.consumers = s.broker.consumers ∧
      (∀ c, s.broker.channelOpen c = true → b.channelOpen c = true) ∧
      b.Retains r.replyQueue t.broker := fun h => ⟨s.broker, rfl, fun _ => id, h⟩
  have hconnect : ∀ c c', s.broker.channelOpen c' = true →
      (s.broker.connect c).channelOpen c' = true := by
    intro c c' h
    by_cases hc : c' = c
    · exact hc ▸ Function.update_self ..
    · exact (Function.update_of_ne hc ..).trans h
  cases l with
  | call d a start =>
    obtain ⟨-, ⟨-, rfl⟩ | ⟨-, rfl⟩ | ⟨method, s₁, c, s₂, w, -, -, hfor, hstart, hw⟩⟩ :=
      call_cases hstep
    · exact hsame (Broker.Retains.refl ..)
    · exact hsame (Broker.Retains.refl ..)
    have hr₁ : r ∈ s₁.requests := by rwa [openFor_frame hfor]
    have hlast : s₂.broker.Retains r.replyQueue t.broker := by
      rcases hw with ⟨-, rfl⟩ | ⟨k, -, rfl⟩
      · exact finishCall_retains r.replyQueue
      · exact Broker.Retains.refl ..
    have hsent := (startRequest_retains hr₁ hstart).trans hlast
    rcases openFor_cases hfor with ⟨-, -, rfl⟩ | ⟨-, -, -, rfl⟩ | ⟨-, -, rfl⟩
    · exact hsame hsent
    · exact ⟨s.broker.connect (.device d), rfl, hconnect _, hsent⟩
    · exact ⟨s.broker.connect (.temp s.requests.length), rfl, hconnect _, hsent⟩
  | userCommand cmd start =>
    obtain ⟨-, ⟨-, rfl⟩ | ⟨target, s₂, w, -, hstart, rfl⟩⟩ := userCommand_cases hstep
    · exact hsame (Broker.Retains.refl ..)
    · have hr₁ : r ∈ System.requests { s with
          broker := s.broker.connect (.temp s.requests.length) } := hr
      have hsent := startRequest_retains hr₁ hstart
      exact ⟨s.broker.connect (.temp s.requests.length), rfl, hconnect _, hsent⟩
  | waitDevice d failed fin =>
    obtain ⟨w, r', -, -, ⟨reply, -, -, hpass⟩ | ⟨q, m, broker, -, hrec, hpass⟩⟩ :=
      waitDevice_cases hstep
    · exact hsame (waitPass_retains hserver hpass)
    · rw [logAccepted_frame] at hpass
      have hreceived : s.broker.Retains r.replyQueue broker := Broker.retains_receive hrec
      exact hsame (hreceived.trans (waitPass_retains hserver hpass))
  | waitArbiter failed fin =>
    obtain ⟨k, r', -, -, s₁, hs₁, ht⟩ := waitArbiter_cases hstep
    have hreceived : s.broker.Retains r.replyQueue s₁.broker := by
      rcases hs₁ with rfl | ⟨q, m, broker, hrec, rfl⟩
      · exact Broker.Retains.refl ..
      · rw [logAccepted_frame]
        exact Broker.retains_receive hrec
    rcases ht with rfl | rfl
    · exact hsame hreceived
    · exact hsame (hreceived.trans (closeLink_retains s₁ r'.conn r.replyQueue))
  | pumpDevice d answer =>
    obtain ⟨-, -, q, m, broker, hrec, ⟨-, rfl⟩ | ⟨address, lost, -, -, rfl⟩⟩ :=
      pumpDevice_cases hstep
    · exact hsame (Broker.retains_receive hrec)
    · exact hsame (dispatch_retains r.replyQueue (Broker.retains_receive hrec))
  | pumpArbiter =>
    obtain ⟨-, q, m, broker, hrec, ⟨-, rfl⟩ | ⟨address, -, rfl⟩⟩ := pumpArbiter_cases hstep
    · exact hsame (Broker.retains_receive hrec)
    · exact hsame (dispatch_retains r.replyQueue (Broker.retains_receive hrec))
  | deliver i c =>
    obtain ⟨q, m, broker, hb, rfl⟩ := deliver_cases hstep
    exact hsame (Broker.retains_deliver hb)
  | lose i =>
    obtain ⟨broker, hb, rfl⟩ := Option.map_eq_some_iff.mp hstep
    exact hsame (Broker.retains_lose hb)
  | post q properties body =>
    obtain rfl := Option.some.inj hstep
    exact hsame Broker.retains_post

/-! ### The step that sends a request -/

def Start.isUnheard : Start → Bool
  | .unheard _ _ => true
  | .refused | .noTarget | .sent _ _ => false

/-- The step sends a request and fails to subscribe to its reply queue. -/
def Label.unheard : Label ι → Bool
  | .call _ _ start | .userCommand _ start => start.isUnheard
  | .waitDevice _ _ _ | .pumpDevice _ _ | .waitArbiter _ _ | .pumpArbiter | .deliver _ _
  | .lose _ | .post _ _ _ => false

/-- The reply queue as the step leaves it that has sent the request. -/
def QueueSent (unheard : Bool) (r : Request ι) (t : System ι) : Prop :=
  (unheard = true ∧ t.broker.consumers r.replyQueue = some []) ∨
    (unheard = false ∧ t.broker.consumers r.replyQueue = some [r.conn] ∧
      t.broker.channelOpen r.conn = true)

omit [DecidableEq ι] in
theorem sends_nothing (hsame : t.requests = s.requests) : t.requests ≠ s.requests ++ [r] := by
  intro hr
  have hlen := congrArg List.length (hsame.symm.trans hr)
  rw [List.length_append, List.length_singleton] at hlen
  exact absurd hlen.symm (Nat.succ_ne_self _)

theorem send_consumers {who : Caller ι} {c : ConnId ι} {target body cid rq : Bytes}
    (hcan : CanSend s c target cid rq) :
    (s.send who c target body cid rq).broker.consumers rq = some [] := by
  have hnone : ¬ s.broker.hasQueue rq = true := by simp [hcan.newQueue]
  have hdeclared : (s.broker.declare rq).consumers rq = some [] := by
    rw [Broker.declare, if_neg hnone]
    exact Function.update_self ..
  exact (congrFun Broker.publish_consumers rq).trans hdeclared

theorem send_channelOpen {who : Caller ι} {c c' : ConnId ι} {target body cid rq : Bytes} :
    (s.send who c target body cid rq).broker.channelOpen c' = s.broker.channelOpen c' := by
  have hdeclared : (s.broker.declare rq).channelOpen = s.broker.channelOpen :=
    Broker.declare_channelOpen
  rw [← hdeclared]
  simp only [System.send, Broker.publish, Broker.post]
  split_ifs <;> rfl

theorem startRequest_sentQueue {who : Caller ι} {c : ConnId ι} {target body : Bytes} {w : Option ℕ}
    (h : s.startRequest who c target body start = some (t, w))
    (hr : t.requests = s.requests ++ [r]) :
    QueueSent start.isUnheard r t ∧ (w = none → start.isUnheard = true) := by
  have hnew : ∀ r' : Request ι, s.requests ++ [r'] = s.requests ++ [r] → r' = r :=
    fun r' heq => List.singleton_inj.mp (List.append_cancel_left heq)
  rcases startRequest_cases h with
    ⟨-, hsame, -⟩ | ⟨cid, rq, hcan, ⟨-, rfl, rfl⟩ | ⟨rfl, rfl, rfl⟩⟩
  · have hreq : t.requests = s.requests := by
      rcases hsame with rfl | ⟨-, rfl⟩
      · rfl
      · rfl
    exact absurd hr (sends_nothing hreq)
  · obtain rfl := hnew _ hr
    exact ⟨Or.inl ⟨rfl, send_consumers hcan⟩, fun _ => rfl⟩
  · obtain rfl := hnew _ hr
    refine ⟨Or.inr ⟨rfl, ?_, ?_⟩, fun hnone => by cases hnone⟩
    · have hsubscribed : ((s.send who c target body cid rq).broker.subscribe rq c).consumers rq =
          ((s.send who c target body cid rq).broker.consumers rq).map (· ++ [c]) :=
        Function.update_self ..
      rw [hsubscribed, send_consumers hcan]
      rfl
    · exact send_channelOpen.trans hcan.channel

theorem step_sentQueue (hstep : (system cfg).step s l = some t)
    (hr : t.requests = s.requests ++ [r]) : QueueSent l.unheard r t := by
  have hsends : ∃ r', Sends cfg s l r' := by
    rcases step_requests hstep with hsame | ⟨r', -, hsends⟩
    · exact absurd hr (sends_nothing hsame)
    · exact ⟨r', hsends⟩
  obtain ⟨r', hsends⟩ := hsends
  cases hsends with
  | @call d a start =>
    obtain ⟨-, ⟨-, rfl⟩ | ⟨-, rfl⟩ | ⟨method, s₁, c, s₂, w, -, -, hfor, hstart, hw⟩⟩ :=
      call_cases hstep
    · exact absurd hr (sends_nothing rfl)
    · exact absurd hr (sends_nothing rfl)
    have hreq₁ : s₁.requests = s.requests := by rw [openFor_frame hfor]
    rcases hw with ⟨rfl, rfl⟩ | ⟨k, rfl, rfl⟩
    · rw [finishCall_requests, ← hreq₁] at hr
      obtain ⟨hqueue, hunheard⟩ := startRequest_sentQueue hstart hr
      rcases hqueue with ⟨-, hqueue⟩ | ⟨hheard, -⟩
      · exact Or.inl ⟨hunheard rfl, (finishCall_retains r.replyQueue).orphan hqueue⟩
      · have hclash := hheard.symm.trans (hunheard rfl)
        cases hclash
    · have hr₂ : s₂.requests = s₁.requests ++ [r] := hreq₁ ▸ hr
      exact (startRequest_sentQueue hstart hr₂).1
  | @command cmd start =>
    obtain ⟨-, ⟨-, rfl⟩ | ⟨target, s₂, w, -, hstart, rfl⟩⟩ := userCommand_cases hstep
    · exact absurd hr (sends_nothing rfl)
    · exact (startRequest_sentQueue hstart hr).1

/-! ### Runs -/

variable {ls rest : List (Label ι)} {k : ℕ} {v : System ι}

/-- The run has sent request `k` in the step `l`, which led to `v`, and then gone on. -/
def SentBy (cfg : Config ι) (ls : List (Label ι)) (k : ℕ) (r : Request ι) (l : Label ι)
    (rest : List (Label ι)) (v : System ι) : Prop :=
  ∃ ls₁ u, ls = ls₁ ++ l :: rest ∧ (system cfg).run (.init cfg) ls₁ = some u ∧
    (system cfg).step u l = some v ∧ u.requests.length = k ∧ v.requests = u.requests ++ [r]

/-- The subscription to the reply queue of request `k` has failed. -/
def Unheard (cfg : Config ι) (ls : List (Label ι)) (k : ℕ) (r : Request ι) : Prop :=
  ∃ l rest v, SentBy cfg ls k r l rest v ∧ l.unheard = true

/-- The subscription to the reply queue of request `k` has succeeded, and the channel on which
the request was sent has been open ever since. -/
def OpenSince (cfg : Config ι) (ls : List (Label ι)) (k : ℕ) (r : Request ι) : Prop :=
  ∃ l rest v, SentBy cfg ls k r l rest v ∧ l.unheard = false ∧
    (system cfg).Always (fun w => w.broker.channelOpen r.conn = true) v rest

theorem sentBy_of_run (hrun : (system cfg).run (.init cfg) ls = some s)
    (hr : s.requests[k]? = some r) : ∃ l rest v, SentBy cfg ls k r l rest v := by
  have hnone : ¬ (System.init cfg).requests[k]? = some r := by
    have hempty : (System.init cfg).requests = [] := rfl
    rw [hempty]
    nofun
  obtain ⟨ls₁, l, rest, u, v, rfl, hrun₁, hno, hstep, hyes, -⟩ :=
    Machine.exists_step_of_run (Q := fun w => w.requests[k]? = some r) hnone hr hrun
  refine ⟨l, rest, v, ls₁, u, rfl, hrun₁, hstep, ?_⟩
  rcases step_requests hstep with hsame | ⟨r', hnew, -⟩
  · exact absurd (hsame ▸ hyes) hno
  rw [hnew] at hyes ⊢
  have hlast : u.requests.length = k := by
    rcases Nat.lt_trichotomy k u.requests.length with hlt | heq | hgt
    · rw [List.getElem?_append_left hlt] at hyes
      exact absurd hyes hno
    · exact heq.symm
    · have hbound := (List.getElem?_eq_some_iff.mp hyes).1
      rw [List.length_append, List.length_singleton] at hbound
      omega
  refine ⟨hlast, ?_⟩
  subst hlast
  rw [List.getElem?_concat_length] at hyes
  rw [Option.some.inj hyes]

theorem step_mem_requests {l : Label ι} (hr : r ∈ s.requests)
    (hstep : (system cfg).step s l = some t) : r ∈ t.requests := by
  rcases step_requests hstep with hsame | ⟨r', hnew, -⟩
  · exact hsame ▸ hr
  · exact hnew ▸ List.mem_append_left _ hr

section rest
variable (hserver : isServerNamed r.replyQueue = true)
  (hr : r ∈ v.requests) (hrun : (system cfg).run v rest = some s)
include hserver hr hrun

/-- A queue that never had a consumer is deleted by nothing. -/
theorem run_orphan (horphan : v.broker.consumers r.replyQueue = some []) :
    s.broker.consumers r.replyQueue = some [] := by
  have hkept : r ∈ s.requests ∧ s.broker.consumers r.replyQueue = some [] := by
    refine Machine.run_invariant (P := fun _ _ => True)
      (I := fun u : System ι => r ∈ u.requests ∧ u.broker.consumers r.replyQueue = some [])
      (fun u l w hu _ hw => ?_) ⟨hr, horphan⟩ (Machine.along_true v rest) hrun
    obtain ⟨b, hb, -, hretains⟩ := step_retains hserver hu.1 hw
    exact ⟨step_mem_requests hu.1 hw, hretains.orphan ((congrFun hb _).trans hu.2)⟩
  exact hkept.2

/-- A queue with its request's connection as consumer goes with the channel. -/
theorem run_held (hheld : v.broker.consumers r.replyQueue = some [r.conn])
    (hopen : v.broker.channelOpen r.conn = true) :
    ((system cfg).Always (fun w => w.broker.channelOpen r.conn = true) v rest →
      s.broker.consumers r.replyQueue = some [r.conn]) ∧
    (¬ (system cfg).Always (fun w => w.broker.channelOpen r.conn = true) v rest →
      s.broker.consumers r.replyQueue = none) := by
  have hwhile := Machine.run_while (M := system cfg) (I := fun u : System ι => r ∈ u.requests)
    (J := fun u : System ι => u.broker.channelOpen r.conn = true)
    (A := fun u : System ι => u.broker.consumers r.replyQueue = some [r.conn] ∧
      u.broker.channelOpen r.conn = true)
    (B := fun u : System ι => u.broker.consumers r.replyQueue = none)
    (fun u l w hu hw => step_mem_requests hu hw) (fun u l w hu hA hw => ?_)
    (fun u l w hu hB hw => ?_) hr hopen ⟨hheld, hopen⟩ hrun
  · exact ⟨fun halways => (hwhile.1 halways).1, hwhile.2⟩
  · obtain ⟨b, hb, hopens, hretains⟩ := step_retains hserver hu hw
    have hlater := hretains.held r.conn ((congrFun hb _).trans hA.1) (hopens _ hA.2)
    exact ⟨fun hnow => ⟨by rw [hlater, if_pos hnow], hnow⟩, fun hno => by rw [hlater, if_neg hno]⟩
  · obtain ⟨b, hb, -, hretains⟩ := step_retains hserver hu hw
    exact hretains.gone ((congrFun hb _).trans hB)

end rest

theorem run_wired (hrun : (system cfg).run (.init cfg) ls = some s) : Wired cfg s :=
  Machine.run_invariant (P := fun _ _ => True) (fun _ _ _ h _ => wired_step h) wired_init
    (Machine.along_true (System.init cfg) ls) hrun

/-- The two ways in which the reply queue of a request is there, and no third. -/
theorem replyQueue_cases (hrun : (system cfg).run (.init cfg) ls = some s)
    (hsent : SentBy cfg ls k r l rest v) :
    (l.unheard = true → s.broker.consumers r.replyQueue = some []) ∧
    (l.unheard = false →
      ((system cfg).Always (fun w => w.broker.channelOpen r.conn = true) v rest →
        s.broker.consumers r.replyQueue = some [r.conn]) ∧
      (¬ (system cfg).Always (fun w => w.broker.channelOpen r.conn = true) v rest →
        s.broker.consumers r.replyQueue = none)) := by
  obtain ⟨ls₁, u, rfl, hrun₁, hstep, -, hnew⟩ := hsent
  obtain ⟨u', hu', hlast⟩ := Machine.run_append_eq_some.mp hrun
  obtain rfl := Option.some.inj (hrun₁.symm.trans hu')
  obtain ⟨v', hv', hrest⟩ := Machine.run_cons_eq_some.mp hlast
  obtain rfl := Option.some.inj (hstep.symm.trans hv')
  have hr : r ∈ v.requests := hnew ▸ List.mem_append_right _ (List.mem_singleton_self r)
  have hserver : isServerNamed r.replyQueue = true :=
    ((wired_step (run_wired hrun₁) hstep).proper r hr).serverNamed
  rcases step_sentQueue hstep hnew with ⟨hunheard, hqueue⟩ | ⟨hheard, hqueue, hopen⟩
  · refine ⟨fun _ => run_orphan hserver hr hrest hqueue, fun hheard => ?_⟩
    have hclash := hunheard.symm.trans hheard
    cases hclash
  · refine ⟨fun hunheard => ?_, fun _ => run_held hserver hr hrest hqueue hopen⟩
    have hclash := hunheard.symm.trans hheard
    cases hclash

theorem replyQueue_states (hrun : (system cfg).run (.init cfg) ls = some s)
    (hr : s.requests[k]? = some r) :
    (Unheard cfg ls k r ∧ ¬ OpenSince cfg ls k r ∧ s.broker.consumers r.replyQueue = some []) ∨
    (¬ Unheard cfg ls k r ∧ OpenSince cfg ls k r ∧
      s.broker.consumers r.replyQueue = some [r.conn]) ∨
    (¬ Unheard cfg ls k r ∧ ¬ OpenSince cfg ls k r ∧
      s.broker.consumers r.replyQueue = none) := by
  obtain ⟨l, rest, v, hsent⟩ := sentBy_of_run hrun hr
  have hunheard : Unheard cfg ls k r → s.broker.consumers r.replyQueue = some [] := by
    rintro ⟨l', rest', v', hsent', hl'⟩
    exact (replyQueue_cases hrun hsent').1 hl'
  have hopen : OpenSince cfg ls k r → s.broker.consumers r.replyQueue = some [r.conn] := by
    rintro ⟨l', rest', v', hsent', hl', halways⟩
    exact ((replyQueue_cases hrun hsent').2 hl').1 halways
  cases hl : l.unheard with
  | true =>
    have hyes : Unheard cfg ls k r := ⟨l, rest, v, hsent, hl⟩
    have hqueue := hunheard hyes
    refine Or.inl ⟨hyes, fun h => ?_, hqueue⟩
    have hclash := hqueue.symm.trans (hopen h)
    cases hclash
  | false =>
    obtain ⟨hkept, hgone⟩ := (replyQueue_cases hrun hsent).2 hl
    by_cases halways : (system cfg).Always (fun w => w.broker.channelOpen r.conn = true) v rest
    · have hqueue := hkept halways
      refine Or.inr (Or.inl ⟨fun h => ?_, ⟨l, rest, v, hsent, hl, halways⟩, hqueue⟩)
      have hclash := hqueue.symm.trans (hunheard h)
      cases hclash
    · have hqueue := hgone halways
      refine Or.inr (Or.inr ⟨fun h => ?_, fun h => ?_, hqueue⟩)
      · have hclash := hqueue.symm.trans (hunheard h)
        cases hclash
      · have hclash := hqueue.symm.trans (hopen h)
        cases hclash

/-- In every run, the reply queue of each request is there without a consumer exactly when the
subscription to it has failed, has the request's connection as its consumer exactly when the
subscription has succeeded and the channel has been open ever since, and otherwise is gone. -/
theorem reply_queue_fate (cfg : Config ι) (ls : List (Label ι)) (s : System ι)
    (hrun : (system cfg).run (.init cfg) ls = some s) (k : ℕ) (r : Request ι)
    (hr : s.requests[k]? = some r) :
    (s.broker.consumers r.replyQueue = some [] ↔ Unheard cfg ls k r) ∧
      (s.broker.consumers r.replyQueue = some [r.conn] ↔ OpenSince cfg ls k r) ∧
      (s.broker.consumers r.replyQueue = none ↔
        ¬ Unheard cfg ls k r ∧ ¬ OpenSince cfg ls k r) := by
  rcases replyQueue_states hrun hr with ⟨hun, hno, hqueue⟩ | ⟨hun, hopen, hqueue⟩ |
    ⟨hun, hno, hqueue⟩
  · simp only [hqueue, hun, hno, reduceCtorEq, Option.some.injEq, List.ne_cons_self, not_true,
      not_false_iff, and_true, iff_self]
  · simp only [hqueue, hun, hopen, reduceCtorEq, Option.some.injEq, List.cons_ne_self, not_true,
      not_false_iff, and_false, iff_self, and_self]
  · simp only [hqueue, hun, hno, reduceCtorEq, not_false_iff, and_self]

theorem reply_queue_fate_closed :
    ∃ s r, (system loneEdge).run (.init loneEdge) lateCommandRun = some s ∧
      s.requests[2]? = some r ∧ s.broker.hasQueue r.replyQueue = false ∧
      ¬ OpenSince loneEdge lateCommandRun 2 r := by
  have hrun : ((system loneEdge).run (.init loneEdge) lateCommandRun).any (fun s =>
      s.requests[2]?.any fun r => !s.broker.hasQueue r.replyQueue) = true := by decide +kernel
  obtain ⟨s, hs, hany⟩ := (Option.any_eq_true ..).mp hrun
  obtain ⟨r, hr, hgone⟩ := (Option.any_eq_true ..).mp hany
  have hgone' : s.broker.hasQueue r.replyQueue = false := (Bool.not_eq_true' _).mp hgone
  refine ⟨s, r, hs, hr, hgone', fun hopen => ?_⟩
  have hqueue := (reply_queue_fate loneEdge lateCommandRun s hs 2 r hr).2.1.mpr hopen
  rw [Broker.hasQueue, hqueue] at hgone'
  cases hgone'

/-! ### Who silences the responders -/

/-- A pump that hands a request to its handler names that request's reply queue. -/
theorem repliesTo_request (h : Legal cfg s) {c : ConnId ι} {q : Bytes} {m : Message}
    {broker : Broker (ConnId ι) Bytes Message} {address : ReplyAddress}
    (hrec : s.broker.receive c = some (q, m, broker))
    (ha : replyAddress m.envelope = some address) {e : Dispatched ι} (he : e.message = m)
    (hnew : t.dispatched = s.dispatched ++ [e]) :
    RepliesTo s c ↔ ∀ e, t.dispatched = s.dispatched ++ [e] → ∀ k r,
      e.message.origin = .request k → s.requests[k]? = some r →
        s.broker.hasQueue r.replyQueue = true := by
  rw [repliesTo_iff hrec ha]
  have htraced := h.correlated.message _ (Broker.mem_receive hrec).1
  cases htraced with
  | @request _ _ k r horigin hr hprops =>
    have hproper := h.wired.proper r (List.mem_of_getElem? hr)
    obtain rfl := replyAddress_request hprops hproper.clean hproper.checksum ha
    constructor
    · intro hqueue e' hnew' k' r' horigin' hr'
      obtain rfl := List.singleton_inj.mp (List.append_cancel_left (hnew.symm.trans hnew'))
      obtain rfl := Origin.request.inj (horigin.symm.trans (he ▸ horigin'))
      obtain rfl := Option.some.inj (hr.symm.trans hr')
      exact hqueue
    · exact fun hall => hall e hnew k r (he ▸ horigin) hr
  | reply _ _ hprops =>
    have hclash := (replyAddress_reply hprops).symm.trans ha
    cases hclash

theorem replyQueueThere_iff (h : Legal cfg s) (hstep : (system cfg).step s l = some t) :
    ReplyQueueThere s l ↔ ∀ e, t.dispatched = s.dispatched ++ [e] → ∀ k r,
      e.message.origin = .request k → s.requests[k]? = some r →
        s.broker.hasQueue r.replyQueue = true := by
  have hquiet : t.dispatched = s.dispatched → ∀ e, t.dispatched ≠ s.dispatched ++ [e] := by
    intro hsame e hnew
    have hlen := congrArg List.length (hsame.symm.trans hnew)
    rw [List.length_append, List.length_singleton] at hlen
    exact absurd hlen.symm (Nat.succ_ne_self _)
  have hidle : ReplyQueueThere s l → (∀ e, ¬ Hands s l e) →
      (ReplyQueueThere s l ↔ ∀ e, t.dispatched = s.dispatched ++ [e] → ∀ k r,
        e.message.origin = .request k → s.requests[k]? = some r →
          s.broker.hasQueue r.replyQueue = true) := by
    intro hthere hno
    refine iff_of_true hthere fun e hnew => ?_
    rcases step_dispatched hstep with hsame | ⟨e', -, hands⟩
    · exact absurd hnew (hquiet hsame e)
    · exact absurd hands (hno e')
  cases l with
  | pumpArbiter =>
    obtain ⟨-, q, m, broker, hrec, ⟨ha, rfl⟩ | ⟨address, ha, rfl⟩⟩ := pumpArbiter_cases hstep
    · exact iff_of_true (repliesTo_of_dropped hrec ha) fun e hnew => absurd hnew (hquiet rfl e)
    · refine repliesTo_request h hrec ha (e := ⟨q, m, .arbiter s.agent⟩) rfl ?_
      rw [dispatch_frame]
  | pumpDevice d answer =>
    obtain ⟨-, -, q, m, broker, hrec, ⟨ha, rfl⟩ | ⟨address, lost, ha, -, rfl⟩⟩ :=
      pumpDevice_cases hstep
    · exact iff_of_true (repliesTo_of_dropped hrec ha) fun e hnew => absurd hnew (hquiet rfl e)
    · refine repliesTo_request h hrec ha (e := ⟨q, m, .device d answer⟩) rfl ?_
      rw [dispatch_frame]
  | call | waitDevice | userCommand | waitArbiter | deliver | lose | post =>
    exact hidle trivial fun e hands => by cases hands

/-- In every run of the program's own traffic, the responders keep their channels exactly when
each request that a pump takes comes from a party that has failed to subscribe to its reply
queue, or that has subscribed to it and had the channel open since it sent the request. -/
theorem responders_silenced_iff (cfg : Config ι) (ls : List (Label ι))
    (hown : (system cfg).Along OwnTraffic (.init cfg) ls) :
    (system cfg).Always (Responsive cfg) (.init cfg) ls ↔
      ∀ ls₁ l ls₂ u v, ls = ls₁ ++ l :: ls₂ → (system cfg).run (.init cfg) ls₁ = some u →
        (system cfg).step u l = some v → ∀ e, v.dispatched = u.dispatched ++ [e] → ∀ k r,
          e.message.origin = .request k → u.requests[k]? = some r →
            Unheard cfg ls₁ k r ∨ OpenSince cfg ls₁ k r := by
  have hkeeps : (system cfg).Always (Responsive cfg) (.init cfg) ls ↔
      (system cfg).Along ReplyQueueThere (.init cfg) ls :=
    Machine.always_iff_along (fun _ _ _ => shaped_step) (fun _ _ _ => responsive_step)
      shaped_init responsive_init
  rw [hkeeps, Machine.along_iff_splits]
  refine forall₃_congr fun ls₁ l ls₂ => forall₂_congr fun u v => ?_
  refine forall₃_congr fun hls hrun hstep => ?_
  have hlegal : Legal cfg u := run_legal (hls ▸ hown).left hrun
  rw [replyQueueThere_iff hlegal hstep]
  refine forall₂_congr fun e _ => forall₂_congr fun k r => forall₂_congr fun _ hr => ?_
  rw [Broker.hasQueue]
  rcases replyQueue_states hrun hr with ⟨hun, hno, hqueue⟩ | ⟨hun, hopen, hqueue⟩ |
    ⟨hun, hno, hqueue⟩
  · simp only [hqueue, hun, Option.isSome_some, true_or]
  · simp only [hqueue, hopen, Option.isSome_some, or_true]
  · simp only [hqueue, hun, hno, Option.isSome_none, Bool.false_eq_true, or_self]

/-- The edge's pump takes a command whose sender has closed its connection. -/
theorem responders_silenced_late :
    ∃ ls₁ l ls₂ u v e k r, lateCommandRun = ls₁ ++ l :: ls₂ ∧
      (system loneEdge).run (.init loneEdge) ls₁ = some u ∧
      (system loneEdge).step u l = some v ∧ v.dispatched = u.dispatched ++ [e] ∧
      e.message.origin = .request k ∧ u.requests[k]? = some r ∧
      ¬ (Unheard loneEdge ls₁ k r ∨ OpenSince loneEdge ls₁ k r) := by
  have hrun : ((system loneEdge).run (.init loneEdge) lateCommandRun).any (fun s =>
      (s.device ()).source && !s.broker.channelOpen (.device ())) = true := by decide +kernel
  obtain ⟨s, hs, hlost⟩ := (Option.any_eq_true ..).mp hrun
  simp only [Bool.and_eq_true, Bool.not_eq_true'] at hlost
  have hsilent : ¬ (system loneEdge).Always (Responsive loneEdge) (.init loneEdge)
      lateCommandRun := by
    intro h
    have hopen := ((h.of_run hs).device () hlost.1).channel
    have hclash := hlost.2.symm.trans hopen
    cases hclash
  rw [responders_silenced_iff loneEdge lateCommandRun (by decide +kernel)] at hsilent
  by_contra hnone
  refine hsilent fun ls₁ l ls₂ u v hls hu hv e he k r hk hr => ?_
  by_contra hneither
  exact hnone ⟨ls₁, l, ls₂, u, v, e, k, r, hls, hu, hv, he, hk, hr, hneither⟩

end Chamge
