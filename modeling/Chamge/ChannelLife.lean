import Chamge.Waits

/-! Whether the responders keep the channels that hold their subscriptions. -/

namespace Chamge
open CString JsonGlib

variable {ι : Type} [DecidableEq ι] {cfg : Config ι} {s t : System ι}

/-- The arbiter's channel, and that of every device with its source in the main loop, is open
and has the subscription to the responder's queue. -/
structure Responsive (cfg : Config ι) (s : System ι) : Prop where
  arbiter : s.broker.Attached cfg.enrollQueue .arbiter
  device : ∀ d, (s.device d).source = true → s.broker.Attached (cfg.uid d) (.device d)

/-- The request that a pump takes from its connection, if it dispatches it, names a reply
queue that exists. -/
def RepliesTo (s : System ι) (c : ConnId ι) : Prop :=
  ∀ q m broker address, s.broker.receive c = some (q, m, broker) →
    replyAddress m.envelope = some address → s.broker.hasQueue address.replyQueue = true

def ReplyQueueThere (s : System ι) : Label ι → Prop
  | .pumpDevice d _ => RepliesTo s (.device d)
  | .pumpArbiter => RepliesTo s .arbiter
  | _ => True

theorem responsive_init : Responsive cfg (.init cfg) :=
  ⟨⟨rfl, [.arbiter], if_pos rfl, List.mem_singleton_self _⟩, fun d hd => by cases hd⟩

omit [DecidableEq ι] in
theorem Responsive.of_keeps (h : Responsive cfg s) (harb : s.broker.Keeps .arbiter t.broker)
    (hdev : ∀ d, (t.device d).source = true → (s.device d).source = true ∧
      s.broker.Keeps (.device d) t.broker) : Responsive cfg t :=
  ⟨harb _ h.arbiter, fun d hd => (hdev d hd).2 _ (h.device d (hdev d hd).1)⟩

omit [DecidableEq ι] in
theorem Responsive.of_device_eq (h : Responsive cfg s) (hdev : t.device = s.device)
    (hkeeps : ∀ c, s.broker.Keeps c t.broker) : Responsive cfg t := by
  refine h.of_keeps (hkeeps _) fun d hd => ⟨?_, hkeeps _⟩
  rwa [hdev] at hd

theorem source_setDevice {d e : ι} {dev : Device}
    (hdev : dev.source = true → (s.device d).source = true)
    (he : ((s.setDevice d dev).device e).source = true) : (s.device e).source = true := by
  by_cases hed : e = d
  · subst hed
    rw [setDevice_device_self] at he
    exact hdev he
  · rwa [setDevice_device_ne _ _ hed] at he

theorem Responsive.setDevice (h : Responsive cfg s) {d : ι} {dev : Device}
    (hdev : dev.source = true → (s.device d).source = true) :
    Responsive cfg (s.setDevice d dev) :=
  h.of_keeps (Broker.Keeps.refl _ _) fun _ he => ⟨source_setDevice hdev he, Broker.Keeps.refl _ _⟩

/-! ### What a step does to the channels -/

theorem startRequest_keeps {who : Caller ι} {c c' : ConnId ι} {target body : Bytes} {start : Start}
    {w : Option ℕ} (h : s.startRequest who c target body start = some (t, w))
    (hq : s.broker.hasQueue target = true ∨ c' ≠ c) : s.broker.Keeps c' t.broker := by
  rcases startRequest_cases h with
    ⟨-, rfl | ⟨hno, rfl⟩, -⟩ | ⟨cid, rq, -, ⟨-, -, rfl⟩ | ⟨-, -, rfl⟩⟩
  · exact Broker.Keeps.refl _ _
  · rcases hq with hq | hq
    · have hclash := hno.symm.trans hq
      cases hclash
    · exact Broker.keeps_cancel hq
  · exact Broker.keeps_declare.trans Broker.keeps_publish
  · exact (Broker.keeps_declare.trans Broker.keeps_publish).trans Broker.keeps_subscribe

theorem closeLink_keeps {c c' : ConnId ι} {fin : Finish} (hc : c' ≠ c) :
    s.broker.Keeps c' (s.closeLink c fin).broker := by
  cases fin with
  | ok => exact Broker.keeps_close hc
  | failed => exact Broker.Keeps.refl _ _
  | partly => exact Broker.keeps_cancel hc

theorem finishCall_keeps {c : ConnId ι} {d : ι} {w : NodeAction × BackendMethod}
    {r : ChamgeReturn} (hc : c ≠ .device d) :
    s.broker.Keeps c (s.finishCall cfg d w r).broker := by
  rw [finishCall_broker]
  split_ifs
  · exact Broker.keeps_close hc
  · exact Broker.Keeps.refl _ _

theorem finishCall_responsive {d : ι} {w : NodeAction × BackendMethod} {r : ChamgeReturn}
    (h : Responsive cfg s) : Responsive cfg (s.finishCall cfg d w r) := by
  refine h.of_keeps (finishCall_keeps (by simp)) fun e he => ?_
  by_cases hed : e = d
  · subst hed
    rw [finishCall_device_self] at he
    split_ifs at he with hm
    · cases he
    · rw [finishCall_broker, if_neg hm]
      exact ⟨he, Broker.Keeps.refl _ _⟩
  · rw [finishCall_device_ne hed] at he
    exact ⟨he, finishCall_keeps (device_ne_device hed)⟩

theorem endWait_responsive {d : ι} {w : DeviceWait} {r : Request ι} {response : Option Bytes}
    {fin : Finish} (h : Responsive cfg s)
    (hconn : r.conn = if w.method = .delist then .temp w.request else .device d)
    (hend : s.endWait cfg d w r response fin = some t) : Responsive cfg t := by
  rcases endWait_cases hend with ⟨-, rfl⟩ | ⟨ret, -, -, rfl⟩ | ⟨-, ⟨-, rfl⟩ | ⟨hm, ret, -, rfl⟩ |
    ⟨-, s₁, ret, hsub, rfl⟩⟩
  · -- a hub without a response ends with all its connections
    have hkeeps : ∀ c, (∀ k, c ≠ .temp k) → c ≠ .device d → s.broker.Keeps c
        ((s.broker.close (.device d)).closeAll (s.linksOf d)) := fun c htemp hdev =>
      (Broker.keeps_close hdev).trans (Broker.keeps_closeAll (not_mem_linksOf htemp))
    refine h.of_keeps (hkeeps _ (by simp) (by simp)) fun e he => ?_
    by_cases hed : e = d
    · subst hed
      rw [setDevice_device_self] at he
      cases he
    · rw [setDevice_device_ne _ _ hed] at he
      refine ⟨?_, hkeeps _ (by simp) (device_ne_device hed)⟩
      simpa [System.dropDevice, hed] using he
  · exact finishCall_responsive h
  · exact finishCall_responsive h
  · rw [closeLink_frame]
    have htemp : r.conn = .temp w.request := hconn.trans (if_pos hm)
    refine finishCall_responsive (h.of_keeps ?_ fun e he => ⟨he, ?_⟩)
    · exact closeLink_keeps (by simp [htemp])
    · exact closeLink_keeps (by simp [htemp])
  · have hkeeps : ∀ c, c ≠ .device d → s.broker.Keeps c s₁.broker := by
      intro c hc
      rcases subscribe_cases hsub with ⟨-, rfl | ⟨-, rfl⟩ | ⟨-, rfl⟩⟩ | ⟨-, -, -, rfl⟩
      · exact Broker.Keeps.refl _ _
      · exact Broker.keeps_cancel hc
      · exact Broker.keeps_declare
      · exact Broker.keeps_declare.trans Broker.keeps_subscribe
    refine ⟨hkeeps .arbiter (by simp) _ h.arbiter, fun e he => ?_⟩
    by_cases hed : e = d
    · subst hed
      rw [setDevice_device_self] at he
      rcases subscribe_cases hsub with ⟨rfl, -⟩ | ⟨-, hchan, -, rfl⟩
      · cases he
      · refine Broker.attached_subscribe ?_ Broker.hasQueue_declare
        rw [Broker.declare_channelOpen]
        exact hchan
    · rw [setDevice_device_ne _ _ hed, subscribe_frame hsub] at he
      exact hkeeps _ (device_ne_device hed) _ (h.device e he)

theorem waitPass_responsive {d : ι} {w : DeviceWait} {r : Request ι} {o : ConsumeOutcome}
    {fin : Finish} (h : Responsive cfg s)
    (hconn : r.conn = if w.method = .delist then .temp w.request else .device d)
    (hpass : s.waitPass cfg d w r o fin = some t) : Responsive cfg t := by
  rcases waitPass_cases hpass with ⟨-, rfl⟩ | ⟨e, -, hend⟩ | ⟨x, -, -, hend⟩
  · exact h.setDevice id
  · exact endWait_responsive h hconn hend
  · exact endWait_responsive h hconn hend

theorem call_responsive {d : ι} {a : NodeAction} {start : Start} (h : Responsive cfg s)
    (hcall : s.call cfg d a start = some t) : Responsive cfg t := by
  obtain ⟨-, ⟨-, rfl⟩ | ⟨-, rfl⟩ | ⟨method, s₁, c, s₂, w, -, -, hopen, hstart, hw⟩⟩ :=
    call_cases hcall
  · exact h.setDevice id
  · refine h.setDevice fun hsource => ?_
    cases hsource
  have hkeeps₁ : ∀ c', s.broker.Keeps c' s₁.broker := by
    intro c'
    rcases openFor_cases hopen with ⟨-, -, rfl⟩ | ⟨-, -, -, rfl⟩ | ⟨-, -, rfl⟩
    · exact Broker.Keeps.refl _ _
    · exact Broker.keeps_connect
    · exact Broker.keeps_connect
  -- the arbiter's own subscription keeps the queue of the requests there
  have hqueue : s₁.broker.hasQueue cfg.enrollQueue = true :=
    Broker.hasQueue_of_consumes (hkeeps₁ _ _ h.arbiter).consumes
  have hkeeps : ∀ c', s.broker.Keeps c' s₂.broker :=
    fun c' => (hkeeps₁ c').trans (startRequest_keeps hstart (Or.inl hqueue))
  have hsource : ∀ e, (s₂.device e).source = (s.device e).source := by
    intro e
    obtain ⟨connected, he⟩ := openFor_device (e := e) hopen
    have hframe : s₂.device e = s₁.device e := by rw [startRequest_frame hstart]
    rw [hframe, he]
  have hmid : Responsive cfg s₂ :=
    h.of_keeps (hkeeps _) fun e he => ⟨hsource e ▸ he, hkeeps _⟩
  rcases hw with ⟨-, rfl⟩ | ⟨k, -, rfl⟩
  · exact finishCall_responsive hmid
  · exact hmid.setDevice id

theorem userCommand_responsive {cmd : Bytes} {start : Start} (h : Responsive cfg s)
    (hcmd : s.userCommand cfg cmd start = some t) : Responsive cfg t := by
  obtain ⟨-, ⟨-, rfl⟩ | ⟨target, s₂, w, -, hstart, rfl⟩⟩ := userCommand_cases hcmd
  · exact h
  have hkeeps : ∀ c, c ≠ .temp s.requests.length → s.broker.Keeps c s₂.broker :=
    fun c hc => Broker.keeps_connect.trans (startRequest_keeps hstart (Or.inr hc))
  have hdev : s₂.device = s.device := by rw [startRequest_frame hstart]
  refine h.of_keeps (hkeeps _ (by simp)) fun e he => ⟨?_, hkeeps _ (by simp)⟩
  rwa [← hdev]

/-! ### The pumps -/

/-- The existence check of the reply queue decides whether the channel survives. -/
theorem dispatch_attached {c : ConnId ι} {address : ReplyAddress} {e : Dispatched ι} {q : Bytes}
    (h : s.broker.Attached q c) : (s.dispatch cfg c address e).broker.Attached q c ↔
      s.broker.hasQueue address.replyQueue = true := by
  unfold System.dispatch System.answer
  split_ifs with hq
  · exact iff_of_true (Broker.keeps_publish q h) hq
  · exact iff_of_false Broker.not_attached_cancel hq

theorem dispatch_keeps {c c' : ConnId ι} {address : ReplyAddress} {e : Dispatched ι}
    (hc : c' ≠ c) : s.broker.Keeps c' (s.dispatch cfg c address e).broker := by
  unfold System.dispatch System.answer
  split_ifs
  · exact Broker.keeps_publish
  · exact Broker.keeps_cancel hc

theorem receive_hasQueue {c : ConnId ι} {q q' : Bytes} {m : Message}
    {broker : Broker (ConnId ι) Bytes Message}
    (h : s.broker.receive c = some (q, m, broker)) :
    broker.hasQueue q' = s.broker.hasQueue q' := by
  rw [Broker.hasQueue, Broker.hasQueue, Broker.receive_consumers h]

theorem repliesTo_iff {c : ConnId ι} {q : Bytes} {m : Message}
    {broker : Broker (ConnId ι) Bytes Message} {address : ReplyAddress}
    (h : s.broker.receive c = some (q, m, broker)) (ha : replyAddress m.envelope = some address) :
    RepliesTo s c ↔ s.broker.hasQueue address.replyQueue = true := by
  refine ⟨fun hr => hr q m broker address h ha, fun hq q' m' broker' address' h' ha' => ?_⟩
  obtain ⟨rfl, rfl, rfl⟩ : q = q' ∧ m = m' ∧ broker = broker' := by simpa using h.symm.trans h'
  obtain rfl := Option.some.inj (ha.symm.trans ha')
  exact hq

theorem repliesTo_of_dropped {c : ConnId ι} {q : Bytes} {m : Message}
    {broker : Broker (ConnId ι) Bytes Message}
    (h : s.broker.receive c = some (q, m, broker)) (ha : replyAddress m.envelope = none) :
    RepliesTo s c := by
  intro q' m' broker' address h' ha'
  obtain ⟨rfl, rfl, rfl⟩ : q = q' ∧ m = m' ∧ broker = broker' := by simpa using h.symm.trans h'
  have hclash := ha.symm.trans ha'
  cases hclash

theorem pumpDevice_responsive {d : ι} {answer : Option Bytes} (h : Responsive cfg s)
    (hpump : s.pumpDevice cfg d answer = some t) :
    Responsive cfg t ↔ RepliesTo s (.device d) := by
  obtain ⟨-, hsource, q, m, broker, hrec, ⟨ha, rfl⟩ | ⟨address, lost, ha, -, rfl⟩⟩ :=
    pumpDevice_cases hpump
  · refine iff_of_true ?_ (repliesTo_of_dropped hrec ha)
    exact h.of_device_eq rfl fun _ => Broker.keeps_receive hrec
  rw [repliesTo_iff hrec ha, ← receive_hasQueue hrec]
  have hown := Broker.keeps_receive hrec _ (h.device d hsource)
  have hiff : (System.dispatch cfg { s with broker, lost } (.device d) address
      ⟨q, m, .device d answer⟩).broker.Attached (cfg.uid d) (.device d) ↔
        broker.hasQueue address.replyQueue = true := dispatch_attached hown
  refine ⟨fun ht => hiff.mp (ht.device d ?_), fun hq => ⟨?_, fun e he => ?_⟩⟩
  · rw [dispatch_frame]
    exact hsource
  · exact dispatch_keeps (by simp) _ (Broker.keeps_receive hrec _ h.arbiter)
  · by_cases hed : e = d
    · subst hed
      exact hiff.mpr hq
    · rw [dispatch_frame] at he
      have hkept := Broker.keeps_receive hrec _ (h.device e he)
      exact dispatch_keeps (device_ne_device hed) _ hkept

theorem pumpArbiter_responsive (h : Responsive cfg s) (hpump : s.pumpArbiter cfg = some t) :
    Responsive cfg t ↔ RepliesTo s .arbiter := by
  obtain ⟨-, q, m, broker, hrec, ⟨ha, rfl⟩ | ⟨address, ha, rfl⟩⟩ := pumpArbiter_cases hpump
  · refine iff_of_true ?_ (repliesTo_of_dropped hrec ha)
    exact h.of_device_eq rfl fun _ => Broker.keeps_receive hrec
  rw [repliesTo_iff hrec ha, ← receive_hasQueue hrec]
  have hown := Broker.keeps_receive hrec _ h.arbiter
  refine ⟨fun ht => (dispatch_attached hown).mp ht.arbiter, fun hq => ⟨?_, fun e he => ?_⟩⟩
  · exact (dispatch_attached hown).mpr hq
  · rw [dispatch_frame] at he
    have hkept := Broker.keeps_receive hrec _ (h.device e he)
    exact dispatch_keeps (by simp) _ hkept

/-! ### Runs -/

theorem responsive_step {l : Label ι} (hshape : Shaped cfg s) (h : Responsive cfg s)
    (hstep : (system cfg).step s l = some t) : Responsive cfg t ↔ ReplyQueueThere s l := by
  cases l with
  | call d a start => exact iff_of_true (call_responsive h hstep) trivial
  | userCommand cmd start => exact iff_of_true (userCommand_responsive h hstep) trivial
  | waitDevice d failed fin =>
    refine iff_of_true ?_ trivial
    obtain ⟨w, r, hw, hr, hpass⟩ := waitDevice_cases hstep
    obtain ⟨r', hr', hconn, -⟩ := (hshape.device d w hw).request
    obtain rfl := Option.some.inj (hr.symm.trans hr')
    rcases hpass with ⟨reply, -, -, hpass⟩ | ⟨q, m, broker, -, hrec, hpass⟩
    · exact waitPass_responsive h hconn hpass
    · rw [logAccepted_frame] at hpass
      refine waitPass_responsive ?_ hconn hpass
      exact h.of_device_eq rfl fun _ => Broker.keeps_receive hrec
  | waitArbiter failed fin =>
    refine iff_of_true ?_ trivial
    obtain ⟨k, r, hk, hr, s₁, hs₁, ht⟩ := waitArbiter_cases hstep
    obtain ⟨r', hr', hconn⟩ := hshape.arbiter k hk
    obtain rfl := Option.some.inj (hr.symm.trans hr')
    have h₁ : Responsive cfg s₁ := by
      rcases hs₁ with rfl | ⟨q, m, broker, hrec, rfl⟩
      · exact h
      · rw [logAccepted_frame]
        exact h.of_device_eq rfl fun _ => Broker.keeps_receive hrec
    rcases ht with rfl | rfl
    · exact h₁
    · rw [closeLink_frame]
      refine h₁.of_keeps (closeLink_keeps ?_) fun e he => ⟨he, closeLink_keeps ?_⟩
      · simp [hconn]
      · simp [hconn]
  | pumpDevice d answer => exact pumpDevice_responsive h hstep
  | pumpArbiter => exact pumpArbiter_responsive h hstep
  | deliver i c =>
    refine iff_of_true ?_ trivial
    obtain ⟨q, m, broker, hb, rfl⟩ := deliver_cases hstep
    exact h.of_device_eq rfl fun _ => Broker.keeps_deliver hb
  | lose i =>
    refine iff_of_true ?_ trivial
    obtain ⟨broker, hb, rfl⟩ := Option.map_eq_some_iff.mp hstep
    exact h.of_device_eq rfl fun _ => Broker.keeps_lose hb
  | post q properties body =>
    refine iff_of_true ?_ trivial
    obtain rfl := Option.some.inj hstep
    exact h.of_device_eq rfl fun _ => Broker.keeps_post

/-- In every run, the responders keep their channels exactly when every request that a pump
dispatches names a reply queue that exists then. -/
theorem responsive_iff (cfg : Config ι) (ls : List (Label ι)) :
    (system cfg).Always (Responsive cfg) (.init cfg) ls ↔
      (system cfg).Along ReplyQueueThere (.init cfg) ls :=
  Machine.always_iff_along (fun _ _ _ => shaped_step) (fun _ _ _ => responsive_step)
    shaped_init responsive_init

def lateCommandRun : List (Label Unit) :=
  activatedRun ++ [.userCommand (commandTo (cstr "edge-1")) (sentAs 2), .deliver 0 (.device ()),
    .waitArbiter (some (.libraryException amqpStatusTimeout [])) .ok, .pumpDevice () none]

/-- The arbiter gives up a user command and closes its connection before the edge's pump
takes the command: the edge's check of the reply queue closes the channel of its source. -/
theorem late_command_silences_edge :
    ¬ (system loneEdge).Always (Responsive loneEdge) (.init loneEdge) lateCommandRun := by
  intro h
  have hrun : ((system loneEdge).run (.init loneEdge) lateCommandRun).any (fun s =>
      (s.device ()).source && !s.broker.channelOpen (.device ())) = true := by decide +kernel
  obtain ⟨s, hs, hlost⟩ := (Option.any_eq_true ..).mp hrun
  simp only [Bool.and_eq_true, Bool.not_eq_true'] at hlost
  have hopen := ((h.of_run hs).device () hlost.1).channel
  have hclash := hlost.2.symm.trans hopen
  cases hclash

end Chamge
