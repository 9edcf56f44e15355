import Chamge.AnswerOrigin
import Chamge.Registration

/-! Where a device's call takes effect in the registry: in one step of the arbiter's pump,
between the call and its return. -/

namespace Chamge
open CString JsonGlib

variable {ι : Type} [DecidableEq ι] {cfg : Config ι} {s t : System ι} {d : ι} {l : Label ι}

/-! ### The call that a device waits in -/

structure OpenCall where
  action : NodeAction
  method : BackendMethod
  request : ℕ

def DeviceWait.call (w : DeviceWait) : OpenCall := ⟨w.action, w.method, w.request⟩

def System.openCall (s : System ι) (d : ι) : Option OpenCall :=
  (s.device d).wait.map DeviceWait.call

theorem call_openCall {a : NodeAction} {start : Start} {c : OpenCall}
    (h : s.call cfg d a start = some t) (ht : t.openCall d = some c) :
    a = c.action ∧ methodReached (s.device d).node a = some c.method ∧
      c.request = s.requests.length := by
  obtain ⟨-, ⟨-, rfl⟩ | ⟨-, rfl⟩ | ⟨method, s₁, c', s₂, w, hm, -, hopen, hstart, hw⟩⟩ :=
    call_cases h
  · rw [System.openCall, setDevice_device_self] at ht
    cases ht
  · rw [System.openCall, setDevice_device_self] at ht
    cases ht
  have hreq : s₁.requests = s.requests := by rw [openFor_frame hopen]
  rcases hw with ⟨-, rfl⟩ | ⟨k, rfl, rfl⟩
  · rw [System.openCall, finishCall_device_self] at ht
    cases ht
  · rw [System.openCall, setDevice_device_self] at ht
    obtain rfl := Option.some.inj ht
    rcases startRequest_requests hstart with ⟨-, hnone⟩ | ⟨r, -, hnone | hk, -⟩
    · cases hnone
    · cases hnone
    · exact ⟨rfl, hm, (Option.some.inj hk).trans (congrArg List.length hreq)⟩

theorem waitDevice_openCall {failed : Option AmqpRpcReply} {fin : Finish} {c : OpenCall}
    (h : s.waitDevice cfg d failed fin = some t) (ht : t.openCall d = some c) :
    s.openCall d = some c := by
  obtain ⟨w, r, hw, -, hcase⟩ := waitDevice_cases h
  have hleft : ∀ {u : System ι} {o : ConsumeOutcome}, u.waitPass cfg d w r o fin = some t →
      s.openCall d = some c := by
    intro u o hpass
    rw [System.openCall] at ht
    rcases waitPass_wait hpass with hnone | ⟨-, hsome⟩
    · rw [hnone] at ht
      cases ht
    · rw [hsome] at ht
      rw [System.openCall, hw]
      exact ht
  rcases hcase with ⟨reply, -, -, hpass⟩ | ⟨q, m, broker, -, -, hpass⟩
  · exact hleft hpass
  · exact hleft hpass

/-- A call is opened by the step in which the device makes it. -/
theorem step_openCall {c : OpenCall} (h : (system cfg).step s l = some t)
    (ht : t.openCall d = some c) : s.openCall d = some c ∨
    ∃ start, l = .call d c.action start ∧
      methodReached (s.device d).node c.action = some c.method ∧
      c.request = s.requests.length := by
  by_cases hl : l.device = some d
  · cases l with
    | call d' a start =>
      obtain rfl := Option.some.inj hl
      obtain ⟨rfl, hm, hk⟩ := call_openCall h ht
      exact Or.inr ⟨start, rfl, hm, hk⟩
    | waitDevice d' failed fin =>
      obtain rfl := Option.some.inj hl
      exact Or.inl (waitDevice_openCall h ht)
    | pumpDevice d' answer =>
      left
      rwa [System.openCall, ← (pumpDevice_frame h).1]
    | userCommand | waitArbiter | pumpArbiter | deliver | lose | post => cases hl
  · left
    rwa [System.openCall, ← step_device_ne hl h]

theorem openCall_split {ls : List (Label ι)} {c : OpenCall}
    (hrun : (system cfg).run (.init cfg) ls = some s) (hc : s.openCall d = some c) :
    ∃ ls₁ start ls₂ u, ls = ls₁ ++ .call d c.action start :: ls₂ ∧
      (system cfg).run (.init cfg) ls₁ = some u ∧ c.request = u.requests.length ∧
      methodReached (u.device d).node c.action = some c.method := by
  have hinit : ¬ (System.init cfg).openCall d = some c := by
    have hnone : (System.init cfg).openCall d = none := rfl
    rw [hnone]
    nofun
  obtain ⟨ls₁, l, ls₂, u, v, hls, hrun₁, hno, hstep, hyes, -⟩ :=
    Machine.exists_step_of_run (Q := fun u => u.openCall d = some c) hinit hc hrun
  obtain ⟨start, rfl, hm, hk⟩ := (step_openCall hstep hyes).resolve_left hno
  exact ⟨ls₁, start, ls₂, u, hls, hrun₁, hk, hm⟩

/-! ### The answer that changes a node's state -/

theorem nodeAction_fail_state (n : ChamgeNode) (a : NodeAction) :
    (nodeAction n a .fail).node.state = n.state := by
  have hcall := nodeCall n a .fail
  generalize methodReached n a = m at hcall
  cases hcall with
  | none hstate => exact hstate
  | enroll hn _ hstate => exact hstate.trans hn.symm
  | activate hn _ _ hstate => exact hstate.trans hn.symm
  | deactivate hn _ _ hstate => exact hstate.trans hn.symm
  | delist _ _ hstate => exact hstate

theorem validate_none_ne_ok {type : DeviceType} {json : JsonParser} {shouldbe : Bytes} :
    type.validate json none shouldbe ≠ some .ok := by
  cases type with
  | edge => nofun
  | hub => nofun

theorem nodeAction_deactivate_state {n : ChamgeNode} {a : NodeAction}
    (hm : methodReached n a = some .deactivate) :
    n.state = .activated ∧ (nodeAction n a .ok).node.state = .enrolled := by
  have hcall := nodeCall n a .ok
  rw [hm] at hcall
  cases hcall with
  | deactivate hn _ _ hstate => exact ⟨hn, hstate⟩

/-- The step of a call itself changes the state only where no answer is asked for. -/
theorem call_state {a : NodeAction} {start : Start} (h : s.call cfg d a start = some t)
    (hne : (t.device d).node.state ≠ (s.device d).node.state) :
    methodReached (s.device d).node a = some .deactivate ∧ t.requests = s.requests ∧
      (s.device d).node.state = .activated ∧ (t.device d).node.state = .enrolled := by
  obtain ⟨-, ⟨-, rfl⟩ | ⟨hm, rfl⟩ | ⟨method, s₁, c, s₂, w, -, -, hopen, hstart, hw⟩⟩ :=
    call_cases h
  · rw [setDevice_device_self] at hne
    exact absurd (nodeAction_fail_state ..) hne
  · obtain ⟨hactive, hlater⟩ := nodeAction_deactivate_state hm
    refine ⟨hm, rfl, hactive, ?_⟩
    rw [setDevice_device_self]
    exact hlater
  have hnode : (s₂.device d).node = (s.device d).node := by
    obtain ⟨connected, hdev⟩ := openFor_device (e := d) hopen
    rw [startRequest_frame hstart, hdev]
  rcases hw with ⟨-, rfl⟩ | ⟨k, -, rfl⟩
  · rw [finishCall_node, nodeAction_fail_state, hnode] at hne
    exact absurd rfl hne
  · rw [setDevice_device_self] at hne
    exact absurd (congrArg ChamgeNode.state hnode) hne

/-- A node changes its state only when its loop has taken a message for the answer. -/
theorem waitPass_state {w : DeviceWait} {r : Request ι} {o : ConsumeOutcome} {fin : Finish}
    (h : s.waitPass cfg d w r o fin = some t)
    (hne : (t.device d).node.state ≠ (s.device d).node.state) :
    ∃ e, waitLoop (some 10) r.correlationId w.retry [o] = some (.reply e) := by
  rcases waitPass_cases h with ⟨-, rfl⟩ | ⟨e, hloop, -⟩ | ⟨x, -, -, hend⟩
  · rw [setDevice_device_self] at hne
    exact absurd rfl hne
  · exact ⟨e, hloop⟩
  rcases endWait_cases hend with ⟨-, rfl⟩ | ⟨ret, -, -, rfl⟩ | ⟨hvalid, -⟩
  · rw [setDevice_device_self] at hne
    exact absurd rfl hne
  · rw [finishCall_node] at hne
    exact absurd (nodeAction_fail_state ..) hne
  · exact absurd hvalid validate_none_ne_ok

/-- The arbiter has handled the request whose answer changes the node's state. -/
theorem waitDevice_state (huid : ∀ d, cfg.uid d ≠ cfg.enrollQueue) (hlegal : Legal cfg s)
    {failed : Option AmqpRpcReply} {fin : Finish}
    (h : s.waitDevice cfg d failed fin = some t)
    (hne : (t.device d).node.state ≠ (s.device d).node.state) :
    ∃ w, (s.device d).wait = some w ∧ ∃ e ∈ s.dispatched, e.queue = cfg.enrollQueue ∧
      e.message.origin = .request w.request ∧
      e.message.body = requestBody (cfg.kind d) w.method (cfg.uid d) := by
  obtain ⟨w, r, hw, hr, hcase⟩ := waitDevice_cases h
  obtain ⟨-, -, r', hr', -, htarget, hbody⟩ := hlegal.shaped.device d w hw
  obtain rfl := Option.some.inj (hr.symm.trans hr')
  refine ⟨w, hw, ?_⟩
  rcases hcase with ⟨reply, -, hreply, hpass⟩ | ⟨q, m, broker, -, hrec, hpass⟩
  · obtain ⟨e, hloop⟩ := waitPass_state hpass hne
    obtain ⟨hnormal, -⟩ := waitVerdict_reply_eq (verdict_of_waitLoop hloop)
    exact absurd hnormal hreply
  · rw [logAccepted_frame] at hpass
    obtain ⟨e, hloop⟩ := waitPass_state hpass hne
    obtain ⟨-, r', hr', e', he', horigin, hqueue, hbody', -⟩ :=
      accepted_answers huid hlegal.wired hlegal.correlated hr hrec (verdict_of_waitLoop hloop)
    obtain rfl := Option.some.inj (hr.symm.trans hr')
    exact ⟨e', he', hqueue.trans htarget, horigin, hbody'.trans hbody⟩

/-! ### The step of the arbiter -/

theorem pumped_split (huid : ∀ d, cfg.uid d ≠ cfg.enrollQueue) {ls : List (Label ι)}
    {e : Dispatched ι} {k : ℕ} (hown : (system cfg).Along OwnTraffic (.init cfg) ls)
    (hrun : (system cfg).run (.init cfg) ls = some s) (he : e ∈ s.dispatched)
    (hqueue : e.queue = cfg.enrollQueue) (horigin : e.message.origin = .request k) :
    ∃ ls₁ ls₂ v v', ls = ls₁ ++ .pumpArbiter :: ls₂ ∧
      (system cfg).run (.init cfg) ls₁ = some v ∧ Hands v .pumpArbiter e ∧
      TakesRequest cfg v .pumpArbiter k ∧ (system cfg).step v .pumpArbiter = some v' ∧
      v'.agent = (arbiterProcessJsonMessage cfg.json amqpArbiterBackend e.message.body
        v.agent).2 := by
  obtain ⟨ls₁, l, ls₂, v, v', rfl, hrun₁, hstep, hnew, hands, -⟩ := dispatched_split hrun he
  have hlegal := run_legal hown.left hrun₁
  obtain rfl := (hands_enrollQueue hlegal huid hands).mp hqueue
  refine ⟨ls₁, ls₂, v, v', rfl, hrun₁, hands, ⟨e, v', hstep, hnew, hands, horigin⟩, hstep, ?_⟩
  rcases step_agent hstep with ⟨-, hquiet⟩ | ⟨e', hnew', -, hagent⟩
  · have hclash := (hquiet rfl).symm.trans hnew
    exact absurd (congrArg List.length hclash) (by simp)
  · obtain rfl : e = e' := by
      have hsame := hnew.symm.trans hnew'
      exact (List.cons.inj (List.append_cancel_left hsame)).1
    exact hagent

/-! ### Calls -/

/-- Between the step in which the device has made the call and the end of the run there is a
step of the arbiter's pump that takes the request of the call and does to the lists what the
call asks for. -/
def TakesEffect (cfg : Config ι) (ls : List (Label ι)) (d : ι) (c : OpenCall) : Prop :=
  ∃ ls₁ start ls₂ ls₃ u v v',
    ls = ls₁ ++ .call d c.action start :: (ls₂ ++ .pumpArbiter :: ls₃) ∧
    (system cfg).run (.init cfg) ls₁ = some u ∧ c.request = u.requests.length ∧
    methodReached (u.device d).node c.action = some c.method ∧
    (system cfg).run u (.call d c.action start :: ls₂) = some v ∧
    TakesRequest cfg v .pumpArbiter c.request ∧ (system cfg).step v .pumpArbiter = some v' ∧
    ∀ type, v'.agent.listOf type =
      if type = cfg.kind d then c.method.applied (v.agent.listOf type) (cfg.uid d)
      else v.agent.listOf type

theorem waitDevice_takesEffect (hjson : ReadsPlain cfg.json) (hplain : ∀ d, Plain (cfg.uid d))
    (huid : ∀ d, cfg.uid d ≠ cfg.enrollQueue) {ls : List (Label ι)}
    (hown : (system cfg).Along OwnTraffic (.init cfg) ls)
    (hrun : (system cfg).run (.init cfg) ls = some s) {failed : Option AmqpRpcReply}
    {fin : Finish} (hstep : s.waitDevice cfg d failed fin = some t)
    (hne : (t.device d).node.state ≠ (s.device d).node.state) :
    ∃ c, s.openCall d = some c ∧ TakesEffect cfg ls d c := by
  have hlegal := run_legal hown hrun
  obtain ⟨w, hw, e, he, hqueue, horigin, hbody⟩ := waitDevice_state huid hlegal hstep hne
  have hcall : s.openCall d = some w.call := by
    rw [System.openCall, hw]
    rfl
  refine ⟨w.call, hcall, ?_⟩
  obtain ⟨ls₁, start, rest, u, hls, hrun₁, hk, hm⟩ := openCall_split hrun hcall
  obtain ⟨ls', ls₃, v, v', hls', hrun', hands, htakes, hpump, hagent⟩ :=
    pumped_split huid hown hrun he hqueue horigin
  have hlegal' : Legal cfg v := run_legal (hls' ▸ hown).left hrun'
  have hsent : u.requests.length < v.requests.length := by
    obtain ⟨r, hr, -⟩ := hands_request hlegal' horigin hands
    have hlt := (List.getElem?_eq_some_iff.mp hr).1
    rwa [← hk]
  rcases List.append_eq_append_iff.mp (hls.symm.trans hls') with
    ⟨mid, rfl, hrest⟩ | ⟨mid, rfl, -⟩
  · cases mid with
    | nil => cases (List.cons.inj hrest).1
    | cons l ls₂ =>
      obtain ⟨rfl, rfl⟩ := List.cons.inj hrest
      obtain ⟨u', hu', hrunv⟩ := Machine.run_append_eq_some.mp hrun'
      obtain rfl := Option.some.inj (hrun₁.symm.trans hu')
      refine ⟨ls₁, start, ls₂, ls₃, u, v, v', hls, hrun₁, hk, hm, hrunv, htakes, hpump,
        fun type => ?_⟩
      rw [hagent, hbody, (process_requestBody hjson (hplain d) (cfg.kind d) w.method v.agent).2]
      rfl
  · -- the pump would be before the request
    obtain ⟨v₁, hv₁, hrunu⟩ := Machine.run_append_eq_some.mp hrun₁
    obtain rfl := Option.some.inj (hrun'.symm.trans hv₁)
    exact absurd (run_requests hrunu).length_le (Nat.not_le.mpr hsent)

/-- In every run of the program's own traffic, a step that changes a device's state is either
a deactivate, which asks the arbiter for nothing, or the end of a call whose request the arbiter
has taken, and done to its lists what the call asks for, in one step after the call began. -/
theorem calls_take_effect (cfg : Config ι) (hjson : ReadsPlain cfg.json)
    (hplain : ∀ d, Plain (cfg.uid d)) (huid : ∀ d, cfg.uid d ≠ cfg.enrollQueue)
    (ls : List (Label ι)) (s t : System ι)
    (hown : (system cfg).Along OwnTraffic (.init cfg) ls)
    (hrun : (system cfg).run (.init cfg) ls = some s) (l : Label ι) (d : ι)
    (hstep : (system cfg).step s l = some t)
    (hne : (t.device d).node.state ≠ (s.device d).node.state) :
    (∃ a start, l = .call d a start ∧ methodReached (s.device d).node a = some .deactivate ∧
      t.requests = s.requests ∧ (s.device d).node.state = .activated ∧
      (t.device d).node.state = .enrolled) ∨
    ∃ failed fin c, l = .waitDevice d failed fin ∧ s.openCall d = some c ∧
      TakesEffect cfg ls d c := by
  have hl : l.device = some d := by
    by_contra hother
    exact hne (by rw [step_device_ne hother hstep])
  cases l with
  | call d' a start =>
    obtain rfl := Option.some.inj hl
    exact Or.inl ⟨a, start, rfl, call_state hstep hne⟩
  | waitDevice d' failed fin =>
    obtain rfl := Option.some.inj hl
    obtain ⟨c, hc, heffect⟩ := waitDevice_takesEffect hjson hplain huid hown hrun hstep hne
    exact Or.inr ⟨failed, fin, c, rfl, hc, heffect⟩
  | pumpDevice d' answer =>
    rw [(pumpDevice_frame hstep).1] at hne
    exact absurd rfl hne
  | userCommand | waitArbiter | pumpArbiter | deliver | lose | post => cases hl

/-- An enroll up to its answer, a command for the edge on the way. -/
def answeredEnroll : List (Label Unit) :=
  [.call () (.enroll none) (sentAs 0), .userCommand (commandTo (cstr "edge-1")) .refused,
    .deliver 0 .arbiter, .pumpArbiter, .deliver 0 (.device ())]

theorem calls_take_effect_enroll :
    ∃ s t c, (system loneEdge).run (.init loneEdge) answeredEnroll = some s ∧
      (system loneEdge).step s (.waitDevice () none .ok) = some t ∧
      (t.device ()).node.state = .enrolled ∧ s.openCall () = some c ∧
      TakesEffect loneEdge answeredEnroll () c := by
  have hrun : ((system loneEdge).run (.init loneEdge) answeredEnroll).any (fun s =>
      ((system loneEdge).step s (.waitDevice () none .ok)).any fun t =>
        (s.device ()).node.state = .null && (t.device ()).node.state = .enrolled) = true := by
    decide +kernel
  obtain ⟨s, hs, hnext⟩ := (Option.any_eq_true ..).mp hrun
  obtain ⟨t, ht, hstates⟩ := (Option.any_eq_true ..).mp hnext
  simp only [Bool.and_eq_true, decide_eq_true_eq] at hstates
  have hne : (t.device ()).node.state ≠ (s.device ()).node.state := by
    rw [hstates.1, hstates.2]
    decide
  have hplain : ∀ d, Plain (loneEdge.uid d) := fun _ => plain_cstr (by decide)
  have huid : cstr "edge-1" ≠ cstr "enroll" := by decide
  rcases calls_take_effect loneEdge plainParser_reads hplain (fun _ => huid) answeredEnroll s t
    (by decide +kernel) hs _ () ht hne with ⟨a, start, hl, -⟩ | ⟨failed, fin, c, -, hc, heffect⟩
  · cases hl
  · exact ⟨s, t, c, hs, ht, hstates.2, hc, heffect⟩

end Chamge
