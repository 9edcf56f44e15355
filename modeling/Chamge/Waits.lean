import Chamge.Steps

/-! What holds of the waits, the requests and the sources in every reachable state. -/

namespace Chamge
open CString JsonGlib

variable {ι : Type} [DecidableEq ι] {cfg : Config ι} {s t : System ι}

/-- The call of a device that waits: the node is as it was when the request was sent. -/
structure DeviceWaits (cfg : Config ι) (requests : List (Request ι)) (d : ι) (n : ChamgeNode)
    (w : DeviceWait) : Prop where
  reached : methodReached n w.action = some w.method
  sends : w.method ≠ .deactivate
  request : ∃ r, requests[w.request]? = some r ∧
    r.conn = (if w.method = .delist then .temp w.request else .device d) ∧
    r.target = cfg.enrollQueue ∧ r.body = requestBody (cfg.kind d) w.method (cfg.uid d)

/-- A request goes out on a connection of its own, or on a device's and to the arbiter. -/
def Request.Linked (cfg : Config ι) (k : ℕ) (r : Request ι) : Prop :=
  r.conn = .temp k ∨ ∃ d, r.conn = .device d ∧ r.target = cfg.enrollQueue

structure Shaped (cfg : Config ι) (s : System ι) : Prop where
  device : ∀ d w, (s.device d).wait = some w →
    DeviceWaits cfg s.requests d (s.device d).node w
  arbiter : ∀ k, s.arbiterWait = some k → ∃ r, s.requests[k]? = some r ∧ r.conn = .temp k
  source : ∀ d, (s.device d).source = true → (s.device d).node.state = .activated
  linked : ∀ (k : ℕ) (r : Request ι), s.requests[k]? = some r → r.Linked cfg k

theorem shaped_init : Shaped cfg (.init cfg) := ⟨nofun, nofun, nofun, nofun⟩

/-! ### Frames -/

theorem getElem?_of_isPrefix {α : Type} {l m : List α} {i : ℕ} {a : α} (h : l <+: m)
    (hl : l[i]? = some a) : m[i]? = some a := by
  obtain ⟨hi, rfl⟩ := List.getElem?_eq_some_iff.mp hl
  exact List.prefix_iff_getElem?.mp h i hi

omit [DecidableEq ι] in
theorem DeviceWaits.mono {requests requests' : List (Request ι)} {d : ι} {n : ChamgeNode}
    {w : DeviceWait} (h : DeviceWaits cfg requests d n w) (hreq : requests <+: requests') :
    DeviceWaits cfg requests' d n w := by
  obtain ⟨r, hr, hrest⟩ := h.request
  exact ⟨h.reached, h.sends, r, getElem?_of_isPrefix hreq hr, hrest⟩

omit [DecidableEq ι] in
theorem Shaped.update (h : Shaped cfg s) (d : ι) (harb : t.arbiterWait = s.arbiterWait)
    (hreq : s.requests <+: t.requests)
    (hlinked : ∀ (k : ℕ) (r : Request ι), t.requests[k]? = some r → r.Linked cfg k)
    (hne : ∀ e, e ≠ d → (t.device e).wait = (s.device e).wait ∧
      (t.device e).source = (s.device e).source ∧ (t.device e).node = (s.device e).node)
    (hwait : ∀ w, (t.device d).wait = some w →
      DeviceWaits cfg t.requests d (t.device d).node w)
    (hsource : (t.device d).source = true → (t.device d).node.state = .activated) :
    Shaped cfg t := by
  refine ⟨fun e w hw => ?_, fun k hk => ?_, fun e he => ?_, hlinked⟩
  · by_cases hed : e = d
    · subst hed
      exact hwait w hw
    · obtain ⟨hw', -, hnode⟩ := hne e hed
      rw [hnode]
      exact (h.device e w (hw' ▸ hw)).mono hreq
  · obtain ⟨r, hr, hconn⟩ := h.arbiter k (harb ▸ hk)
    exact ⟨r, getElem?_of_isPrefix hreq hr, hconn⟩
  · by_cases hed : e = d
    · subst hed
      exact hsource he
    · obtain ⟨-, hs, hnode⟩ := hne e hed
      rw [hnode]
      exact h.source e (hs ▸ he)

omit [DecidableEq ι] in
theorem Shaped.returned (h : Shaped cfg s) (d : ι) (harb : t.arbiterWait = s.arbiterWait)
    (hreq : t.requests = s.requests)
    (hne : ∀ e, e ≠ d → (t.device e).wait = (s.device e).wait ∧
      (t.device e).source = (s.device e).source ∧ (t.device e).node = (s.device e).node)
    (hwait : (t.device d).wait = none)
    (hsource : (t.device d).source = true → (t.device d).node.state = .activated) :
    Shaped cfg t := by
  have hpre : s.requests <+: t.requests := hreq ▸ List.prefix_rfl
  refine h.update d harb hpre (hreq ▸ h.linked) hne (fun w hw => ?_) hsource
  have hclash : none = some w := hwait.symm.trans hw
  cases hclash

omit [DecidableEq ι] in
theorem Shaped.of_eq (h : Shaped cfg s) (hdev : t.device = s.device)
    (harb : t.arbiterWait = s.arbiterWait) (hreq : t.requests = s.requests) : Shaped cfg t :=
  ⟨hdev ▸ hreq ▸ h.device, harb ▸ hreq ▸ h.arbiter, hdev ▸ h.source, hreq ▸ h.linked⟩

/-! ### Requests -/

theorem startRequest_linked {who : Caller ι} {c : ConnId ι} {target body : Bytes} {start : Start}
    {w : Option ℕ} (h : s.startRequest who c target body start = some (t, w))
    (hs : ∀ (k : ℕ) (r : Request ι), s.requests[k]? = some r → r.Linked cfg k)
    (hc : c = .temp s.requests.length ∨ ∃ d, c = .device d ∧ target = cfg.enrollQueue) :
    ∀ (k : ℕ) (r : Request ι), t.requests[k]? = some r → r.Linked cfg k := by
  rcases startRequest_requests h with ⟨heq, -⟩ | ⟨r, heq, -, rfl, rfl, -⟩
  · rwa [heq]
  · intro k r' hr'
    rw [heq] at hr'
    rcases Nat.lt_trichotomy k s.requests.length with hk | rfl | hk
    · exact hs k r' (by rwa [List.getElem?_append_left hk] at hr')
    · obtain rfl := Option.some.inj ((List.getElem?_concat_length ..).symm.trans hr')
      exact hc
    · rw [List.getElem?_eq_none (by simpa using Nat.succ_le_of_lt hk)] at hr'
      cases hr'

theorem startRequest_waits {who : Caller ι} {c : ConnId ι} {target body : Bytes}
    {start : Start} {k : ℕ}
    (h : s.startRequest who c target body start = some (t, some k)) : k = s.requests.length ∧
    ∃ r, t.requests[k]? = some r ∧ r.conn = c ∧ r.target = target ∧ r.body = body := by
  rcases startRequest_requests h with ⟨-, hw⟩ | ⟨r, heq, hw | hw, hconn, htarget, hbody, -⟩
  · cases hw
  · cases hw
  · obtain rfl := Option.some.inj hw
    exact ⟨rfl, r, by rw [heq, List.getElem?_concat_length], hconn, htarget, hbody⟩

/-! ### The end of a call -/

theorem finishCall_shaped {d : ι} {w : NodeAction × BackendMethod} {r : ChamgeReturn}
    (h : Shaped cfg s) (hreached : methodReached (s.device d).node w.1 = some w.2)
    (hsends : w.2 ≠ .deactivate) : Shaped cfg (s.finishCall cfg d w r) := by
  refine h.returned d finishCall_arbiterWait finishCall_requests (fun e he => ?_) ?_ ?_
  · rw [finishCall_device_ne he]
    exact ⟨rfl, rfl, rfl⟩
  · rw [finishCall_device_self]
    rfl
  · rw [finishCall_device_self]
    split_ifs with hm
    · intro hs
      cases hs
    · intro hs
      -- only an activated node has a source, and nothing but a delist is let through there
      have hact : (s.device d).node.state = .activated := h.source d hs
      have hcall := nodeCall (s.device d).node w.1 r
      rw [hreached] at hcall
      cases hmethod : w.2 with
      | enroll =>
        rw [hmethod] at hcall
        cases hcall with
        | enroll hn =>
          have hclash := hact.symm.trans hn
          cases hclash
      | activate =>
        rw [hmethod] at hcall
        cases hcall with
        | activate hn =>
          have hclash := hact.symm.trans hn
          cases hclash
      | deactivate => exact absurd hmethod hsends
      | delist => exact absurd hmethod hm

theorem subscribe_shaped {d : ι} {w : DeviceWait} {s₁ : System ι} {ret : ChamgeReturn}
    {fin : Finish} (h : Shaped cfg s) (hw : (s.device d).wait = some w)
    (hm : w.method = .activate) (hsub : s.subscribe cfg d fin = some (s₁, ret)) :
    Shaped cfg (s₁.setDevice d { (s₁.device d).finish w.action ret with source := ret = .ok }) := by
  rw [subscribe_frame hsub]
  refine h.returned d rfl rfl (fun e he => ?_) ?_ ?_
  · rw [setDevice_device_ne _ _ he]
    exact ⟨rfl, rfl, rfl⟩
  · rw [setDevice_device_self]
    rfl
  · rw [setDevice_device_self]
    intro hs
    have hret : ret = .ok := of_decide_eq_true hs
    have hcall := nodeCall (s.device d).node w.action ret
    rw [(h.device d w hw).reached, hm] at hcall
    cases hcall with
    | activate hn hb hbackend hstate => exact hstate.trans (if_pos hret)

theorem endWait_shaped {d : ι} {w : DeviceWait} {r : Request ι} {response : Option Bytes}
    {fin : Finish} (h : Shaped cfg s) (hw : (s.device d).wait = some w)
    (hend : s.endWait cfg d w r response fin = some t) : Shaped cfg t := by
  obtain ⟨hreached, hsends, -⟩ := h.device d w hw
  rcases endWait_cases hend with ⟨-, rfl⟩ | ⟨ret, -, -, rfl⟩ | ⟨-, ⟨-, rfl⟩ | ⟨-, ret, -, rfl⟩ |
    ⟨hm, s₁, ret, hsub, rfl⟩⟩
  · refine h.returned d rfl rfl (fun e he => ?_) ?_ ?_
    · rw [setDevice_device_ne _ _ he]
      simp [System.dropDevice, he]
    · rw [setDevice_device_self]
    · rw [setDevice_device_self]
      intro hs
      cases hs
  · exact finishCall_shaped h hreached hsends
  · exact finishCall_shaped h hreached hsends
  · rw [closeLink_frame]
    exact finishCall_shaped (h.of_eq rfl rfl rfl) hreached hsends
  · exact subscribe_shaped h hw hm hsub

theorem waitPass_shaped {d : ι} {w : DeviceWait} {r : Request ι} {o : ConsumeOutcome}
    {fin : Finish} (h : Shaped cfg s) (hw : (s.device d).wait = some w)
    (hpass : s.waitPass cfg d w r o fin = some t) : Shaped cfg t := by
  rcases waitPass_cases hpass with ⟨-, rfl⟩ | ⟨e, -, hend⟩ | ⟨x, -, -, hend⟩
  · refine h.update d rfl List.prefix_rfl h.linked (fun e he => ?_) ?_ ?_
    · rw [setDevice_device_ne _ _ he]
      exact ⟨rfl, rfl, rfl⟩
    · rw [setDevice_device_self]
      rintro w' hw'
      obtain rfl := Option.some.inj hw'
      obtain ⟨hreached, hsends, hrequest⟩ := h.device d w hw
      exact ⟨hreached, hsends, hrequest⟩
    · rw [setDevice_device_self]
      exact h.source d
  · exact endWait_shaped h hw hend
  · exact endWait_shaped h hw hend

/-! ### Calls and user commands -/

theorem startCall_device {who : Caller ι} {d e : ι} {method : BackendMethod} {start : Start}
    {c : ConnId ι} {s₁ s₂ : System ι} {queue body : Bytes} {w : Option ℕ}
    (hopen : s.openFor d method start = some (s₁, c))
    (hstart : s₁.startRequest who c queue body start = some (s₂, w)) :
    (s₂.device e).wait = (s.device e).wait ∧ (s₂.device e).source = (s.device e).source ∧
      (s₂.device e).node = (s.device e).node := by
  obtain ⟨connected, he⟩ := openFor_device (e := e) hopen
  have hframe : s₂.device e = s₁.device e := by rw [startRequest_frame hstart]
  rw [hframe, he]
  exact ⟨rfl, rfl, rfl⟩

theorem startCall_shaped {who : Caller ι} {d : ι} {method : BackendMethod} {start : Start}
    {c : ConnId ι} {s₁ s₂ : System ι} {body : Bytes} {w : Option ℕ} (h : Shaped cfg s)
    (hopen : s.openFor d method start = some (s₁, c))
    (hstart : s₁.startRequest who c cfg.enrollQueue body start = some (s₂, w)) : Shaped cfg s₂ := by
  have hlinked : c = .temp s.requests.length ∨
      ∃ e, c = .device e ∧ cfg.enrollQueue = cfg.enrollQueue := by
    rcases openFor_cases hopen with ⟨rfl, -, -⟩ | ⟨rfl, -, -⟩ | ⟨rfl, -, -⟩
    · exact Or.inr ⟨d, rfl, rfl⟩
    · exact Or.inr ⟨d, rfl, rfl⟩
    · exact Or.inl rfl
  have hreq₁ : s₁.requests = s.requests := by rw [openFor_frame hopen]
  have harb : s₂.arbiterWait = s.arbiterWait := by
    rw [startRequest_frame hstart, openFor_frame hopen]
  have hgrown : s.requests <+: s₂.requests := hreq₁ ▸ startRequest_prefix hstart
  have hlink := startRequest_linked hstart (hreq₁ ▸ h.linked) (hreq₁ ▸ hlinked)
  obtain ⟨hwait, hsource, hnode⟩ := startCall_device (e := d) hopen hstart
  refine h.update d harb hgrown hlink (fun e _ => startCall_device hopen hstart) ?_ ?_
  · rw [hwait, hnode]
    exact fun w hw => (h.device d w hw).mono hgrown
  · rw [hsource, hnode]
    exact h.source d

theorem call_shaped {d : ι} {a : NodeAction} {start : Start} (h : Shaped cfg s)
    (hcall : s.call cfg d a start = some t) : Shaped cfg t := by
  obtain ⟨-, ⟨hm, rfl⟩ | ⟨hm, rfl⟩ | ⟨method, s₁, c, s₂, w, hm, hne, hopen, hstart, hw⟩⟩ :=
    call_cases hcall
  · refine h.returned d rfl rfl (fun e he => ?_) ?_ ?_
    · rw [setDevice_device_ne _ _ he]
      exact ⟨rfl, rfl, rfl⟩
    · rw [setDevice_device_self]
      rfl
    · rw [setDevice_device_self]
      intro hs
      have hcall := nodeCall (s.device d).node a .fail
      rw [hm] at hcall
      cases hcall with
      | none hstate => exact hstate.trans (h.source d hs)
  · refine h.returned d rfl rfl (fun e he => ?_) ?_ ?_
    · rw [setDevice_device_ne _ _ he]
      exact ⟨rfl, rfl, rfl⟩
    · rw [setDevice_device_self]
      rfl
    · rw [setDevice_device_self]
      intro hs
      cases hs
  have hconn : c = if method = .delist then .temp s.requests.length else .device d := by
    rcases openFor_cases hopen with ⟨rfl, hm', -⟩ | ⟨rfl, rfl, -⟩ | ⟨rfl, rfl, -⟩
    · exact (if_neg hm').symm
    · rfl
    · rfl
  have hmid := startCall_shaped h hopen hstart
  have hreached : methodReached (s₂.device d).node a = some method := by
    rwa [(startCall_device hopen hstart).2.2]
  rcases hw with ⟨rfl, rfl⟩ | ⟨k, rfl, rfl⟩
  · exact finishCall_shaped hmid hreached hne
  · refine hmid.update d rfl List.prefix_rfl hmid.linked (fun e he => ?_) ?_ ?_
    · rw [setDevice_device_ne _ _ he]
      exact ⟨rfl, rfl, rfl⟩
    · rw [setDevice_device_self]
      rintro w hw
      obtain rfl := Option.some.inj hw
      obtain ⟨rfl, r, hr, hc, htarget, hbody⟩ := startRequest_waits hstart
      refine ⟨hreached, hne, r, hr, ?_, htarget, hbody⟩
      rw [hc, hconn, openFor_frame hopen]
    · rw [setDevice_device_self]
      exact hmid.source d

theorem userCommand_shaped {cmd : Bytes} {start : Start} (h : Shaped cfg s)
    (hcmd : s.userCommand cfg cmd start = some t) : Shaped cfg t := by
  obtain ⟨-, ⟨-, rfl⟩ | ⟨target, s₂, w, -, hstart, rfl⟩⟩ := userCommand_cases hcmd
  · exact h
  have hframe := startRequest_frame hstart
  have hdev : s₂.device = s.device := by rw [hframe]
  have hpre := startRequest_prefix hstart
  refine ⟨fun d w hw => ?_, fun k hk => ?_, hdev ▸ h.source, ?_⟩
  · change DeviceWaits cfg s₂.requests d (s₂.device d).node w
    rw [hdev]
    exact (h.device d w (hdev ▸ hw)).mono hpre
  · obtain rfl : w = some k := hk
    obtain ⟨rfl, r, hr, hc, -⟩ := startRequest_waits hstart
    exact ⟨r, hr, hc⟩
  · change ∀ (k : ℕ) (r : Request ι), s₂.requests[k]? = some r → r.Linked cfg k
    refine startRequest_linked hstart ?_ (Or.inl rfl)
    exact h.linked

theorem shaped_step {l : Label ι} (h : Shaped cfg s) (hstep : (system cfg).step s l = some t) :
    Shaped cfg t := by
  cases l with
  | call d a start => exact call_shaped h hstep
  | userCommand cmd start => exact userCommand_shaped h hstep
  | waitDevice d failed fin =>
    obtain ⟨w, r, hw, -, ⟨reply, -, -, hpass⟩ | ⟨q, m, broker, -, -, hpass⟩⟩ :=
      waitDevice_cases hstep
    · exact waitPass_shaped h hw hpass
    · rw [logAccepted_frame] at hpass
      refine waitPass_shaped ?_ ?_ hpass
      · exact h.of_eq rfl rfl rfl
      · exact hw
  | waitArbiter failed fin =>
    obtain ⟨k, r, -, -, s₁, hs₁, ht⟩ := waitArbiter_cases hstep
    have h₁ : Shaped cfg s₁ := by
      rcases hs₁ with rfl | ⟨q, m, broker, -, rfl⟩
      · exact h
      · rw [logAccepted_frame]
        exact h.of_eq rfl rfl rfl
    rcases ht with rfl | rfl
    · exact h₁
    · rw [closeLink_frame]
      exact ⟨h₁.device, nofun, h₁.source, h₁.linked⟩
  | pumpDevice d answer =>
    obtain ⟨-, -, q, m, broker, -, ⟨-, rfl⟩ | ⟨address, lost, -, -, rfl⟩⟩ :=
      pumpDevice_cases hstep
    · exact h.of_eq rfl rfl rfl
    · rw [dispatch_frame]
      exact h.of_eq rfl rfl rfl
  | pumpArbiter =>
    obtain ⟨-, q, m, broker, -, ⟨-, rfl⟩ | ⟨address, -, rfl⟩⟩ := pumpArbiter_cases hstep
    · exact h.of_eq rfl rfl rfl
    · rw [dispatch_frame]
      exact h.of_eq rfl rfl rfl
  | deliver i c =>
    obtain ⟨q, m, broker, -, rfl⟩ := deliver_cases hstep
    exact h.of_eq rfl rfl rfl
  | lose i =>
    obtain ⟨broker, -, rfl⟩ := Option.map_eq_some_iff.mp hstep
    exact h.of_eq rfl rfl rfl
  | post q properties body =>
    obtain rfl := Option.some.inj hstep
    exact h.of_eq rfl rfl rfl

end Chamge
