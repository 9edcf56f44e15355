import Chamge.Steps

/-! When the arbiter and a device come to wait for each other. -/

namespace Chamge
open CString JsonGlib

variable {ι : Type} [DecidableEq ι] {cfg : Config ι} {s t : System ι}

/-- The arbiter waits for a device's answer while the device waits for the arbiter's. -/
def MutualWait (cfg : Config ι) (s : System ι) : Prop :=
  ∃ d k r, s.arbiterWait = some k ∧ s.requests[k]? = some r ∧ r.target = cfg.uid d ∧
    (s.device d).wait ≠ none

/-- A device sends a request only while the arbiter does not wait for it, and a user command
is sent only to a device that does not wait. -/
def Coordinated (cfg : Config ι) (s : System ι) : Label ι → Prop
  | .call d a (.sent _ _) =>
    (∃ method, methodReached (s.device d).node a = some method ∧ method ≠ .deactivate) →
      ∀ k r, s.arbiterWait = some k → s.requests[k]? = some r → r.target ≠ cfg.uid d
  | .userCommand cmd (.sent _ _) =>
    ∀ d, commandTarget cfg s cmd = some (cfg.uid d) → (s.device d).wait = none
  | _ => True

/-- The request that the arbiter waits for has been sent. -/
def WaitsForSent (s : System ι) : Prop := ∀ k, s.arbiterWait = some k → k < s.requests.length

omit [DecidableEq ι] in
theorem not_mutualWait_of_none (h : s.arbiterWait = none) : ¬ MutualWait cfg s := by
  rintro ⟨d, k, r, hk, -⟩
  have hclash := h.symm.trans hk
  cases hclash

/-! ### What a step leaves of the waits -/

/-- No wait begins, and the requests only grow. -/
structure NoNewWait (s t : System ι) : Prop where
  arbiter : ∀ k, t.arbiterWait = some k → s.arbiterWait = some k
  requests : s.requests <+: t.requests
  device : ∀ d, (t.device d).wait ≠ none → (s.device d).wait ≠ none

omit [DecidableEq ι] in
theorem NoNewWait.of_eq (harb : t.arbiterWait = s.arbiterWait) (hreq : t.requests = s.requests)
    (hdev : t.device = s.device) : NoNewWait s t :=
  ⟨fun _ hk => harb ▸ hk, hreq ▸ List.prefix_rfl, fun _ hd => hdev ▸ hd⟩

omit [DecidableEq ι] in
theorem NoNewWait.trans {u : System ι} (h : NoNewWait s t) (h' : NoNewWait t u) :
    NoNewWait s u :=
  ⟨fun k hk => h.arbiter k (h'.arbiter k hk), h.requests.trans h'.requests,
    fun d hd => h.device d (h'.device d hd)⟩

omit [DecidableEq ι] in
theorem NoNewWait.returned (d : ι) (harb : t.arbiterWait = s.arbiterWait)
    (hreq : t.requests = s.requests) (hne : ∀ e, e ≠ d → (t.device e).wait = (s.device e).wait)
    (hwait : (t.device d).wait = none) : NoNewWait s t := by
  refine ⟨fun k hk => harb ▸ hk, hreq ▸ List.prefix_rfl, fun e he => ?_⟩
  by_cases hed : e = d
  · subst hed
    exact absurd hwait he
  · rwa [hne e hed] at he

omit [DecidableEq ι] in
theorem NoNewWait.sent (h : NoNewWait s t) (hs : WaitsForSent s) : WaitsForSent t :=
  fun k hk => (hs k (h.arbiter k hk)).trans_le h.requests.length_le

omit [DecidableEq ι] in
theorem NoNewWait.mutual (h : NoNewWait s t) (hs : WaitsForSent s) (ht : MutualWait cfg t) :
    MutualWait cfg s := by
  obtain ⟨d, k, r, hk, hr, htarget, hw⟩ := ht
  have hlt := hs k (h.arbiter k hk)
  obtain ⟨rest, hrest⟩ := h.requests
  rw [← hrest, List.getElem?_append_left hlt] at hr
  exact ⟨d, k, r, h.arbiter k hk, hr, htarget, h.device d hw⟩

theorem finishCall_noNewWait {d : ι} {w : NodeAction × BackendMethod} {r : ChamgeReturn} :
    NoNewWait s (s.finishCall cfg d w r) := by
  refine NoNewWait.returned d finishCall_arbiterWait finishCall_requests (fun e he => ?_) ?_
  · rw [finishCall_device_ne he]
  · rw [finishCall_device_self]
    rfl

theorem endWait_noNewWait {d : ι} {w : DeviceWait} {r : Request ι} {response : Option Bytes}
    {fin : Finish} (h : s.endWait cfg d w r response fin = some t) : NoNewWait s t := by
  rcases endWait_cases h with ⟨-, rfl⟩ | ⟨ret, -, -, rfl⟩ | ⟨-, ⟨-, rfl⟩ | ⟨-, ret, -, rfl⟩ |
    ⟨-, s₁, ret, hsub, rfl⟩⟩
  · refine NoNewWait.returned d rfl rfl (fun e he => ?_) ?_
    · rw [setDevice_device_ne _ _ he]
      simp [System.dropDevice, he]
    · rw [setDevice_device_self]
  · exact finishCall_noNewWait
  · exact finishCall_noNewWait
  · have hclosed : NoNewWait s (s.closeLink r.conn fin) := by
      rw [closeLink_frame]
      exact NoNewWait.of_eq rfl rfl rfl
    exact hclosed.trans finishCall_noNewWait
  · rw [subscribe_frame hsub]
    refine NoNewWait.returned d rfl rfl (fun e he => ?_) ?_
    · rw [setDevice_device_ne _ _ he]
    · rw [setDevice_device_self]
      rfl

theorem waitPass_noNewWait {d : ι} {w : DeviceWait} {r : Request ι} {o : ConsumeOutcome}
    {fin : Finish} (hw : (s.device d).wait = some w)
    (h : s.waitPass cfg d w r o fin = some t) : NoNewWait s t := by
  rcases waitPass_cases h with ⟨-, rfl⟩ | ⟨e, -, hend⟩ | ⟨x, -, -, hend⟩
  · refine ⟨fun k => id, List.prefix_rfl, fun e he => ?_⟩
    by_cases hed : e = d
    · simp [hed, hw]
    · rwa [setDevice_device_ne _ _ hed] at he
  · exact endWait_noNewWait hend
  · exact endWait_noNewWait hend

theorem step_noNewWait {l : Label ι} (h : (system cfg).step s l = some t)
    (hcall : ∀ d a start, l ≠ .call d a start) (hcmd : ∀ cmd start, l ≠ .userCommand cmd start) :
    NoNewWait s t := by
  cases l with
  | call d a start => exact absurd rfl (hcall d a start)
  | userCommand cmd start => exact absurd rfl (hcmd cmd start)
  | waitDevice d failed fin =>
    obtain ⟨w, r, hw, hr, ⟨reply, -, -, hpass⟩ | ⟨q, m, broker, -, hrec, hpass⟩⟩ :=
      waitDevice_cases h
    · exact waitPass_noNewWait hw hpass
    · rw [logAccepted_frame] at hpass
      have hpassed := waitPass_noNewWait (by exact hw) hpass
      exact ⟨hpassed.arbiter, hpassed.requests, hpassed.device⟩
  | waitArbiter failed fin =>
    obtain ⟨k, r, hk, hr, s₁, hs₁, ht⟩ := waitArbiter_cases h
    have hfirst : NoNewWait s s₁ := by
      rcases hs₁ with rfl | ⟨q, m, broker, -, rfl⟩
      · exact NoNewWait.of_eq rfl rfl rfl
      · rw [logAccepted_frame]
        exact NoNewWait.of_eq rfl rfl rfl
    rcases ht with rfl | rfl
    · exact hfirst
    · rw [closeLink_frame]
      exact ⟨fun k hk => (by cases hk), hfirst.requests, hfirst.device⟩
  | pumpDevice d answer =>
    obtain ⟨-, -, q, m, broker, hrec, ⟨-, rfl⟩ | ⟨address, lost, -, -, rfl⟩⟩ :=
      pumpDevice_cases h
    · exact NoNewWait.of_eq rfl rfl rfl
    · rw [dispatch_frame]
      exact NoNewWait.of_eq rfl rfl rfl
  | pumpArbiter =>
    obtain ⟨-, q, m, broker, hrec, ⟨-, rfl⟩ | ⟨address, -, rfl⟩⟩ := pumpArbiter_cases h
    · exact NoNewWait.of_eq rfl rfl rfl
    · rw [dispatch_frame]
      exact NoNewWait.of_eq rfl rfl rfl
  | deliver i c =>
    obtain ⟨q, m, broker, -, rfl⟩ := deliver_cases h
    exact NoNewWait.of_eq rfl rfl rfl
  | lose i =>
    obtain ⟨broker, -, rfl⟩ := Option.map_eq_some_iff.mp h
    exact NoNewWait.of_eq rfl rfl rfl
  | post q properties body =>
    obtain rfl := Option.some.inj h
    exact NoNewWait.of_eq rfl rfl rfl

/-! ### Calls and user commands -/

theorem call_noNewWait_or {d : ι} {a : NodeAction} {start : Start}
    (h : s.call cfg d a start = some t) :
    (NoNewWait s t ∧ ∀ cid rq, start = .sent cid rq →
      ¬ ∃ method, methodReached (s.device d).node a = some method ∧ method ≠ .deactivate) ∨
    (∃ cid rq method, start = .sent cid rq ∧ methodReached (s.device d).node a = some method ∧
      method ≠ .deactivate ∧ t.arbiterWait = s.arbiterWait ∧ s.requests <+: t.requests ∧
      (t.device d).wait ≠ none ∧ ∀ e, e ≠ d → (t.device e).wait = (s.device e).wait) := by
  obtain ⟨-, ⟨hm, rfl⟩ | ⟨hm, rfl⟩ | ⟨method, s₁, c, s₂, w, hm, hne, hopen, hstart, hw⟩⟩ :=
    call_cases h
  · refine Or.inl ⟨NoNewWait.returned d rfl rfl (fun e he => ?_) ?_, ?_⟩
    · rw [setDevice_device_ne _ _ he]
    · rw [setDevice_device_self]
      rfl
    · rintro cid rq - ⟨method, hm', -⟩
      have hclash := hm.symm.trans hm'
      cases hclash
  · refine Or.inl ⟨NoNewWait.returned d rfl rfl (fun e he => ?_) ?_, ?_⟩
    · rw [setDevice_device_ne _ _ he]
    · rw [setDevice_device_self]
      rfl
    · rintro cid rq - ⟨method, hm', hne⟩
      exact hne (Option.some.inj (hm'.symm.trans hm))
  have hdev : ∀ e, (s₂.device e).wait = (s.device e).wait := fun e => by
    obtain ⟨connected, he⟩ := openFor_device (e := e) hopen
    rw [startRequest_frame hstart]
    change (s₁.device e).wait = _
    rw [he]
  have harb : s₂.arbiterWait = s.arbiterWait := by
    rw [startRequest_frame hstart, openFor_frame hopen]
  have hreq : s.requests <+: s₂.requests := by
    have := startRequest_prefix hstart
    rwa [openFor_frame hopen] at this
  rcases hw with ⟨rfl, rfl⟩ | ⟨k, rfl, rfl⟩
  · refine Or.inl ⟨?_, fun cid rq hsent _ => ?_⟩
    · have hstarted : NoNewWait s s₂ :=
        ⟨fun k hk => harb ▸ hk, hreq, fun e he => hdev e ▸ he⟩
      exact hstarted.trans finishCall_noNewWait
    · rcases startRequest_cases hstart with ⟨-, -, hno⟩ | ⟨_, _, -, ⟨-, hun, -⟩ | ⟨hw, -⟩⟩
      · exact absurd hsent (hno cid rq)
      · have hclash := hun.symm.trans hsent
        cases hclash
      · cases hw
  · rcases startRequest_cases hstart with ⟨hw, -⟩ | ⟨cid, rq, -, ⟨hw, -⟩ | ⟨-, hsent, -⟩⟩
    · cases hw
    · cases hw
    refine Or.inr ⟨cid, rq, method, hsent, hm, hne, harb, hreq, ?_, fun e he => ?_⟩
    · rw [setDevice_device_self]
      simp
    · rw [setDevice_device_ne _ _ he, hdev e]

theorem waitsForSent_step {l : Label ι} (hs : WaitsForSent s)
    (h : (system cfg).step s l = some t) : WaitsForSent t := by
  cases l with
  | call d a start =>
    rcases call_noNewWait_or h with ⟨hno, -⟩ | ⟨_, _, _, -, -, -, harb, hreq, -⟩
    · exact hno.sent hs
    · exact fun k hk => (hs k (harb ▸ hk)).trans_le hreq.length_le
  | userCommand cmd start =>
    obtain ⟨harb, ⟨-, rfl⟩ | ⟨target, s₂, w, -, hstart, rfl⟩⟩ := userCommand_cases h
    · exact hs
    · rintro k rfl
      rcases startRequest_cases hstart with ⟨hw, -⟩ | ⟨_, _, -, ⟨hw, -⟩ | ⟨hw, -, rfl⟩⟩
      · cases hw
      · cases hw
      · obtain rfl := Option.some.inj hw
        simp [System.send]
  | _ => exact (step_noNewWait h (by simp) (by simp)).sent hs

theorem mutualWait_step {l : Label ι} (hs : WaitsForSent s) (hno : ¬ MutualWait cfg s)
    (h : (system cfg).step s l = some t) : ¬ MutualWait cfg t ↔ Coordinated cfg s l := by
  cases l with
  | call d a start =>
    rcases call_noNewWait_or h with ⟨hquiet, hstart⟩ |
      ⟨cid, rq, method, rfl, hm, hne, harb, hreq, hwait, hothers⟩
    · refine iff_of_true (fun ht => hno (hquiet.mutual hs ht)) ?_
      cases start with
      | sent cid rq => exact fun hreach => absurd hreach (hstart cid rq rfl)
      | _ => trivial
    · obtain ⟨rest, hrest⟩ := hreq
      constructor
      · -- the device's new wait would close the circle
        intro ht _ k r hk hr htarget
        refine ht ⟨d, k, r, harb.trans hk, ?_, htarget, hwait⟩
        rw [← hrest, List.getElem?_append_left (hs k hk), hr]
      · rintro hcoord ⟨e, k, r, hk, hr, htarget, hw⟩
        rw [harb] at hk
        rw [← hrest, List.getElem?_append_left (hs k hk)] at hr
        by_cases hed : e = d
        · subst hed
          exact hcoord ⟨method, hm, hne⟩ k r hk hr htarget
        · exact hno ⟨e, k, r, hk, hr, htarget, hothers e hed ▸ hw⟩
  | userCommand cmd start =>
    obtain ⟨harb, ⟨htarget, rfl⟩ | ⟨target, s₂, w, htarget, hstart, rfl⟩⟩ := userCommand_cases h
    · refine iff_of_true hno ?_
      cases start with
      | sent cid rq =>
        intro d hd
        have hclash := htarget.symm.trans hd
        cases hclash
      | _ => trivial
    rcases startRequest_cases hstart with ⟨rfl, -, hne⟩ | ⟨cid, rq, -, ⟨rfl, rfl, -⟩ |
      ⟨rfl, rfl, rfl⟩⟩
    · refine iff_of_true (not_mutualWait_of_none rfl) ?_
      cases start with
      | sent cid rq => exact absurd rfl (hne cid rq)
      | _ => trivial
    · exact iff_of_true (not_mutualWait_of_none rfl) trivial
    · simp only [Coordinated, htarget, Option.some.injEq]
      constructor
      · intro ht d hd
        by_contra hw
        exact ht ⟨d, _, _, rfl, List.getElem?_concat_length .., hd, hw⟩
      · rintro hcoord ⟨d, k, r, hk, hr, hd, hw⟩
        obtain rfl := Option.some.inj hk
        obtain rfl := Option.some.inj ((List.getElem?_concat_length ..).symm.trans hr)
        exact hw (hcoord d hd)
  | _ =>
    have hquiet := step_noNewWait h (by simp) (by simp)
    exact iff_of_true (fun ht => hno (hquiet.mutual hs ht)) trivial

/-- In every run, the arbiter and a device never wait for each other exactly when each
request is sent to a party that is not waiting for its sender. -/
theorem mutual_wait_iff (cfg : Config ι) (ls : List (Label ι)) :
    (system cfg).Always (fun s => ¬ MutualWait cfg s) (.init cfg) ls ↔
      (system cfg).Along (Coordinated cfg) (.init cfg) ls :=
  Machine.always_iff_along (fun _ _ _ => waitsForSent_step) (fun _ _ _ => mutualWait_step)
    (fun k hk => by cases hk) (not_mutualWait_of_none rfl)

def overlappingRun : List (Label Unit) :=
  activatedRun ++ [.userCommand (commandTo (cstr "edge-1")) (sentAs 2),
    .call () .delist (sentAs 3)]

/-- A user command to the activated edge and its delist are both sent before either is
received: the arbiter and the edge wait for each other. -/
theorem overlap_waits_mutually :
    ¬ (system loneEdge).Always (fun s => ¬ MutualWait loneEdge s) (.init loneEdge)
      overlappingRun := by
  intro h
  have hrun : ((system loneEdge).run (.init loneEdge) overlappingRun).any (fun s =>
      s.arbiterWait = some 2 && s.requests[2]?.map Request.target = some (loneEdge.uid ()) &&
        (s.device ()).wait.isSome) = true := by decide +kernel
  obtain ⟨s, hs, hwaits⟩ := (Option.any_eq_true ..).mp hrun
  simp only [Bool.and_eq_true, decide_eq_true_eq, Option.map_eq_some_iff] at hwaits
  obtain ⟨⟨hk, r, hr, htarget⟩, hw⟩ := hwaits
  exact h.of_run hs ⟨(), 2, r, hk, hr, htarget, Option.isSome_iff_ne_none.mp hw⟩

end Chamge
