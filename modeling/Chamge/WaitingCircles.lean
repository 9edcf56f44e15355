import Chamge.CallEffects
import Chamge.HubCommands

/-! Parties that wait for each other in a circle, through requests of devices, commands of the
arbiter and commands of hubs: none of them is answered. -/

namespace Chamge
open CString JsonGlib

variable {ι : Type} [DecidableEq ι] {cfg : Config ι} {s t u : HubSystem ι} {d : ι} {c : ConnId ι}
  {k : ℕ} {P : ConnId ι → Prop}

/-- The request that the party waits for, by the connection that its pump reads. -/
def HubSystem.awaits (s : HubSystem ι) : ConnId ι → Option ℕ
  | .arbiter => s.base.arbiterWait
  | .device d => ((s.base.device d).wait.map DeviceWait.request).or
      ((s.sending d).map CommandWait.request)
  | .temp _ => none

/-- The request has gone to a queue that clients name, from which parties of `P` only consume,
and nobody has handled it. -/
structure Shut (cfg : Config ι) (P : ConnId ι → Prop) (s : HubSystem ι) (k : ℕ) (r : Request ι) :
    Prop where
  request : s.base.requests[k]? = some r
  named : isServerNamed r.target = false
  arbiter : r.target = cfg.enrollQueue → P .arbiter
  device : ∀ d, r.target = cfg.uid d → P (.device d)
  unhandled : ∀ e ∈ s.base.dispatched, e.message.origin ≠ .request k

/-- All parties of `P` wait for each other, with requests that nobody has handled yet. -/
def Circle (cfg : Config ι) (P : ConnId ι → Prop) (s : HubSystem ι) : Prop :=
  ∀ c, P c → ∃ k r, s.awaits c = some k ∧ Shut cfg P s k r

/-- No party of `P` has stopped waiting for what it waited for in `s`. -/
def StillWait (P : ConnId ι → Prop) (s t : HubSystem ι) : Prop :=
  ∀ c, P c → t.awaits c = s.awaits c

/-! ### A party that waits runs no pump -/

theorem hands_awaits {l : Label ι} {e : Dispatched ι}
    (hstep : (hubSystem cfg).step s (.base l) = some t) (hands : Hands s.base l e) :
    s.awaits e.responder.conn = none := by
  obtain ⟨hfree, base, hbase, rfl⟩ := base_cases hstep
  cases hands with
  | @device d answer _ _ _ hresponder =>
    have hsending : s.sending d = none := hfree d rfl
    obtain ⟨hidle, -⟩ := pumpDevice_cases hbase
    simp only [Device.idle, Bool.and_eq_true, Option.isNone_iff_eq_none] at hidle
    rw [hresponder, Responder.conn, HubSystem.awaits, hidle.1, hsending]
    rfl
  | arbiter _ hresponder =>
    obtain ⟨hnone, -⟩ := pumpArbiter_cases hbase
    rw [hresponder]
    exact hnone

omit [DecidableEq ι] in
/-- Whoever could take the request waits itself. -/
theorem Shut.consumer {r : Request ι} (h : Shut cfg P s k r) (hwired : Wired cfg s.base)
    (hc : Consumer cfg s.base.requests r.target c) : P c := by
  rcases hc with ⟨rfl, hq⟩ | ⟨d, rfl, hq, -⟩ | ⟨j, r', hr', -, hq⟩
  · exact h.arbiter hq
  · exact h.device d hq
  · have hserver := (hwired.proper r' (List.mem_of_getElem? hr')).serverNamed
    have hclash := (hq ▸ h.named).symm.trans hserver
    cases hclash

/-! ### Steps -/

theorem hubStep_requests {l : HubLabel ι} (hstep : (hubSystem cfg).step s l = some t) :
    s.base.requests <+: t.base.requests := by
  cases l with
  | base l =>
    obtain ⟨-, base, hbase, rfl⟩ := base_cases hstep
    exact run_requests (Machine.run_cons_eq_some.mpr ⟨base, hbase, rfl⟩ :
      (system cfg).run s.base [l] = some base)
  | userCommand d cmd start => exact (hubCommand_frame hstep).2.1
  | waitCommand d failed fin =>
    exact (waitCommand_device hstep).2.1 ▸ List.prefix_rfl

/-- The step hands nothing to a handler, or a message in a step of the base system's. -/
theorem hubStep_dispatched {l : HubLabel ι} (hstep : (hubSystem cfg).step s l = some t) :
    t.base.dispatched = s.base.dispatched ∨ ∃ l' e, l = .base l' ∧
      t.base.dispatched = s.base.dispatched ++ [e] ∧ Hands s.base l' e := by
  cases l with
  | base l =>
    obtain ⟨-, base, hbase, rfl⟩ := base_cases hstep
    exact (step_dispatched hbase).imp_right fun ⟨e, hnew, hands⟩ => ⟨l, e, rfl, hnew, hands⟩
  | userCommand d cmd start =>
    left
    rw [(hubCommand_frame hstep).1]
  | waitCommand d failed fin =>
    left
    rw [(waitCommand_frame hstep).1]

theorem Shut.step {l : HubLabel ι} {r : Request ι} (h : Shut cfg P s k r) (hlegal : HubLegal cfg s)
    (hwaits : ∀ c, P c → s.awaits c ≠ none) (hstep : (hubSystem cfg).step s l = some t) :
    Shut cfg P t k r := by
  refine ⟨getElem?_of_isPrefix (hubStep_requests hstep) h.request, h.named, h.arbiter, h.device,
    fun e he horigin => ?_⟩
  rcases hubStep_dispatched hstep with hsame | ⟨l', e', rfl, hnew, hands⟩
  · exact h.unhandled e (hsame ▸ he) horigin
  rcases List.mem_append.mp (hnew ▸ he) with hold | hlast
  · exact h.unhandled e hold horigin
  obtain rfl := List.mem_singleton.mp hlast
  obtain ⟨r', hr', -, hqueue⟩ := hands_request hlegal.base horigin hands
  obtain rfl := Option.some.inj (hr'.symm.trans h.request)
  have hconsumer : Consumer cfg s.base.requests e.queue e.responder.conn :=
    hlegal.base.received _ _ _ (hands_conn hands).1
  rw [hqueue] at hconsumer
  exact hwaits _ (h.consumer hlegal.base.wired hconsumer) (hands_awaits hstep hands)

/-- A device that waits for a request that nobody has handled stays in its state. -/
theorem hubStep_state (huid : ∀ d, cfg.uid d ≠ cfg.enrollQueue) {l : HubLabel ι}
    (hlegal : HubLegal cfg s) (hwait : s.awaits (.device d) = some k)
    (hno : ∀ e ∈ s.base.dispatched, e.message.origin ≠ .request k)
    (hstep : (hubSystem cfg).step s l = some t) :
    (t.base.device d).node.state = (s.base.device d).node.state := by
  cases l with
  | userCommand e cmd start => rw [(hubCommand_frame hstep).1]
  | waitCommand e failed fin => rw [(waitCommand_frame hstep).1]
  | base l =>
    obtain ⟨hfree, base, hbase, rfl⟩ := base_cases hstep
    by_cases hl : l.device = some d
    · have hsending : s.sending d = none := hfree d hl
      rw [HubSystem.awaits, hsending, Option.map_none, Option.or_none] at hwait
      obtain ⟨w, hw, rfl⟩ := Option.map_eq_some_iff.mp hwait
      cases l with
      | call d' a start =>
        obtain rfl := Option.some.inj hl
        obtain ⟨hidle, -⟩ := call_cases hbase
        simp only [Device.idle, Bool.and_eq_true, Option.isNone_iff_eq_none] at hidle
        have hclash := hidle.1.symm.trans hw
        cases hclash
      | pumpDevice d' answer => rw [(pumpDevice_frame hbase).1]
      | waitDevice d' failed fin =>
        obtain rfl := Option.some.inj hl
        by_contra hne
        obtain ⟨w', hw', e, he, -, horigin, -⟩ := waitDevice_state huid hlegal.base hbase hne
        obtain rfl := Option.some.inj (hw.symm.trans hw')
        exact hno e he horigin
      | userCommand | waitArbiter | pumpArbiter | deliver | lose | post => cases hl
    · rw [step_device_ne hl hbase]

/-! ### Runs -/

variable {ls : List (HubLabel ι)}

/-- What holds of a circle as long as its parties wait: its requests stay unhandled and its
devices as they are. -/
structure Stuck (cfg : Config ι) (P : ConnId ι → Prop) (s t : HubSystem ι) : Prop where
  legal : HubLegal cfg t
  shut : ∀ c k r, P c → s.awaits c = some k → s.base.requests[k]? = some r → Shut cfg P t k r
  state : ∀ d, P (.device d) →
    (t.base.device d).node.state = (s.base.device d).node.state

theorem stuck_step (huid : ∀ d, cfg.uid d ≠ cfg.enrollQueue) (hcircle : Circle cfg P s)
    (h : Stuck cfg P s t) (hstill : StillWait P s t) {l : HubLabel ι} (hown : HubTraffic t l)
    (hstep : (hubSystem cfg).step t l = some u) : Stuck cfg P s u := by
  have hwaits : ∀ c, P c → t.awaits c ≠ none := by
    intro c hc hnone
    obtain ⟨k, r, hk, -⟩ := hcircle c hc
    have hclash := (hstill c hc ▸ hnone).symm.trans hk
    cases hclash
  refine ⟨hubLegal_step huid h.legal hown hstep, fun c k r hc hk hr => ?_, fun d hd => ?_⟩
  · exact (h.shut c k r hc hk hr).step h.legal hwaits hstep
  · obtain ⟨k, r, hk, hshut⟩ := hcircle (.device d) hd
    have hnow : t.awaits (.device d) = some k := (hstill _ hd).trans hk
    have hno := (h.shut (.device d) k r hd hk hshut.request).unhandled
    rw [hubStep_state huid h.legal hnow hno hstep, h.state d hd]

theorem run_stuck (huid : ∀ d, cfg.uid d ≠ cfg.enrollQueue) (hcircle : Circle cfg P s)
    (h : Stuck cfg P s t) (hown : (hubSystem cfg).Along HubTraffic t ls)
    (hstill : (hubSystem cfg).Along (fun v _ => StillWait P s v) t ls)
    (hrun : (hubSystem cfg).run t ls = some u) : Stuck cfg P s u :=
  Machine.run_invariant (fun _ _ _ hv hl hstep => stuck_step huid hcircle hv hl.2 hl.1 hstep) h
    (hown.and hstill) hrun

/-- In every run of the program's own traffic, once parties wait for each other in a circle
and none of their requests has been handled, none of them has been answered when the first of
them stops waiting: no message has been taken for the answer to any of their requests, and the
devices among them are in the states in which they sent them. A request that is handled before
its target begins to wait can still be answered. -/
theorem circle_unanswered (cfg : Config ι) (huid : ∀ d, cfg.uid d ≠ cfg.enrollQueue)
    (P : ConnId ι → Prop) (ls ls' : List (HubLabel ι)) (s t : HubSystem ι)
    (hown : (hubSystem cfg).Along HubTraffic (.init cfg) (ls ++ ls'))
    (hrun : (hubSystem cfg).run (.init cfg) ls = some s) (hcircle : Circle cfg P s)
    (hrun' : (hubSystem cfg).run s ls' = some t)
    (hstill : (hubSystem cfg).Along (fun v _ => StillWait P s v) s ls') :
    (∀ c k, P c → s.awaits c = some k →
      (∀ m, (k, m) ∉ t.base.accepted) ∧ ∀ d m, (d, k, m) ∉ t.answers) ∧
    ∀ d, P (.device d) → (t.base.device d).node.state = (s.base.device d).node.state := by
  have hlegal : HubLegal cfg s := Machine.run_invariant (fun _ _ _ h => hubLegal_step huid h)
    hubLegal_init hown.left hrun
  have hstuck : Stuck cfg P s s := by
    refine ⟨hlegal, fun c k r hc hk hr => ?_, fun _ _ => rfl⟩
    obtain ⟨k', r', hk', hshut⟩ := hcircle c hc
    obtain rfl := Option.some.inj (hk.symm.trans hk')
    obtain rfl := Option.some.inj (hr.symm.trans hshut.request)
    exact hshut
  have hend := run_stuck huid hcircle hstuck (hown.right hrun) hstill hrun'
  refine ⟨fun c k hc hk => ?_, hend.state⟩
  obtain ⟨k', r, hk', hshut⟩ := hcircle c hc
  obtain rfl := Option.some.inj (hk.symm.trans hk')
  have hno := (hend.shut c k r hc hk hshut.request).unhandled
  refine ⟨fun m hm => ?_, fun d m hm => ?_⟩
  · obtain ⟨-, r', -, e, he, horigin, -⟩ := hend.legal.base.correlated.accepted huid k m hm
    exact hno e he horigin
  · obtain ⟨r', e, -, -, he, horigin, -⟩ := hend.legal.answers d k m hm
    exact hno e he horigin

/-- The arbiter sends the hub a command, the hub one to the edge, and the edge its delist to
the arbiter, before any of them is received. -/
def circleRun : List (HubLabel Bool) :=
  bothActivated ++
    [.base (.userCommand (objectText [(cstr "method", cstr "recordingStart"),
      (cstr "to", cstr "hub-1")]) (sentAs 4)),
    .userCommand true (commandTo (cstr "edge-1")) (sentAs 5),
    .base (.call false .delist (sentAs 6))]

/-- The party waits for request `k`, which has gone to a named queue and been handled by none. -/
def HubSystem.openWait (s : HubSystem Bool) (c : ConnId Bool) (k : ℕ) : Bool :=
  s.awaits c = some k && s.base.requests[k]?.any (fun r => !isServerNamed r.target) &&
    s.base.dispatched.all fun e => e.message.origin ≠ .request k

theorem circle_unanswered_three :
    ∃ s t, (hubSystem hubAndEdge).run (.init hubAndEdge) circleRun = some s ∧
      Circle hubAndEdge (fun c => ∀ k, c ≠ .temp k) s ∧
      (hubSystem hubAndEdge).run s
        [.base (.waitArbiter (some (.libraryException amqpStatusTimeout [])) .ok)] = some t ∧
      (∀ m, (4, m) ∉ t.base.accepted) ∧ ∀ d m, (d, 5, m) ∉ t.answers := by
  have hrun : ((hubSystem hubAndEdge).run (.init hubAndEdge) circleRun).any (fun s =>
      s.openWait .arbiter 4 && s.openWait (.device true) 5 && s.openWait (.device false) 6 &&
        ((hubSystem hubAndEdge).run s
          [.base (.waitArbiter (some (.libraryException amqpStatusTimeout [])) .ok)]).isSome) =
      true := by decide +kernel
  obtain ⟨s, hs, hwaits⟩ := (Option.any_eq_true ..).mp hrun
  simp only [Bool.and_eq_true] at hwaits
  obtain ⟨⟨⟨harbiter, hhub⟩, hedge⟩, hlast⟩ := hwaits
  obtain ⟨t, ht⟩ := Option.isSome_iff_exists.mp hlast
  have hopen : ∀ {c k}, s.openWait c k = true → ∃ k r, s.awaits c = some k ∧
      Shut hubAndEdge (fun c => ∀ k, c ≠ .temp k) s k r := by
    intro c k h
    simp only [HubSystem.openWait, Bool.and_eq_true, decide_eq_true_eq, List.all_eq_true] at h
    obtain ⟨⟨hk, hany⟩, hall⟩ := h
    obtain ⟨r, hr, hnamed⟩ := (Option.any_eq_true ..).mp hany
    refine ⟨k, r, hk, hr, (Bool.not_eq_true' _).mp hnamed, fun _ k' hc => ?_,
      fun _ _ k' hc => ?_, hall⟩
    · cases hc
    · cases hc
  have hcircle : Circle hubAndEdge (fun c => ∀ k, c ≠ .temp k) s := by
    intro c hc
    cases c with
    | arbiter => exact hopen harbiter
    | temp k => exact absurd rfl (hc k)
    | device d =>
      cases d with
      | true => exact hopen hhub
      | false => exact hopen hedge
  have hend := circle_unanswered hubAndEdge (by decide) (fun c => ∀ k, c ≠ .temp k) circleRun
    [.base (.waitArbiter (some (.libraryException amqpStatusTimeout [])) .ok)] s t
    (by decide +kernel) hs hcircle ht fun v _ => ⟨fun _ _ => rfl, trivial⟩
  simp only [HubSystem.openWait, Bool.and_eq_true, decide_eq_true_eq] at harbiter hhub
  exact ⟨s, t, hs, hcircle, ht, (hend.1 .arbiter 4 nofun harbiter.1.1).1,
    (hend.1 (.device true) 5 nofun hhub.1.1).2⟩

end Chamge
