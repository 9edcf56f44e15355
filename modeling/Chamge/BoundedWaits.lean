import Chamge.HubCommands

/-! How long the devices wait: the passes of their wait loops against the requests they send,
over all runs. -/

namespace Chamge
open CString JsonGlib

variable {ι : Type} [DecidableEq ι] {cfg : Config ι} {d : ι} {fin : Finish}

def Start.isSent : Start → Bool
  | .sent _ _ => true
  | .refused | .noTarget | .unheard _ _ => false

/-- A pass of a wait loop of the device. -/
def HubLabel.waits (d : ι) : HubLabel ι → Bool
  | .base (.waitDevice e _ _) | .waitCommand e _ _ => e = d
  | _ => false

/-- The step of a call or a command of the device that sends a request and comes to its wait
loop. -/
def SendsRequest (d : ι) (s : HubSystem ι) (l : HubLabel ι) (t : HubSystem ι) : Bool :=
  s.base.requests.length < t.base.requests.length && match l with
    | .base (.call e _ start) | .userCommand e _ start => e = d && start.isSent
    | _ => false

/-- The passes that are left to a wait after `retry` discarded messages. -/
def passesLeft (retry : Option ℕ) : ℕ := retry.elim 0 fun n => 11 - n

def System.retry (s : System ι) (d : ι) : Option ℕ := (s.device d).wait.map DeviceWait.retry

def HubSystem.retry (s : HubSystem ι) (d : ι) : Option ℕ := (s.sending d).map CommandWait.retry

/-! ### A device's own calls -/

section base
variable {s t : System ι}

omit [DecidableEq ι] in
theorem send_length {who : Caller ι} {c : ConnId ι} {target body cid rq : Bytes} :
    s.requests.length < (s.send who c target body cid rq).requests.length := by
  rw [System.send, List.length_append]
  exact Nat.lt_succ_self _

theorem call_retry {a : NodeAction} {start : Start} (h : s.call cfg d a start = some t) :
    s.retry d = none ∧ (t.retry d = none ∨ t.retry d = some 0 ∧ start.isSent = true ∧
      s.requests.length < t.requests.length) := by
  obtain ⟨hidle, hcases⟩ := call_cases h
  simp only [Device.idle, Bool.and_eq_true, Option.isNone_iff_eq_none] at hidle
  refine ⟨by rw [System.retry, hidle.1, Option.map_none], ?_⟩
  rcases hcases with ⟨-, rfl⟩ | ⟨-, rfl⟩ | ⟨method, s₁, c, s₂, w, -, -, hopen, hstart, hw⟩
  · left
    rw [System.retry, setDevice_device_self]
    rfl
  · left
    rw [System.retry, setDevice_device_self]
    rfl
  rcases hw with ⟨-, rfl⟩ | ⟨k, rfl, rfl⟩
  · left
    rw [System.retry, finishCall_device_self]
    rfl
  · right
    have hsame : s₁.requests = s.requests := by rw [openFor_frame hopen]
    rw [System.retry, setDevice_device_self]
    rcases startRequest_cases hstart with ⟨hk, -⟩ | ⟨cid, rq, -, ⟨hk, -⟩ | ⟨-, rfl, rfl⟩⟩
    · cases hk
    · cases hk
    · exact ⟨rfl, rfl, hsame ▸ send_length⟩

theorem waitDevice_retry {failed : Option AmqpRpcReply}
    (h : s.waitDevice cfg d failed fin = some t) : ∃ n, s.retry d = some n ∧
      (t.retry d = none ∨ n < 10 ∧ t.retry d = some (n + 1)) := by
  obtain ⟨w, r, hw, -, hcase⟩ := waitDevice_cases h
  refine ⟨w.retry, by rw [System.retry, hw, Option.map_some], ?_⟩
  have hpass : ∀ {u : System ι} {o : ConsumeOutcome}, u.waitPass cfg d w r o fin = some t →
      t.retry d = none ∨ w.retry < 10 ∧ t.retry d = some (w.retry + 1) := by
    intro u o hpass
    rcases waitPass_wait hpass with hnone | ⟨hloop, hsome⟩
    · exact Or.inl (by rw [System.retry, hnone, Option.map_none])
    · obtain ⟨-, hlimit⟩ := waitLoop_eq_none_iff.mp hloop
      have hretry : w.retry + 1 ≤ 10 := by simpa [overLimit] using hlimit
      exact Or.inr ⟨hretry, by rw [System.retry, hsome, Option.map_some]⟩
  rcases hcase with ⟨reply, -, -, h⟩ | ⟨q, m, broker, -, -, h⟩
  · exact hpass h
  · exact hpass h

end base

/-! ### Every step -/

/-- What a step does to a wait that has discarded so many messages: `p` is whether it is a pass
of the wait loop, `q` whether it sends a request. -/
inductive WaitStep : Bool → Bool → Option ℕ → Option ℕ → Prop
  | keeps {q : Bool} {r : Option ℕ} : WaitStep false q r r
  | starts : WaitStep false true none (some 0)
  | discards {n : ℕ} (hn : n < 10) : WaitStep true false (some n) (some (n + 1))
  | ends {n : ℕ} : WaitStep true false (some n) none

theorem WaitStep.within {p q : Bool} {r r' : Option ℕ} (h : WaitStep p q r r')
    (hr : ∀ n, r = some n → n ≤ 10) : ∀ n, r' = some n → n ≤ 10 := by
  intro n hn
  cases h with
  | keeps => exact hr n hn
  | starts =>
    obtain rfl := Option.some.inj hn
    exact Nat.zero_le 10
  | discards hlt =>
    obtain rfl := Option.some.inj hn
    exact hlt
  | ends => cases hn

theorem WaitStep.passes {p q : Bool} {r r' : Option ℕ} (h : WaitStep p q r r')
    (hr : ∀ n, r = some n → n ≤ 10) :
    passesLeft r' + (if p then 1 else 0) ≤ passesLeft r + if q then 11 else 0 := by
  cases h with
  | keeps => simp
  | starts => simp [passesLeft]
  | discards hlt =>
    simp only [passesLeft, Option.elim_some, if_true, Bool.false_eq_true, if_false]
    omega
  | @ends n =>
    have hn := hr n rfl
    simp only [passesLeft, Option.elim_some, Option.elim_none, if_true, Bool.false_eq_true,
      if_false]
    omega

variable {s t : HubSystem ι} {l : HubLabel ι}

theorem sendsRequest_wait {failed : Option AmqpRpcReply} {e : ι} :
    SendsRequest d s (.base (.waitDevice e failed fin)) t = false ∧
      SendsRequest d s (.waitCommand e failed fin) t = false :=
  ⟨Bool.and_false _, Bool.and_false _⟩

theorem base_waits {l : Label ι} (h : (hubSystem cfg).step s (.base l) = some t) :
    WaitStep (HubLabel.waits d (.base l)) (SendsRequest d s (.base l) t) (s.base.retry d)
      (t.base.retry d) ∧ t.retry d = s.retry d := by
  obtain ⟨-, base, hstep, rfl⟩ := base_cases h
  refine ⟨?_, rfl⟩
  by_cases hself : l.device = some d
  · cases l with
    | call e a start =>
      obtain rfl := Option.some.inj hself
      obtain ⟨hnone, hnext⟩ := call_retry hstep
      change WaitStep false _ _ _
      rcases hnext with hnext | ⟨hnext, hsent, hlonger⟩
      · rw [hnone, hnext]
        exact .keeps
      · have hsends : SendsRequest e s (.base (.call e a start)) { s with base } = true := by
          simp [SendsRequest, hsent, hlonger]
        rw [hnone, hnext, hsends]
        exact .starts
    | waitDevice e failed fin =>
      obtain rfl := Option.some.inj hself
      obtain ⟨n, hn, hnext⟩ := waitDevice_retry hstep
      rw [sendsRequest_wait.1]
      change WaitStep (decide (e = e)) false _ _
      rw [hn, decide_eq_true rfl]
      rcases hnext with hnext | ⟨hlt, hnext⟩
      · rw [hnext]
        exact .ends
      · rw [hnext]
        exact .discards hlt
    | pumpDevice e answer =>
      have hsame : base.retry d = s.base.retry d := by
        rw [System.retry, (pumpDevice_frame hstep).1, System.retry]
      rw [hsame]
      exact .keeps
    | userCommand | waitArbiter | pumpArbiter | deliver | lose | post => cases hself
  · have hsame : base.retry d = s.base.retry d := by
      rw [System.retry, step_device_ne hself hstep, System.retry]
    have hwaits : HubLabel.waits d (.base l) = false := by
      cases l with
      | waitDevice e failed fin => exact decide_eq_false fun he => hself (congrArg some he)
      | call | pumpDevice | userCommand | waitArbiter | pumpArbiter | deliver | lose | post => rfl
    rw [hsame, hwaits]
    exact .keeps

theorem userCommand_waits {e : ι} {cmd : Bytes} {start : Start}
    (h : (hubSystem cfg).step s (.userCommand e cmd start) = some t) :
    t.base.retry d = s.base.retry d ∧ WaitStep (HubLabel.waits d (.userCommand e cmd start))
      (SendsRequest d s (.userCommand e cmd start) t) (s.retry d) (t.retry d) := by
  obtain ⟨-, -, hnone, ⟨rfl, -⟩ | ⟨target, base, k, -, -, -, hstart, rfl⟩⟩ := hubCommand_cases h
  · exact ⟨rfl, .keeps⟩
  have hdevice : base.device = s.base.device := by
    rw [startRequest_frame hstart]
    rfl
  refine ⟨by rw [System.retry, HubSystem.setSending, hdevice, System.retry], ?_⟩
  change WaitStep false _ _ _
  rw [HubSystem.retry, HubSystem.retry]
  by_cases he : e = d
  · subst he
    rw [hnone, setSending_self]
    rcases startRequest_cases hstart with ⟨rfl, -⟩ | ⟨cid, rq, -, ⟨rfl, -⟩ | ⟨rfl, rfl, rfl⟩⟩
    · exact .keeps
    · exact .keeps
    · have hlonger : s.base.requests.length < (s.openCommand.send (.hub e)
          (.temp s.base.requests.length) target cmd cid rq).requests.length :=
        send_length (s := s.openCommand)
      have hsends : SendsRequest e s (.userCommand e cmd (.sent cid rq))
          (HubSystem.setSending { s with base := { s.openCommand.send (.hub e)
            (.temp s.base.requests.length) target cmd cid rq with
              broker := (s.openCommand.send (.hub e) (.temp s.base.requests.length) target cmd cid
                rq).broker.subscribe rq (.temp s.base.requests.length) } } e
            (Option.map (fun k => ⟨k, 0⟩) (some s.openCommand.requests.length))) = true :=
        (Bool.and_eq_true _ _).mpr ⟨decide_eq_true hlonger, by simp [Start.isSent]⟩
      rw [hsends]
      exact .starts
  · rw [setSending_ne _ _ (Ne.symm he)]
    exact .keeps

theorem waitCommand_waits {e : ι} {failed : Option AmqpRpcReply}
    (h : (hubSystem cfg).step s (.waitCommand e failed fin) = some t) :
    t.base.retry d = s.base.retry d ∧ WaitStep (HubLabel.waits d (.waitCommand e failed fin))
      (SendsRequest d s (.waitCommand e failed fin) t) (s.retry d) (t.retry d) := by
  obtain ⟨w, r, hw, -, s₁, o, rfl, hs₁⟩ := waitCommand_cases h
  have hkept : s₁.base.device = s.base.device ∧ s₁.sending = s.sending := by
    rcases hs₁ with rfl | ⟨q, m, broker, -, rfl⟩
    · exact ⟨rfl, rfl⟩
    rcases logAnswer_cases { s with base := { s.base with broker } } e w.request r.correlationId m
      with hsame | ⟨-, hlogged⟩
    · rw [hsame]
      exact ⟨rfl, rfl⟩
    · rw [hlogged, logAccepted_frame]
      exact ⟨rfl, rfl⟩
  obtain ⟨hdevice, hsending⟩ := hkept
  have hbase : (s₁.commandPass e w r o fin).base.retry d = s.base.retry d := by
    rw [System.retry, System.retry]
    rcases commandPass_cases s₁ e w r o fin with ⟨-, hpass⟩ | hpass
    · rw [hpass, HubSystem.setSending, hdevice]
    · rw [hpass, HubSystem.setSending, closeLink_frame, hdevice]
  refine ⟨hbase, ?_⟩
  rw [sendsRequest_wait.2]
  change WaitStep (decide (e = d)) false (Option.map _ (s.sending d)) (Option.map _ _)
  by_cases he : e = d
  · subst he
    rw [hw, decide_eq_true rfl]
    rcases commandPass_cases s₁ e w r o fin with ⟨hlt, hpass⟩ | hpass
    · rw [hpass, setSending_self]
      exact .discards hlt
    · rw [hpass, setSending_self]
      exact .ends
  · have hne : d ≠ e := Ne.symm he
    rw [decide_eq_false he]
    rcases commandPass_cases s₁ e w r o fin with ⟨-, hpass⟩ | hpass
    · rw [hpass, setSending_ne _ _ hne, hsending]
      exact .keeps
    · rw [hpass, setSending_ne _ _ hne, hsending]
      exact .keeps

/-- The wait of a call or the wait of a command takes the step, and the other stays. -/
theorem step_waits (d : ι) (h : (hubSystem cfg).step s l = some t) :
    (WaitStep (l.waits d) (SendsRequest d s l t) (s.base.retry d) (t.base.retry d) ∧
        t.retry d = s.retry d) ∨
      t.base.retry d = s.base.retry d ∧
        WaitStep (l.waits d) (SendsRequest d s l t) (s.retry d) (t.retry d) := by
  cases l with
  | base l => exact Or.inl (base_waits h)
  | userCommand e cmd start => exact Or.inr (userCommand_waits h)
  | waitCommand e failed fin => exact Or.inr (waitCommand_waits h)

/-! ### Runs -/

def WithinLimit (d : ι) (s : HubSystem ι) : Prop :=
  (∀ n, s.base.retry d = some n → n ≤ 10) ∧ ∀ n, s.retry d = some n → n ≤ 10

theorem withinLimit_init : WithinLimit d (.init cfg) := by
  constructor
  · intro n hn
    cases hn
  · intro n hn
    cases hn

theorem withinLimit_step (h : WithinLimit d s) (hstep : (hubSystem cfg).step s l = some t) :
    WithinLimit d t := by
  rcases step_waits d hstep with ⟨hwait, hsame⟩ | ⟨hsame, hwait⟩
  · exact ⟨hwait.within h.1, hsame ▸ h.2⟩
  · exact ⟨hsame ▸ h.1, hwait.within h.2⟩

/-- Whatever the broker and the other parties do, foreign messages included, the wait loops of
a device make at most eleven passes for each request that the device has sent and waited for. -/
theorem waits_bounded (cfg : Config ι) (d : ι) (ls : List (HubLabel ι)) (s : HubSystem ι)
    (hrun : (hubSystem cfg).run (.init cfg) ls = some s) :
    ls.countP (HubLabel.waits d) ≤
      11 * (hubSystem cfg).countSteps (SendsRequest d) (.init cfg) ls := by
  have hbound : passesLeft (s.base.retry d) + passesLeft (s.retry d) +
      ls.countP (HubLabel.waits d) ≤
        0 + 11 * (hubSystem cfg).countSteps (SendsRequest d) (.init cfg) ls := by
    refine Machine.run_count_le (I := WithinLimit d)
      (Φ := fun s => passesLeft (s.base.retry d) + passesLeft (s.retry d))
      (fun _ _ _ => withinLimit_step) (fun u l v hI hstep => ?_) ?_ hrun
    · rcases step_waits d hstep with ⟨hwait, hsame⟩ | ⟨hsame, hwait⟩
      · have hpasses := hwait.passes hI.1
        rw [hsame]
        omega
      · have hpasses := hwait.passes hI.2
        rw [hsame]
        omega
    · exact withinLimit_init
  omega

/-- An activate that the node refuses, and an enroll for which eleven messages that are no
answer come before the device gives up. -/
def crowdedWait : List (HubLabel Unit) :=
  .base (.call () .activate (sentAs 0)) :: .base (.call () (.enroll none) (sentAs 0)) ::
    (List.replicate 11 [
    .base (.post (replyQueueOf 0) (replyProperties none) []), .base (.deliver 1 (.device ())),
    .base (.waitDevice () none .ok)]).flatten

theorem waits_bounded_crowded :
    ((hubSystem loneEdge).run (.init loneEdge) crowdedWait).isSome = true ∧
      crowdedWait.countP (HubLabel.waits ()) = 11 ∧
      (hubSystem loneEdge).countSteps (SendsRequest ()) (.init loneEdge) crowdedWait = 1 ∧
      crowdedWait.countP (HubLabel.waits ()) ≤
        11 * (hubSystem loneEdge).countSteps (SendsRequest ()) (.init loneEdge) crowdedWait := by
  have hrun : ((hubSystem loneEdge).run (.init loneEdge) crowdedWait).isSome = true := by
    decide +kernel
  obtain ⟨s, hs⟩ := Option.isSome_iff_exists.mp hrun
  exact ⟨hrun, by decide, by decide +kernel, waits_bounded loneEdge () crowdedWait s hs⟩

end Chamge
