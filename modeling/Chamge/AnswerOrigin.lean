import Chamge.History

/-! Where the answer to a user command comes from: the handler of the device that the
command is for, run on the command's text while the device was activated. -/

namespace Chamge
open CString JsonGlib

variable {ι : Type} [DecidableEq ι] {cfg : Config ι} {s t : System ι} {d : ι}

/-! ### The handling and the sending of a request -/

/-- In the step a pump takes request `k` and gives it to its handler. -/
def TakesRequest (cfg : Config ι) (s : System ι) (l : Label ι) (k : ℕ) : Prop :=
  ∃ e t, (system cfg).step s l = some t ∧ t.dispatched = s.dispatched ++ [e] ∧ Hands s l e ∧
    e.message.origin = .request k

omit [DecidableEq ι] in
/-- A message from the queue of a device is handed to that device's handler, which then is
activated and has its source. -/
theorem hands_uid (h : Legal cfg s) (hinj : Function.Injective cfg.uid)
    (huid : cfg.uid d ≠ cfg.enrollQueue) (hname : isServerNamed (cfg.uid d) = false)
    {l : Label ι} {e : Dispatched ι} (hands : Hands s l e) (hqueue : e.queue = cfg.uid d) :
    ∃ answer, l = .pumpDevice d answer ∧ e.responder = .device d answer ∧
      (s.device d).node.state = .activated ∧ (s.device d).source = true := by
  cases hands with
  | arbiter hinbox hresponder =>
    rcases h.received _ _ _ hinbox with ⟨-, hq⟩ | ⟨e', hc, -⟩ | ⟨k, r, hr, hc, -⟩
    · exact absurd (hqueue.symm.trans hq) huid
    · cases hc
    · rcases h.shaped.linked k r hr with hlink | ⟨e', hlink, -⟩
      · have hclash := hc.symm.trans hlink
        cases hclash
      · have hclash := hc.symm.trans hlink
        cases hclash
  | @device d' answer _ hsource hinbox hresponder =>
    have hself : d' = d := by
      rcases h.received _ _ _ hinbox with ⟨hc, -⟩ | ⟨e', hc, hq, -⟩ | ⟨k, r, hr, -, hq⟩
      · cases hc
      · obtain rfl := ConnId.device.inj hc
        exact hinj (hq.symm.trans hqueue)
      · have hserver := (h.wired.proper r (List.mem_of_getElem? hr)).serverNamed
        rw [hq, hqueue, hname] at hserver
        cases hserver
    subst hself
    exact ⟨answer, rfl, hresponder, h.shaped.source _ hsource, hsource⟩

theorem dispatched_split {ls : List (Label ι)} {e : Dispatched ι}
    (hrun : (system cfg).run (.init cfg) ls = some s) (he : e ∈ s.dispatched) :
    ∃ ls₁ l ls₂ u v, ls = ls₁ ++ l :: ls₂ ∧ (system cfg).run (.init cfg) ls₁ = some u ∧
      (system cfg).step u l = some v ∧ v.dispatched = u.dispatched ++ [e] ∧ Hands u l e ∧
      (system cfg).run v ls₂ = some s := by
  obtain ⟨ls₁, l, ls₂, u, v, hls, hrun₁, hno, hstep, hyes, hrun₂⟩ :=
    Machine.exists_step_of_run (Q := fun u => e ∈ u.dispatched) List.not_mem_nil he hrun
  refine ⟨ls₁, l, ls₂, u, v, hls, hrun₁, hstep, ?_⟩
  rcases step_dispatched hstep with hsame | ⟨e', hnew, hands⟩
  · exact absurd (hsame ▸ hyes) hno
  · rw [hnew] at hyes
    rcases List.mem_append.mp hyes with hold | hlast
    · exact absurd hold hno
    · obtain rfl := List.mem_singleton.mp hlast
      exact ⟨hnew, hands, hrun₂⟩

theorem request_split {ls : List (Label ι)} {k : ℕ} {r : Request ι}
    (hrun : (system cfg).run (.init cfg) ls = some s) (hr : s.requests[k]? = some r) :
    ∃ ls₁ l ls₂ u, ls = ls₁ ++ l :: ls₂ ∧ (system cfg).run (.init cfg) ls₁ = some u ∧
      u.requests.length = k ∧ Sends cfg u l r ∧ (system cfg).run u (l :: ls₂) = some s := by
  have hlt : k < s.requests.length := (List.getElem?_eq_some_iff.mp hr).1
  obtain ⟨ls₁, l, ls₂, u, v, hls, hrun₁, hno, hstep, hyes, hrun₂⟩ :=
    Machine.exists_step_of_run (Q := fun u => k < u.requests.length) (Nat.not_lt_zero k) hlt hrun
  rcases step_requests hstep with hsame | ⟨r', hnew, hsends⟩
  · exact absurd (hsame ▸ hyes) hno
  have hlen : u.requests.length = k := by
    rw [hnew, List.length_append, List.length_singleton] at hyes
    omega
  have hat : v.requests[k]? = some r' := by
    rw [hnew, ← hlen, List.getElem?_concat_length]
  obtain rfl := Option.some.inj (hr.symm.trans (getElem?_of_isPrefix (run_requests hrun₂) hat))
  exact ⟨ls₁, l, ls₂, u, hls, hrun₁, hlen, hsends,
    Machine.run_cons_eq_some.mpr ⟨v, hstep, hrun₂⟩⟩

/-! ### Answers to user commands -/

/-- In the run, request `k` is a user command for the device, and in a later step the device,
which then is activated and has its source, takes this request and handles the command's text
with the message's body as the result. -/
def AnsweredBy (cfg : Config ι) (ls : List (Label ι)) (d : ι) (k : ℕ) (m : Message) : Prop :=
  ∃ ls₁ cmd start ls₂ answer ls₃ u v,
    ls = ls₁ ++ .userCommand cmd start :: (ls₂ ++ .pumpDevice d answer :: ls₃) ∧
    (system cfg).run (.init cfg) ls₁ = some u ∧ u.requests.length = k ∧
    commandTarget cfg u cmd = some (cfg.uid d) ∧
    (system cfg).run u (.userCommand cmd start :: ls₂) = some v ∧
    TakesRequest cfg v (.pumpDevice d answer) k ∧
    (v.device d).node.state = .activated ∧ (v.device d).source = true ∧
    m.body = deviceProcessJsonMessage cfg.json (fun _ => answer) cmd

/-- In every run of the program's own traffic, what is accepted as the answer to a user
command for a device is what that device's handler has made of the command's text, if the
devices have different uids and the broker lets the device declare its queue. -/
theorem user_command_answered (cfg : Config ι) (huid : ∀ d, cfg.uid d ≠ cfg.enrollQueue)
    (hinj : Function.Injective cfg.uid) (d : ι) (hname : isServerNamed (cfg.uid d) = false)
    (ls : List (Label ι)) (s : System ι)
    (hown : (system cfg).Along OwnTraffic (.init cfg) ls)
    (hrun : (system cfg).run (.init cfg) ls = some s) (k : ℕ) (m : Message) (r : Request ι)
    (hacc : (k, m) ∈ s.accepted) (hr : s.requests[k]? = some r)
    (htarget : r.target = cfg.uid d) : AnsweredBy cfg ls d k m := by
  obtain ⟨-, r', hr', e, he, horigin, hqueue, hbody, hresponse⟩ :=
    (run_legal hown hrun).correlated.accepted huid k m hacc
  obtain rfl := Option.some.inj (hr.symm.trans hr')
  -- the step that handed the command on
  obtain ⟨ls', l, ls₃, v, v', rfl, hrun', hstep, hnew, hands, hrest⟩ := dispatched_split hrun he
  have hlegal := run_legal hown.left hrun'
  have htakes : TakesRequest cfg v l k := ⟨e, v', hstep, hnew, hands, horigin⟩
  obtain ⟨answer, rfl, hresponder, hactive, hsource⟩ :=
    hands_uid hlegal hinj (huid d) hname hands (hqueue.trans htarget)
  -- it was sent before that
  have hsent : v.requests[k]? = some r := by
    obtain ⟨r', hr', -⟩ := hands_request hlegal horigin hands
    have hlater : s.requests[k]? = some r' :=
      getElem?_of_isPrefix ((step_grows hstep).requests.trans (run_requests hrest)) hr'
    exact hr'.trans (hlater.symm.trans hr)
  obtain ⟨ls₁, l, ls₂, u, rfl, hrun₁, hlen, hsends, hrun₂⟩ := request_split hrun' hsent
  cases hsends with
  | call _ hqueue' _ _ => exact absurd (htarget.symm.trans hqueue') (huid d)
  | @command cmd start _ hcommand hcmd =>
    refine ⟨ls₁, cmd, start, ls₂, answer, ls₃, u, v, ?_, hrun₁, hlen, htarget ▸ hcommand, hrun₂,
      htakes, hactive, hsource, ?_⟩
    · rw [List.append_assoc, List.cons_append]
    · rw [hresponse, Dispatched.response, hresponder, hbody, hcmd]

def answeredRun : List (Label Unit) :=
  activatedRun ++ [.userCommand (commandTo (cstr "edge-1")) (sentAs 2), .deliver 0 (.device ()),
    .pumpDevice () (some (cstr "srt://localhost:8888")), .deliver 0 (.temp 2),
    .waitArbiter none .ok]

theorem answered_run_answered : ∃ s m, (system loneEdge).run (.init loneEdge) answeredRun =
    some s ∧ (2, m) ∈ s.accepted ∧ AnsweredBy loneEdge answeredRun () 2 m := by
  have hrun : ((system loneEdge).run (.init loneEdge) answeredRun).any (fun s =>
      s.requests[2]?.any (fun r => r.target = loneEdge.uid ()) &&
        s.accepted.any fun a => a.1 = 2) = true := by
    decide +kernel
  obtain ⟨s, hs, hfacts⟩ := (Option.any_eq_true ..).mp hrun
  obtain ⟨hsent, hany⟩ := (Bool.and_eq_true _ _).mp hfacts
  obtain ⟨r, hr, htarget⟩ := (Option.any_eq_true ..).mp hsent
  obtain ⟨⟨k, m⟩, hacc, hk⟩ := List.any_eq_true.mp hany
  obtain rfl : k = 2 := of_decide_eq_true hk
  have huid : cstr "edge-1" ≠ cstr "enroll" := by decide
  exact ⟨s, m, hs, hacc, user_command_answered loneEdge (fun _ => huid) (fun _ _ _ => rfl) ()
    (by decide) answeredRun s (by decide +kernel) hs 2 m r hacc hr (of_decide_eq_true htarget)⟩

end Chamge
