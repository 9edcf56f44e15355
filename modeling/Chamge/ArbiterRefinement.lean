import Chamge.AnswerOrigin
import Chamge.DeviceRefinement
import Chamge.Handling
import Chamge.PumpContract
import Chamge.Registration
import Mathlib.Data.List.Forall2

/-! The arbiter of the running system does what its pump and the agent's handler do on the
outcomes that its library calls have. -/

namespace Chamge
open CString JsonGlib

/-! ### The arbiter's process -/

/-- The agent with its lists, the replies to the devices' requests, the commands that have
gone out, and the completions of the D-Bus invocations. -/
structure ArbiterRun where
  agent : ArbiterAgent
  replies : List Publication
  published : List Publication
  completions : List (ChamgeReturn × Option Bytes)

def ArbiterRun.init : ArbiterRun :=
  { agent := .empty, replies := [], published := [], completions := [] }

structure CommandTrace where
  link : LinkOutcomes
  rpc : RpcPrelude
  outcomes : List ConsumeOutcome

def commandTrace (start : Start) (outcomes : List ConsumeOutcome) (fin : Finish) : CommandTrace :=
  { link := linkOutcomes start fin, rpc := start.rpcPrelude, outcomes }

inductive ArbiterCall
  | message (o : ConsumeOutcome) (queueCheck : Except AmqpRpcReply Unit)
  | userCommand (cmd : Bytes) (start : Start) (outcomes : List ConsumeOutcome) (fin : Finish)

/-- The command, and how the calls up to its wait loop come out. -/
def ArbiterCall.command : ArbiterCall → Option (Bytes × Start)
  | message _ _ => none
  | userCommand cmd start _ _ => some (cmd, start)

def handleCommand (json : JsonParser) (settings : UserCommandSettings) (agent : ArbiterAgent)
    (cmd : Bytes) (t : CommandTrace) : Option HandlerResult :=
  chamgeArbiterAgentHandleUserCommand json agent ⟨.activated, some (.amqp settings)⟩ cmd t.link
    t.rpc t.outcomes

/-- An activated arbiter: its pump on a message, and the agent's handler on a command. -/
def arbiterCalls (json : JsonParser) (settings : UserCommandSettings) :
    Machine ArbiterRun ArbiterCall where
  step u
    | .message o queueCheck =>
      let r := arbiterProcessAmqpMessage json amqpArbiterBackend true o queueCheck u.agent
      some { u with agent := r.after, replies := u.replies ++ r.published.toList }
    | .userCommand cmd start outcomes fin =>
      (handleCommand json settings u.agent cmd (commandTrace start outcomes fin)).map fun r =>
        { u with
          published := u.published ++ r.published.toList
          completions := u.completions ++ r.completions }

/-! ### A command over its own connection -/

variable {start : Start} {outcomes : List ConsumeOutcome} {fin : Finish} {json : JsonParser}
  {agent : ArbiterAgent} {settings : UserCommandSettings} {cmd target cid rq : Bytes}
  {x : WaitExit} {text : AmqpRpcReply → Bytes} {limit : Option ℕ} {args : RpcArgs}
  {out : Option Bytes}

/-- The command is let through by the agent, and names the queue. -/
def LetThrough (json : JsonParser) (agent : ArbiterAgent) (cmd target : Bytes) : Prop :=
  ∃ root, json.loadFromData cmd = .ok root ∧ refusal agent (nodeGetObject root) = none ∧
    getQueueName json cmd = some target

variable {ι : Type} [DecidableEq ι] {cfg : Config ι} {s s' : System ι} {l : Label ι}
  {ls ls' : List (Label ι)} {calls : List ArbiterCall} {u : ArbiterRun} {start : Start}
  {o : ConsumeOutcome}

/-- The command that the agent is given in the step. -/
def Label.command : Label ι → Option (Bytes × Start)
  | .userCommand cmd start => some (cmd, start)
  | .call _ _ _ | .waitDevice _ _ _ | .pumpDevice _ _ | .waitArbiter _ _ | .pumpArbiter
  | .deliver _ _ | .lose _ | .post _ _ _ => none

def Request.command (r : Request ι) : Bytes × Start :=
  (r.body, .sent r.correlationId r.replyQueue)

def System.arbiterPending (s : System ι) : Option (Request ι) :=
  s.arbiterWait.bind fun k => s.requests[k]?

/-- What the arbiter's pump sends back for a message, if the reply queue is there. -/
def Dispatched.arbiterReply (json : JsonParser) (e : Dispatched ι) : Option Publication :=
  match e.responder with
  | .arbiter _ =>
    (replyAddress e.message.envelope).map fun a => replyPublication a (e.response json)
  | .device _ _ => none

def System.arbiterReplies (cfg : Config ι) (s : System ι) : List Publication :=
  s.dispatched.filterMap (Dispatched.arbiterReply cfg.json)

/-- All that the arbiter has handled is answered, or all until the step that has closed its
channel. -/
def RepliesUntilClosed (cfg : Config ι) (ls : List (Label ι)) (s : System ι)
    (replies : List Publication) : Prop :=
  if s.broker.channelOpen .arbiter then replies = s.arbiterReplies cfg
  else ∃ ls₁ l ls₂ v v', ls = ls₁ ++ l :: ls₂ ∧ (system cfg).run (.init cfg) ls₁ = some v ∧
    v.broker.channelOpen .arbiter = true ∧ (system cfg).step v l = some v' ∧
    v'.broker.channelOpen .arbiter = false ∧ replies = v.arbiterReplies cfg

/-- How the D-Bus call for a command ends: a failure with a text, or a success whose text, if
any, is of a message accepted for the answer to the request that the command has become. -/
inductive Completes (s : System ι) (command : Bytes × Start) : ChamgeReturn × Option Bytes → Prop
  | fail (text : Bytes) : Completes s command (.fail, some text)
  | ok {k : ℕ} {r : Request ι} {out : Option Bytes} (hr : s.requests[k]? = some r)
      (hcaller : r.caller = .agent) (hcommand : r.command = command)
      (hout : ∀ text, out = some text → ∃ m, (k, m) ∈ s.accepted ∧ strndup m.body = some text) :
      Completes s command (.ok, out)

/-- A message of the pump has been delivered on the arbiter's connection, those of a command
on the connection of its request. -/
def ArbiterCall.Receives (s : System ι) : ArbiterCall → Prop
  | message o _ => Consumed s .arbiter [o]
  | userCommand _ start outcomes _ => ConsumedBy s .agent start.rpcPrelude outcomes

structure ArbiterWaiting (cfg : Config ι) (s : System ι) (k : ℕ) (r : Request ι)
    (outcomes : List ConsumeOutcome) : Prop where
  request : s.requests[k]? = some r
  caller : r.caller = .agent
  allowed : LetThrough cfg.json s.agent r.body r.target
  loop : waitLoop none r.correlationId 0 outcomes = none
  consumed : Consumed s r.conn outcomes

/-- The calls are those of the pump and, one for one, the commands that the agent has been
given; what these have published has gone out, and each has its completion. -/
structure ArbiterMirrors (cfg : Config ι) (exchange : Bytes) (ls : List (Label ι)) (s : System ι)
    (calls : List ArbiterCall) (u : ArbiterRun) : Prop where
  agent : u.agent = s.agent
  replies : RepliesUntilClosed cfg ls s u.replies
  commands : calls.filterMap ArbiterCall.command ++
    (s.arbiterPending.map Request.command).toList = ls.filterMap Label.command
  sent : SentInOrder exchange s .agent u.published s.arbiterPending
  completed : List.Forall₂ (Completes s) (calls.filterMap ArbiterCall.command) u.completions
  consumed : ∀ c ∈ calls, c.Receives s
  waiting : ∀ k, s.arbiterWait = some k → ∃ r outcomes, ArbiterWaiting cfg s k r outcomes

variable {exchange : Bytes}

theorem closeLink_fades (s : System ι) (c : ConnId ι) :
    s.broker.Fades (s.closeLink c fin).broker := by
  cases fin with
  | ok => exact Broker.fades_close
  | failed => exact Broker.Fades.refl _
  | partly => exact Broker.fades_cancel

theorem startRequest_fades {who : Caller ι} {c : ConnId ι} {target body : Bytes} {w : Option ℕ}
    (h : s.startRequest who c target body start = some (s', w)) : s.broker.Fades s'.broker := by
  have hsend : ∀ cid rq, s.broker.Fades (s.send who c target body cid rq).broker := fun cid rq =>
    Broker.fades_declare.trans Broker.fades_publish
  rcases startRequest_cases h with
    ⟨-, rfl | ⟨-, rfl⟩, -⟩ | ⟨cid, rq, -, ⟨-, -, rfl⟩ | ⟨-, -, rfl⟩⟩
  · exact Broker.Fades.refl _
  · exact Broker.fades_cancel
  · exact hsend cid rq
  · exact (hsend cid rq).trans Broker.fades_subscribe

theorem finishCall_fades {d : ι} {w : NodeAction × BackendMethod} {r : ChamgeReturn} :
    s.broker.Fades (s.finishCall cfg d w r).broker := by
  rw [finishCall_broker]
  split_ifs
  · exact Broker.fades_close
  · exact Broker.Fades.refl _

theorem endWait_fades {d : ι} {w : DeviceWait} {r : Request ι} {response : Option Bytes}
    (h : s.endWait cfg d w r response fin = some s') : s.broker.Fades s'.broker := by
  rcases endWait_cases h with ⟨-, rfl⟩ | ⟨ret, -, -, rfl⟩ | ⟨-, ⟨-, rfl⟩ | ⟨-, ret, -, rfl⟩ |
    ⟨-, s₁, ret, hsub, rfl⟩⟩
  · have hfirst : s.broker.Fades (s.broker.close (.device d)) := Broker.fades_close
    exact hfirst.trans Broker.fades_closeAll
  · exact finishCall_fades
  · exact finishCall_fades
  · exact (closeLink_fades s r.conn).trans finishCall_fades
  · have hdeclare : s.broker.Fades (s.broker.declare (cfg.uid d)) := Broker.fades_declare
    rcases subscribe_cases hsub with ⟨-, rfl | ⟨-, rfl⟩ | ⟨-, rfl⟩⟩ | ⟨-, -, -, rfl⟩
    · exact Broker.Fades.refl _
    · exact Broker.fades_cancel
    · exact hdeclare
    · exact hdeclare.trans Broker.fades_subscribe

theorem waitPass_fades {d : ι} {w : DeviceWait} {r : Request ι}
    (h : s.waitPass cfg d w r o fin = some s') : s.broker.Fades s'.broker := by
  rcases waitPass_cases h with ⟨-, rfl⟩ | ⟨_, -, hend⟩ | ⟨_, -, -, hend⟩
  · exact Broker.Fades.refl _
  · exact endWait_fades hend
  · exact endWait_fades hend

theorem dispatch_fades {c : ConnId ι} {address : ReplyAddress} {e : Dispatched ι} :
    s.broker.Fades (s.dispatch cfg c address e).broker := by
  unfold System.dispatch System.answer
  split_ifs
  · exact Broker.fades_publish
  · exact Broker.fades_cancel

/-- Nothing opens the arbiter's channel again. -/
theorem step_arbiterChannel (h : (system cfg).step s l = some s')
    (hopen : s'.broker.channelOpen .arbiter = true) :
    s.broker.channelOpen .arbiter = true := by
  have hconnect : ∀ {c : ConnId ι}, c ≠ .arbiter →
      (s.broker.connect c).channelOpen .arbiter = true → s.broker.channelOpen .arbiter = true :=
    fun hc h => (Function.update_of_ne hc.symm ..).symm.trans h
  cases l with
  | call d a start =>
    obtain ⟨-, ⟨-, rfl⟩ | ⟨-, rfl⟩ | ⟨method, s₁, c, s₂, w, -, -, hfor, hstart, hw⟩⟩ :=
      call_cases h
    · exact hopen
    · exact hopen
    have hmid : s₂.broker.channelOpen .arbiter = true := by
      rcases hw with ⟨-, rfl⟩ | ⟨k, -, rfl⟩
      · exact finishCall_fades _ hopen
      · exact hopen
    have hfirst := startRequest_fades hstart _ hmid
    rcases openFor_cases hfor with ⟨-, -, rfl⟩ | ⟨-, -, -, rfl⟩ | ⟨-, -, rfl⟩
    · exact hfirst
    · exact hconnect (by simp) hfirst
    · exact hconnect (by simp) hfirst
  | userCommand cmd start =>
    obtain ⟨-, ⟨-, rfl⟩ | ⟨target, s₂, w, -, hstart, rfl⟩⟩ := userCommand_cases h
    · exact hopen
    · exact hconnect (by simp) (startRequest_fades hstart _ hopen)
  | waitDevice d failed fin =>
    obtain ⟨w, r, -, -, ⟨reply, -, -, hpass⟩ | ⟨q, m, broker, -, hrec, hpass⟩⟩ :=
      waitDevice_cases h
    · exact waitPass_fades hpass _ hopen
    · have hreceived := waitPass_fades hpass _ hopen
      rw [logAccepted_frame] at hreceived
      exact Broker.fades_receive hrec _ hreceived
  | waitArbiter failed fin =>
    obtain ⟨k, r, -, -, s₁, hs₁, ht⟩ := waitArbiter_cases h
    have hclosed : s₁.broker.channelOpen .arbiter = true := by
      rcases ht with rfl | rfl
      · exact hopen
      · exact closeLink_fades s₁ r.conn _ hopen
    rcases hs₁ with rfl | ⟨q, m, broker, hrec, rfl⟩
    · exact hclosed
    · rw [logAccepted_frame] at hclosed
      exact Broker.fades_receive hrec _ hclosed
  | pumpDevice d answer =>
    obtain ⟨-, -, q, m, broker, hrec, ⟨-, rfl⟩ | ⟨address, lost, -, -, rfl⟩⟩ :=
      pumpDevice_cases h
    · exact Broker.fades_receive hrec _ hopen
    · exact Broker.fades_receive hrec _ (dispatch_fades _ hopen)
  | pumpArbiter =>
    obtain ⟨-, q, m, broker, hrec, ⟨-, rfl⟩ | ⟨address, -, rfl⟩⟩ := pumpArbiter_cases h
    · exact Broker.fades_receive hrec _ hopen
    · exact Broker.fades_receive hrec _ (dispatch_fades _ hopen)
  | deliver i c =>
    obtain ⟨q, m, broker, hb, rfl⟩ := deliver_cases h
    obtain ⟨-, -, rfl⟩ := Broker.deliver_eq_some hb
    exact hopen
  | lose i =>
    obtain ⟨broker, hb, rfl⟩ := Option.map_eq_some_iff.mp h
    obtain rfl := Broker.lose_eq_some hb
    exact hopen
  | post q properties body =>
    obtain rfl := Option.some.inj h
    unfold Broker.post at hopen
    split_ifs at hopen <;> exact hopen

/-! ### What has been accepted -/

theorem RepliesUntilClosed.step {replies replies' : List Publication}
    (h : RepliesUntilClosed cfg ls s replies) (hrun : (system cfg).run (.init cfg) ls = some s)
    (hstep : (system cfg).step s l = some s')
    (hopen : s'.broker.channelOpen .arbiter = true → replies = s.arbiterReplies cfg →
      replies' = s'.arbiterReplies cfg)
    (hclosed : s'.broker.channelOpen .arbiter = false → replies' = replies) :
    RepliesUntilClosed cfg (ls ++ [l]) s' replies' := by
  unfold RepliesUntilClosed at h ⊢
  cases hlater : s'.broker.channelOpen .arbiter with
  | true =>
    rw [if_pos (step_arbiterChannel hstep hlater)] at h
    exact hopen hlater h
  | false =>
    obtain rfl := hclosed hlater
    cases hbefore : s.broker.channelOpen .arbiter with
    | true =>
      rw [if_pos hbefore] at h
      exact ⟨ls, l, [], s, s', rfl, hrun, hbefore, hstep, hlater, h⟩
    | false =>
      -- the closing step stays where it was
      rw [if_neg (ne_true_of_eq_false hbefore)] at h
      obtain ⟨ls₁, l₁, ls₂, v, v', rfl, hrest⟩ := h
      refine ⟨ls₁, l₁, ls₂ ++ [l], v, v', ?_, hrest⟩
      rw [List.append_assoc, List.cons_append]

theorem RepliesUntilClosed.kept {replies : List Publication}
    (h : RepliesUntilClosed cfg ls s replies) (hrun : (system cfg).run (.init cfg) ls = some s)
    (hstep : (system cfg).step s l = some s')
    (hsame : s'.arbiterReplies cfg = s.arbiterReplies cfg) :
    RepliesUntilClosed cfg (ls ++ [l]) s' replies :=
  h.step hrun hstep (fun _ hall => hall.trans hsame.symm) fun _ => rfl

omit [DecidableEq ι] in
theorem Completes.mono {command : Bytes × Start} {completion : ChamgeReturn × Option Bytes}
    (h : Completes s command completion) (hgrows : Grows s s')
    (hacc : s.accepted <+: s'.accepted) : Completes s' command completion := by
  cases h with
  | fail text => exact .fail text
  | ok hr hcaller hcommand hout =>
    refine .ok (getElem?_of_isPrefix hgrows.requests hr) hcaller hcommand fun text htext => ?_
    obtain ⟨m, hm, hbody⟩ := hout text htext
    exact ⟨m, hacc.subset hm, hbody⟩

omit [DecidableEq ι] in
theorem ArbiterCall.Receives.mono {c : ArbiterCall} (h : c.Receives s) (hgrows : Grows s s') :
    c.Receives s' := by
  cases c with
  | message o queueCheck => exact Consumed.mono h hgrows
  | userCommand cmd start outcomes fin => exact ConsumedBy.mono h hgrows

/-- How the passive declaration of the reply queue ends. -/
def System.queueCheck (s : System ι) (replyQueue : Bytes) : Except AmqpRpcReply Unit :=
  if s.broker.channelOpen .arbiter && s.broker.hasQueue replyQueue then .ok ()
  else .error .missing

variable (settings) in
/-- The arbiter hands a message to its pump. -/
theorem ArbiterMirrors.message {r : PumpResult ArbiterAgent} {q : Bytes}
    {m : Message} {queueCheck : Except AmqpRpcReply Unit}
    (h : ArbiterMirrors cfg exchange ls s calls u)
    (harrived : (ConnId.arbiter, q, m) ∈ s.delivered)
    (hr : answerEnvelope (arbiterHandler cfg.json amqpArbiterBackend) m.envelope queueCheck
      s.agent = r)
    (hnone : s.arbiterWait = none) (hwait : s'.arbiterWait = none) (hagent : r.after = s'.agent)
    (hreq : s'.requests = s.requests) (hacc : s.accepted <+: s'.accepted) (hgrows : Grows s s')
    (hreplies : RepliesUntilClosed cfg (ls ++ [.pumpArbiter]) s'
      (u.replies ++ r.published.toList)) :
    ∃ ks u', (arbiterCalls cfg.json settings).run u ks = some u' ∧
      ArbiterMirrors cfg exchange (ls ++ [.pumpArbiter]) s' (calls ++ ks) u' := by
  have hstep : (arbiterCalls cfg.json settings).step u (.message ⟨.normal, m.envelope⟩ queueCheck) =
      some { u with agent := r.after, replies := u.replies ++ r.published.toList } := by
    rw [← hr, ← h.agent]
    rfl
  have hpending : s'.arbiterPending = s.arbiterPending := by
    rw [System.arbiterPending, System.arbiterPending, hwait, hnone]
    rfl
  have hcalls : (calls ++ [ArbiterCall.message ⟨.normal, m.envelope⟩ queueCheck]).filterMap
      ArbiterCall.command = calls.filterMap ArbiterCall.command := by
    rw [List.filterMap_append]
    exact List.append_nil _
  refine ⟨[_], _, Machine.run_cons_eq_some.mpr ⟨_, hstep, rfl⟩, hagent, hreplies, ?_, ?_, ?_,
    fun c hc => ?_, fun k hk => ?_⟩
  · rw [hpending, hcalls, List.filterMap_append]
    exact h.commands.trans (List.append_nil _).symm
  · rw [hpending]
    exact h.sent.mono (requestsOf_eq hreq)
  · rw [hcalls]
    exact h.completed.imp fun _ _ hc => hc.mono hgrows hacc
  · rcases List.mem_append.mp hc with hold | hlast
    · exact (h.consumed c hold).mono hgrows
    · obtain rfl := List.mem_singleton.mp hlast
      intro o ho _
      obtain rfl := List.mem_singleton.mp ho
      exact ⟨q, m, hgrows.delivered.subset harrived, rfl⟩
  · rw [hwait] at hk
    cases hk

/-- The arbiter waits in `s'` for the answer to the last command. -/
theorem ArbiterMirrors.waits {k : ℕ} {r : Request ι} (h : ArbiterMirrors cfg exchange ls s calls u)
    (hwait : s'.arbiterWait = some k) (hwaiting : ArbiterWaiting cfg s' k r outcomes)
    (hagent : s'.agent = s.agent) (hreplies : RepliesUntilClosed cfg ls' s' u.replies)
    (hcommands : calls.filterMap ArbiterCall.command ++ [r.command] =
      ls'.filterMap Label.command)
    (hsent : SentInOrder exchange s' .agent u.published (some r))
    (hacc : s.accepted <+: s'.accepted) (hgrows : Grows s s') :
    ArbiterMirrors cfg exchange ls' s' calls u := by
  have hpending : s'.arbiterPending = some r := by
    rw [System.arbiterPending, hwait]
    exact hwaiting.request
  refine ⟨h.agent.trans hagent.symm, hreplies, ?_, ?_,
    h.completed.imp fun _ _ hc => hc.mono hgrows hacc, fun c hc => (h.consumed c hc).mono hgrows,
    fun k' hk' => ?_⟩
  · rw [hpending]
    exact hcommands
  · rw [hpending]
    exact hsent
  · obtain rfl := Option.some.inj (hwait.symm.trans hk')
    exact ⟨r, outcomes, hwaiting⟩

/-! ### User commands -/

/-- The handler of a command has returned. -/
theorem ArbiterMirrors.returned {r : HandlerResult} {completion : ChamgeReturn × Option Bytes}
    (h : ArbiterMirrors cfg exchange ls s calls u)
    (hr : handleCommand cfg.json settings s.agent cmd (commandTrace start outcomes fin) = some r)
    (hwait : s'.arbiterWait = none) (hagent : s'.agent = s.agent)
    (hreplies : RepliesUntilClosed cfg ls' s' u.replies)
    (hcommands : calls.filterMap ArbiterCall.command ++ [(cmd, start)] =
      ls'.filterMap Label.command)
    (hsent : SentInOrder exchange s' .agent (u.published ++ r.published.toList) none)
    (hcompletion : r.completions = [completion]) (hcompletes : Completes s' (cmd, start) completion)
    (hacc : s.accepted <+: s'.accepted) (hgrows : Grows s s')
    (hconsumed : ConsumedBy s' .agent start.rpcPrelude outcomes) :
    ∃ ks u', (arbiterCalls cfg.json settings).run u ks = some u' ∧
      ArbiterMirrors cfg exchange ls' s' (calls ++ ks) u' := by
  have hstep : (arbiterCalls cfg.json settings).step u (.userCommand cmd start outcomes fin) =
      some { u with
        published := u.published ++ r.published.toList
        completions := u.completions ++ r.completions } := by
    rw [← h.agent] at hr
    exact congrArg (Option.map _) hr
  have hpending : s'.arbiterPending = none := by
    rw [System.arbiterPending, hwait]
    rfl
  have hcalls : (calls ++ [ArbiterCall.userCommand cmd start outcomes fin]).filterMap
      ArbiterCall.command =
      calls.filterMap ArbiterCall.command ++ [(cmd, start)] := List.filterMap_append ..
  refine ⟨[.userCommand cmd start outcomes fin], _, Machine.run_cons_eq_some.mpr ⟨_, hstep, rfl⟩,
    h.agent.trans hagent.symm, hreplies, ?_, ?_, ?_, fun c hc => ?_, fun k hk => ?_⟩
  · rw [hpending, hcalls]
    exact (List.append_nil _).trans hcommands
  · rw [hpending]
    exact hsent
  · rw [hcalls, hcompletion]
    exact List.rel_append (h.completed.imp fun _ _ hc => hc.mono hgrows hacc)
      (.cons hcompletes .nil)
  · rcases List.mem_append.mp hc with hold | hlast
    · exact (h.consumed c hold).mono hgrows
    · rw [List.mem_singleton.mp hlast]
      exact hconsumed
  · rw [hwait] at hk
    cases hk

omit [DecidableEq ι] in
theorem ArbiterWaiting.pending {k : ℕ} {r : Request ι} {outcomes : List ConsumeOutcome}
    (h : ArbiterWaiting cfg s k r outcomes) (hk : s.arbiterWait = some k) :
    s.arbiterPending = some r := by
  rw [System.arbiterPending, hk]
  exact h.request

end Chamge
