import Chamge.ArbiterRefinement
import Chamge.HubCommands

/-! A hub among the others does what its node's functions do, the user command included, on
the outcomes that its library calls have. -/

namespace Chamge
open CString JsonGlib

/-! ### One hub -/

/-- The hub's node over its backend, and what its user commands have published and returned. -/
structure HubRun where
  base : DeviceRun
  published : List Publication
  returns : List (ChamgeReturn × Option Bytes)

def HubRun.init (uid : Bytes) : HubRun :=
  { base := .init .hub uid, published := [], returns := [] }

inductive HubCall
  | method (c : BackendCall)
  | userCommand (cmd : Bytes) (start : Start) (outcomes : List ConsumeOutcome) (fin : Finish)

def HubCall.method? : HubCall → Option BackendCall
  | method c => some c
  | userCommand _ _ _ _ => none

/-- The command, and how the calls up to its wait loop come out. -/
def HubCall.command : HubCall → Option (Bytes × Start)
  | method _ => none
  | userCommand cmd start _ _ => some (cmd, start)

/-- `chamge_node_user_command` on a hub, with all that its backend's method leaves. -/
def BackedNode.hubCommand (dcfg : DeviceConfig) (b : BackedNode) (cmd : Bytes)
    (t : CommandTrace) : Option UserCommandResult :=
  if b.node.state ≠ .activated ∨ b.node.backend = none then some ⟨.fail, none, [], none, []⟩
  else chamgeAmqpHubBackendUserCommand dcfg.json dcfg.userCommandSettings cmd t.link t.rpc
    t.outcomes none

theorem hubCommand_returned (dcfg : DeviceConfig) (b : BackedNode) (cmd : Bytes)
    (t : MethodTrace) :
    b.userCommand (amqpBackendClass .hub) dcfg cmd t =
      (b.hubCommand dcfg cmd ⟨t.link, t.rpc, t.outcomes⟩).map fun r => .returned r.ret := by
  unfold BackedNode.userCommand BackedNode.hubCommand
  by_cases hstate : b.node.state = .activated
  · by_cases hbackend : b.node.backend = none
    · simp [amqpBackendClass, hstate, hbackend]
    · simp [amqpBackendClass, hstate, hbackend, chamgeHubBackendUserCommandSend,
        chamgeAmqpHubBackendClass]
  · simp [hstate]

def hubCalls (dcfg : DeviceConfig) : Machine HubRun HubCall where
  step u
    | .method c =>
      ((backendCalls (amqpBackendClass .hub) dcfg).step u.base c).map fun base => { u with base }
    | .userCommand cmd start outcomes fin =>
      if u.base.ended then none
      else (u.base.backed.hubCommand dcfg cmd (commandTrace start outcomes fin)).map fun r =>
        { u with
          published := u.published ++ r.published.toList
          returns := u.returns ++ [(r.ret, r.out)] }

variable {dcfg : DeviceConfig} {u : HubRun} {b : BackedNode} {cmd target cid rq : Bytes}
  {start : Start} {outcomes : List ConsumeOutcome} {fin : Finish} {x : WaitExit}

variable {ι : Type} [DecidableEq ι] {cfg : Config ι} {s t : HubSystem ι} {d e : ι}
  {ls ls' : List (HubLabel ι)} {calls : List HubCall} {channel : Int} {exchange : Bytes}

/-- The command that the hub is given in the step. -/
def HubLabel.command (d : ι) : HubLabel ι → Option (Bytes × Start)
  | .userCommand e cmd start => if e = d then some (cmd, start) else none
  | .base _ | .waitCommand _ _ _ => none

def HubSystem.pendingCommand (s : HubSystem ι) (d : ι) : Option (Request ι) :=
  (s.sending d).bind fun w => s.base.requests[w.request]?

/-- A text that the hub's command returns is of a message that the hub has taken for the answer
to the request that the command has become. -/
def Returns (s : HubSystem ι) (d : ι) (command : Bytes × Start)
    (result : ChamgeReturn × Option Bytes) : Prop :=
  ∀ text, result.2 = some text → ∃ k r m, s.base.requests[k]? = some r ∧ r.caller = .hub d ∧
    r.command = command ∧ (d, k, m) ∈ s.answers ∧ strndup m.body = some text

/-- The messages of a call have been delivered on the connection of its request. -/
def HubCall.Receives (s : System ι) (d : ι) : HubCall → Prop
  | method c => ConsumedBy s (.device d) c.trace.rpc c.trace.outcomes
  | userCommand _ start outcomes _ => ConsumedBy s (.hub d) start.rpcPrelude outcomes

structure CommandWaiting (cfg : Config ι) (s : HubSystem ι) (d : ι) (w : CommandWait)
    (r : Request ι) (outcomes : List ConsumeOutcome) : Prop where
  request : s.base.requests[w.request]? = some r
  caller : r.caller = .hub d
  alive : (s.base.device d).crashed = false
  state : (s.base.device d).node.state = .activated
  backend : (s.base.device d).node.backend ≠ none
  target : getQueueName cfg.json r.body = some r.target
  loop : waitLoop (some 10) r.correlationId 0 outcomes = none
  length : outcomes.length = w.retry
  consumed : Consumed s.base r.conn outcomes

/-- The calls are the hub's methods and, one for one, the commands that it has been given;
what these have published has gone out, and each has returned what has been taken for it. -/
structure HubMirrors (cfg : Config ι) (exchange : Bytes) (ls : List (HubLabel ι))
    (s : HubSystem ι) (d : ι) (calls : List HubCall) (u : HubRun) : Prop where
  base : Mirrors exchange s.base d (calls.filterMap HubCall.method?) u.base
  commands : calls.filterMap HubCall.command ++
    ((s.pendingCommand d).map Request.command).toList = ls.filterMap (HubLabel.command d)
  sent : SentInOrder exchange s.base (.hub d) u.published (s.pendingCommand d)
  returned : List.Forall₂ (Returns s d) (calls.filterMap HubCall.command) u.returns
  consumed : ∀ c ∈ calls, c.Receives s.base d
  waiting : ∀ w, s.sending d = some w → ∃ r outcomes, CommandWaiting cfg s d w r outcomes

omit [DecidableEq ι] in
theorem Returns.mono {command : Bytes × Start} {result : ChamgeReturn × Option Bytes}
    (h : Returns s d command result) (hgrows : Grows s.base t.base)
    (hanswers : s.answers <+: t.answers) : Returns t d command result := by
  intro text htext
  obtain ⟨k, r, m, hr, hcaller, hcommand, hmem, hbody⟩ := h text htext
  exact ⟨k, r, m, getElem?_of_isPrefix hgrows.requests hr, hcaller, hcommand,
    hanswers.subset hmem, hbody⟩

omit [DecidableEq ι] in
theorem HubCall.Receives.mono {s s' : System ι} {c : HubCall} (h : c.Receives s d)
    (hgrows : Grows s s') : c.Receives s' d := by
  cases c <;> exact ConsumedBy.mono h hgrows

/-- The step is none of the hub's own. -/
theorem HubMirrors.mono (h : HubMirrors cfg exchange ls s d calls u)
    (hbase : Mirrors exchange t.base d (calls.filterMap HubCall.method?) u.base)
    (hls : ls'.filterMap (HubLabel.command d) = ls.filterMap (HubLabel.command d))
    (hdev : t.base.device d = s.base.device d) (hsending : t.sending d = s.sending d)
    (hown : t.base.requestsOf (.hub d) = s.base.requestsOf (.hub d))
    (hgrows : Grows s.base t.base) (hanswers : s.answers <+: t.answers) :
    HubMirrors cfg exchange ls' t d calls u := by
  have hpending : t.pendingCommand d = s.pendingCommand d := by
    rw [HubSystem.pendingCommand, HubSystem.pendingCommand, hsending]
    cases hw : s.sending d with
    | none => rfl
    | some w =>
      obtain ⟨r, outcomes, hwait⟩ := h.waiting w hw
      exact (getElem?_of_isPrefix hgrows.requests hwait.request).trans hwait.request.symm
  refine ⟨hbase, ?_, ?_, h.returned.imp fun _ _ hr => hr.mono hgrows hanswers,
    fun c hc => (h.consumed c hc).mono hgrows, fun w hw => ?_⟩
  · rw [hpending, hls]
    exact h.commands
  · rw [hpending]
    exact h.sent.mono hown
  · obtain ⟨r, outcomes, hwait⟩ := h.waiting w (hsending ▸ hw)
    exact ⟨r, outcomes, getElem?_of_isPrefix hgrows.requests hwait.request, hwait.caller,
      hdev ▸ hwait.alive, hdev ▸ hwait.state, hdev ▸ hwait.backend, hwait.target, hwait.loop,
      hwait.length, hwait.consumed.mono hgrows⟩

/-- The hub waits in `t` for the answer to the last command that it has been given. -/
theorem HubMirrors.waits {w : CommandWait} {r : Request ι}
    (h : HubMirrors cfg exchange ls s d calls u)
    (hbase : Mirrors exchange t.base d (calls.filterMap HubCall.method?) u.base)
    (hsending : t.sending d = some w) (hwaiting : CommandWaiting cfg t d w r outcomes)
    (hcommands : calls.filterMap HubCall.command ++ [r.command] =
      ls'.filterMap (HubLabel.command d))
    (hsent : SentInOrder exchange t.base (.hub d) u.published (some r))
    (hgrows : Grows s.base t.base) (hanswers : s.answers <+: t.answers) :
    HubMirrors cfg exchange ls' t d calls u := by
  have hpending : t.pendingCommand d = some r := by
    rw [HubSystem.pendingCommand, hsending]
    exact hwaiting.request
  refine ⟨hbase, ?_, ?_, h.returned.imp fun _ _ hr => hr.mono hgrows hanswers,
    fun c hc => (h.consumed c hc).mono hgrows, fun w' hw' => ?_⟩
  · rw [hpending]
    exact hcommands
  · rw [hpending]
    exact hsent
  · obtain rfl := Option.some.inj (hsending.symm.trans hw')
    exact ⟨r, outcomes, hwaiting⟩

/-- A command of the hub has returned. -/
theorem HubMirrors.completed {r : UserCommandResult} {dcfg : DeviceConfig}
    (h : HubMirrors cfg exchange ls s d calls u)
    (hr : u.base.backed.hubCommand dcfg cmd (commandTrace start outcomes fin) = some r)
    (hended : u.base.ended = false)
    (hbase : Mirrors exchange t.base d (calls.filterMap HubCall.method?) u.base)
    (hcommands : calls.filterMap HubCall.command ++ [(cmd, start)] =
      ls'.filterMap (HubLabel.command d))
    (hsent : SentInOrder exchange t.base (.hub d) (u.published ++ r.published.toList) none)
    (hsending : t.sending d = none) (hreturns : Returns t d (cmd, start) (r.ret, r.out))
    (hgrows : Grows s.base t.base) (hanswers : s.answers <+: t.answers)
    (hconsumed : ConsumedBy t.base (.hub d) start.rpcPrelude outcomes) :
    ∃ ks u', (hubCalls dcfg).run u ks = some u' ∧
      HubMirrors cfg exchange ls' t d (calls ++ ks) u' := by
  have hstep : (hubCalls dcfg).step u (.userCommand cmd start outcomes fin) =
      some { u with
        published := u.published ++ r.published.toList
        returns := u.returns ++ [(r.ret, r.out)] } := by
    simp only [hubCalls, hended, Bool.false_eq_true, if_false, hr, Option.map_some]
  have hpending : t.pendingCommand d = none := by
    rw [HubSystem.pendingCommand, hsending]
    rfl
  have hcalls : (calls ++ [HubCall.userCommand cmd start outcomes fin]).filterMap
      HubCall.command = calls.filterMap HubCall.command ++ [(cmd, start)] :=
    List.filterMap_append ..
  refine ⟨[.userCommand cmd start outcomes fin], _, Machine.run_cons_eq_some.mpr ⟨_, hstep, rfl⟩,
    ?_, ?_, ?_, ?_, fun c hc => ?_, fun w hw => ?_⟩
  · rw [List.filterMap_append]
    exact (List.append_nil (calls.filterMap HubCall.method?)).symm ▸ hbase
  · rw [hpending, hcalls]
    exact (List.append_nil _).trans hcommands
  · rw [hpending]
    exact hsent
  · rw [hcalls]
    exact List.rel_append (h.returned.imp fun _ _ hc => hc.mono hgrows hanswers)
      (.cons hreturns .nil)
  · rcases List.mem_append.mp hc with hold | hlast
    · exact (h.consumed c hold).mono hgrows
    · rw [List.mem_singleton.mp hlast]
      exact hconsumed
  · rw [hsending] at hw
    cases hw

/-! ### The steps of the system -/

section startRequest
variable {base : System ι} {k : Option ℕ} {ms : List BackendCall} {v : DeviceRun}

end startRequest

omit [DecidableEq ι] in
theorem CommandWaiting.pending {w : CommandWait} {r : Request ι} {outcomes : List ConsumeOutcome}
    (h : CommandWaiting cfg s d w r outcomes) (hw : s.sending d = some w) :
    s.pendingCommand d = some r := by
  rw [HubSystem.pendingCommand, hw]
  exact h.request

theorem hubShaped_step {l : HubLabel ι} (h : Shaped cfg s.base)
    (hstep : (hubSystem cfg).step s l = some t) : Shaped cfg t.base := by
  cases l with
  | base l =>
    obtain ⟨-, base, hbase, rfl⟩ := base_cases hstep
    exact shaped_step h hbase
  | userCommand e cmd start =>
    obtain ⟨-, -, -, ⟨rfl, -⟩ | ⟨target, base, k, -, -, -, hstart, rfl⟩⟩ := hubCommand_cases hstep
    · exact h
    · have hopened : Shaped cfg s.openCommand := h.of_eq rfl rfl rfl
      exact startRequest_shaped hopened hstart
  | waitCommand e failed fin =>
    have hframe := (waitCommand_frame hstep).1
    refine h.of_eq ?_ ?_ ?_ <;> rw [hframe]

end Chamge
