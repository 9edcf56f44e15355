import Chamge.BackendClass
import Chamge.Lib.Machine

/-! The calls that go over a connection of their own, the delist of the devices and the user
command of the arbiter and the hub: whether they report their failures, and whether they give
the connection back. -/

namespace Chamge
open CString JsonGlib

/-! ### The senders of user commands -/

inductive CommandSender
  | arbiter
  | hub
  deriving DecidableEq, Repr

def CommandSender.copy : CommandSender → RpcCopy
  | arbiter => .arbiter
  | hub => .hub

structure CommandCall where
  sender : CommandSender
  json : JsonParser
  settings : UserCommandSettings
  cmd : Bytes
  link : LinkOutcomes
  rpc : RpcPrelude
  out : Option Bytes

def CommandCall.args (c : CommandCall) : RpcArgs :=
  ⟨c.settings.channel, c.cmd, some c.settings.exchange, match c.sender with
    | .arbiter => none
    | .hub => getQueueName c.json c.cmd⟩

def CommandCall.run (c : CommandCall) (outcomes : List ConsumeOutcome) :
    Option UserCommandResult :=
  match c.sender with
  | .arbiter => chamgeAmqpArbiterBackendUserCommand c.json c.settings c.cmd c.link c.rpc outcomes
      c.out
  | .hub => chamgeAmqpHubBackendUserCommand c.json c.settings c.cmd c.link c.rpc outcomes c.out

/-- The request gets past the entry checks: a channel, and for the hub a target. -/
def CommandCall.ArgsOk (c : CommandCall) : Prop := c.sender.copy.ArgsOk c.args

def CommandCall.target (c : CommandCall) : Option Bytes := c.sender.copy.target c.json c.args

def CommandCall.Waits (c : CommandCall) : Prop := c.ArgsOk ∧ c.target ≠ none ∧ c.rpc.Passes

/-- The error is set exactly with `CHAMGE_RETURN_FAIL`, and never set a second time. -/
structure ErrorContract (r : UserCommandResult) : Prop where
  set_iff : errorSlot r.errors ≠ none ↔ r.ret = .fail
  once : r.errors.length ≤ 1

/-- Over a connection that opens: a request that is turned away at the entry checks meets a
failure of the closing calls, and one that is awaited is answered or waits for ever. -/
def CommandCall.ReportsErrors (c : CommandCall) (t : Trace ConsumeOutcome) : Prop :=
  c.link.Opens → (¬ c.ArgsOk → ¬ c.link.Closes) ∧
    (c.Waits → KeepsWaiting c.sender.copy.limit c.rpc.correlationId t ∨
      ∃ e, Accepts c.sender.copy.limit c.rpc.correlationId t e)

variable {c : CommandCall} {link : LinkOutcomes} {out : Option Bytes} {os : List ConsumeOutcome}
  {json : JsonParser}

theorem run_eq (c : CommandCall) (os : List ConsumeOutcome) : c.run os =
    overOwnConnection c.link c.out (c.sender.copy.call c.json c.args c.rpc os c.out) := by
  obtain ⟨sender, json, settings, cmd, link, rpc, out⟩ := c
  cases sender <;> rfl

theorem overOwnConnection_opens (h : link.Opens) (exchange : Option RpcResult) :
    overOwnConnection link out exchange = exchange.map (afterExchange link) := by
  obtain ⟨hurl, hsocket, hlogin, hopen⟩ := h
  simp [overOwnConnection, hurl, hsocket, hlogin, hopen]

/-- A connection that does not open is one error, and nobody destroys it. -/
theorem overOwnConnection_closed (h : ¬ link.Opens) (exchange : Option RpcResult) :
    ∃ e, overOwnConnection link out exchange =
      some ⟨.fail, out, [e], none, if link.parseUrl then [.created] else []⟩ := by
  unfold overOwnConnection
  cases hurl : link.parseUrl with
  | false => exact ⟨_, rfl⟩
  | true =>
    simp only [Bool.true_eq_false, if_false, if_true]
    split_ifs with hsocket hlogin
    · exact ⟨_, rfl⟩
    · exact ⟨_, rfl⟩
    · cases hopen : link.channelOpen with
      | error r => exact ⟨_, rfl⟩
      | ok u => exact absurd ⟨hurl, by simpa using hsocket, not_not.mp hlogin, hopen⟩ h

/-! ### The errors -/

theorem rpcExchange_errors {text : AmqpRpcReply → Bytes} {limit : Option ℕ} {args : RpcArgs}
    {target : Bytes} {p : RpcPrelude} {response : Option Bytes} {r : RpcResult}
    (h : rpcExchange text limit args target p os response = some r) : r.errors.length ≤ 1 := by
  unfold rpcExchange at h
  cases hcheck : p.queueCheck <;> simp only [hcheck] at h
  · cases h
    exact le_rfl
  cases hreply : p.replyQueue <;> simp only [hreply] at h
  · cases h
    exact le_rfl
  cases hpublish : p.publish <;> simp only [hpublish] at h
  · cases h
    exact le_rfl
  cases hconsume : p.consume <;> simp only [hconsume] at h
  · cases h
    exact le_rfl
  · obtain ⟨x, -, rfl⟩ := Option.map_eq_some_iff.mp h
    cases x <;> simp [afterWait, WaitExit.errors]

theorem call_errors {copy : RpcCopy} {args : RpcArgs} {p : RpcPrelude} {response : Option Bytes}
    {r : RpcResult} (h : copy.call json args p os response = some r) : r.errors.length ≤ 1 := by
  by_cases hargs : copy.ArgsOk args ∧ copy.target json args ≠ none
  · obtain ⟨target, htarget⟩ := Option.ne_none_iff_exists'.mp hargs.2
    rw [call_of_argsOk hargs.1 htarget] at h
    exact rpcExchange_errors h
  · cases copy with
    | edge | hub =>
      simp only [RpcCopy.call, amqpRpcRequest] at h
      split_ifs at h with hchannel
      · cases h
        exact Nat.zero_le 1
      · cases hname : args.queueName with
        | none =>
          rw [hname] at h
          cases h
          exact Nat.zero_le 1
        | some target =>
          rw [hname] at h
          exact rpcExchange_errors h
    | arbiter =>
      simp only [RpcCopy.call, handleRpcUserCommand] at h
      split_ifs at h with hchannel
      · cases h
        exact Nat.zero_le 1
      · cases hname : getQueueName json args.request with
        | none =>
          rw [hname] at h
          cases h
          exact le_rfl
        | some target =>
          rw [hname] at h
          exact rpcExchange_errors h

theorem closeLink_errors (link : LinkOutcomes) (r : RpcResult) :
    link.Closes ∧ (closeLink link r).errors = r.errors ∨
      ¬ link.Closes ∧ ∃ e, (closeLink link r).errors = r.errors ++ [e] := by
  unfold closeLink LinkOutcomes.Closes
  split_ifs with hchannel hconnection
  · exact Or.inr ⟨fun h => hchannel h.1, _, rfl⟩
  · exact Or.inr ⟨fun h => hconnection h.2.1, _, rfl⟩
  · cases hdestroy : link.destroy with
    | error why => exact Or.inr ⟨by simp, _, rfl⟩
    | ok u => exact Or.inl ⟨⟨not_not.mp hchannel, not_not.mp hconnection, rfl⟩, rfl⟩

/-- What the closing calls make of an exchange that left without the early exit. -/
theorem closeLink_contract_iff {r : RpcResult} (hret : r.ret = .ok ∨ r.ret = .fail) :
    ErrorContract (closeLink link r) ↔
      r.errors = [] ∧ (r.ret = .fail → ¬ link.Closes) ∨
        r.errors.length = 1 ∧ r.ret = .fail ∧ link.Closes := by
  rcases closeLink_errors link r with ⟨hcloses, herrors⟩ | ⟨hfails, e, herrors⟩
  · have hback : (closeLink link r).ret = r.ret := (closeLink_closes hcloses r).1
    constructor
    · intro h
      have hset := h.set_iff
      have honce := h.once
      rw [herrors] at hset honce
      rw [hback] at hset
      rcases hret with hok | hfail
      · refine Or.inl ⟨?_, fun hfail => by simp [hok] at hfail⟩
        simpa [errorSlot, hok] using hset
      · have hne : r.errors ≠ [] := by simpa [errorSlot, hfail] using hset
        have hpos : 0 < r.errors.length := List.length_pos_of_ne_nil hne
        exact Or.inr ⟨Nat.le_antisymm honce hpos, hfail, hcloses⟩
    · rintro (⟨hnil, hclash⟩ | ⟨hone, hfail, -⟩)
      · have hok : r.ret = .ok := hret.resolve_right fun hfail => hclash hfail hcloses
        exact ⟨by simp [herrors, hnil, errorSlot, hback, hok], by simp [herrors, hnil]⟩
      · have hne : r.errors ≠ [] := by
          intro hnil
          simp [hnil] at hone
        exact ⟨by simp [herrors, hne, errorSlot, hback, hfail], by simp [herrors, hone]⟩
  · have hback : (closeLink link r).ret = .fail := (closeLink_fails hfails r).1
    constructor
    · intro h
      have honce := h.once
      rw [herrors, List.length_append, List.length_singleton] at honce
      have hnil : r.errors = [] := List.length_eq_zero_iff.mp (Nat.le_zero.mp
        (Nat.le_of_succ_le_succ honce))
      exact Or.inl ⟨hnil, fun _ => hfails⟩
    · rintro (⟨hnil, -⟩ | ⟨-, -, hcloses⟩)
      · exact ⟨by simp [herrors, hnil, errorSlot, hback], by simp [herrors, hnil]⟩
      · exact absurd hcloses hfails

theorem afterExchange_contract_iff {r : RpcResult} (honce : r.errors.length ≤ 1)
    (hret : r.ret = .ok ∨ r.ret = .fail) : ErrorContract (afterExchange link r) ↔
      if r.ret = .ok then r.errors = [] else r.errors = [] → ¬ link.Closes := by
  by_cases hearly : r.ret ≠ .ok ∧ errorSlot r.errors ≠ none
  · have hfail : r.ret = .fail := hret.resolve_left hearly.1
    have hne : r.errors ≠ [] := by simpa [errorSlot] using hearly.2
    rw [afterExchange, if_pos hearly, if_neg hearly.1]
    refine iff_of_true ⟨?_, honce⟩ fun hnil => absurd hnil hne
    exact iff_of_true hearly.2 hfail
  · rw [afterExchange, if_neg hearly, closeLink_contract_iff hret]
    rcases hret with hok | hfail
    · simp [hok]
    · have hnil : r.errors = [] := by simpa [hfail, errorSlot] using hearly
      simp [hfail, hnil]

/-- For every command, connection and trace: the returns of a sender keep the error contract
exactly under `ReportsErrors`. -/
theorem errors_reported_iff (c : CommandCall) (t : Trace ConsumeOutcome) :
    (∀ r, t.Returns c.run r → ErrorContract r) ↔ c.ReportsErrors t := by
  have hrun : c.run = fun os =>
      overOwnConnection c.link c.out (c.sender.copy.call c.json c.args c.rpc os c.out) :=
    funext (run_eq c)
  rw [hrun, CommandCall.ReportsErrors]
  by_cases hopens : c.link.Opens
  · simp only [overOwnConnection_opens hopens, returns_map, forall_exists_index, and_imp,
      hopens, forall_const]
    by_cases hwait : c.Waits
    · obtain ⟨hargs, htarget, hpasses⟩ := hwait
      obtain ⟨m, hm⟩ := call_waits c.sender.copy c.json c.args c.out hargs htarget hpasses
      have hwaits : c.Waits := ⟨hargs, htarget, hpasses⟩
      simp only [hm, returns_map, hargs, not_true, false_implies, true_and, hwaits,
        forall_const]
      have hcontract (x : WaitExit) :
          ErrorContract (afterExchange c.link (afterWait c.sender.copy.text c.out m x)) ↔
            ∃ e, x = .reply e := by
        have honce : (afterWait c.sender.copy.text c.out m x).errors.length ≤ 1 := by
          cases x <;> simp [afterWait, WaitExit.errors]
        rw [afterExchange_contract_iff honce (Or.inl rfl)]
        cases x <;> simp [afterWait, WaitExit.errors]
      constructor
      · intro h
        by_cases hkeeps : KeepsWaiting c.sender.copy.limit c.rpc.correlationId t
        · exact Or.inl hkeeps
        simp only [keepsWaiting_iff, not_forall, not_not] at hkeeps
        obtain ⟨x, hx⟩ := hkeeps
        obtain ⟨e, rfl⟩ := (hcontract x).mp (h _ _ ⟨x, hx, rfl⟩ rfl)
        exact Or.inr ⟨e, returns_reply_iff.mp hx⟩
      · rintro (hkeeps | ⟨e, he⟩) r b ⟨x, hx, rfl⟩ rfl
        · exact absurd hx (keepsWaiting_iff.mp hkeeps x)
        · have hreply := waitLoop_returns_unique hx (returns_reply_iff.mpr he)
          exact (hcontract x).mpr ⟨e, hreply⟩
    · obtain ⟨r, hr, hfail, -, herror⟩ :=
        call_refused c.sender.copy c.json c.args c.rpc c.out hwait
      have honce : r.errors.length ≤ 1 := call_errors (hr [])
      have hcontract : ErrorContract (afterExchange c.link r) ↔
          (¬ c.ArgsOk → ¬ c.link.Closes) := by
        have hnil : r.errors = [] ↔ ¬ c.ArgsOk := by
          rw [CommandCall.ArgsOk, ← herror]
          simp [errorSlot]
        rw [afterExchange_contract_iff honce (Or.inr hfail), if_neg (by simp [hfail]), hnil]
      simp only [hwait, false_implies, and_true, ← hcontract]
      constructor
      · exact fun h => h _ r ⟨0, hr _⟩ rfl
      · rintro h _ b ⟨n, hn⟩ rfl
        obtain rfl : r = b := Option.some.inj ((hr _).symm.trans hn)
        exact h
  · refine iff_of_true ?_ fun h => absurd h hopens
    rintro r ⟨n, hn⟩
    obtain ⟨e, he⟩ := @overOwnConnection_closed _ c.out hopens
      (c.sender.copy.call c.json c.args c.rpc (t.take n) c.out)
    obtain rfl := Option.some.inj (he.symm.trans hn)
    exact ⟨by simp [errorSlot], le_rfl⟩

/-- The hub sends a command without a target. -/
def untargeted : CommandCall :=
  { sender := .hub, json := ⟨fun _ => .error []⟩, settings := ⟨1, cstr "amq.direct"⟩,
    cmd := cstr "streamingStart", link := workingLink, rpc := openPrelude, out := none }

/-- It fails without an error, where the arbiter's copy sets one. -/
theorem untargeted_not_reported :
    ¬ ∀ r, (Trace.finite []).Returns untargeted.run r → ErrorContract r := by
  intro h
  have hcontract := h ⟨.fail, none, [], none, [.created, .destroyed]⟩ ⟨0, rfl⟩
  exact hcontract.set_iff.mpr rfl rfl

/-! ### The connections -/

/-- The connection objects of the delist's closing calls; the last one frees the object also
where it reports a failure. -/
def closeDelistConnections (link : LinkOutcomes) : List ConnectionEvent :=
  if link.channelClose ≠ .normal then [.created]
  else if link.connectionClose ≠ .normal then [.created]
  else [.created, .destroyed]

/-- The delist together with the connection objects that it makes and releases. -/
def amqpBackendDelistOver (type : DeviceType) (cfg : DeviceConfig) (b : AmqpBackend)
    (t : MethodTrace) : Option (MethodResult × List ConnectionEvent) :=
  let failed (connections : List ConnectionEvent) :
      Option (MethodResult × List ConnectionEvent) :=
    some (⟨.returned .fail, none, b⟩, connections)
  if t.link.parseUrl = false then failed []
  else if t.link.socketOpen = false then failed [.created]
  else if t.link.login ≠ .normal then failed [.created]
  else match t.link.channelOpen with
    | .error _ => failed [.created]
    | .ok () =>
      (askArbiter type cfg .delist t).map fun (ending, published) =>
        if ending ≠ .returned .ok then (⟨ending, published, b⟩, [.created])
        else (⟨.returned (closeDelistLink t.link), published, b⟩, closeDelistConnections t.link)

theorem amqpBackendDelistOver_fst (type : DeviceType) (cfg : DeviceConfig) (b : AmqpBackend)
    (t : MethodTrace) :
    (amqpBackendDelistOver type cfg b t).map Prod.fst = amqpBackendDelist type cfg b t := by
  unfold amqpBackendDelistOver amqpBackendDelist
  split_ifs
  · rfl
  · rfl
  · rfl
  · cases t.link.channelOpen with
    | error r => rfl
    | ok u =>
      rw [Option.map_map]
      congr 1
      funext x
      simp only [Function.comp_apply]
      split_ifs <;> rfl

/-- A call of one of the operations that open their own connection, with all its outcomes. -/
inductive OwnConnectionCall
  | delist (type : DeviceType) (cfg : DeviceConfig) (b : AmqpBackend) (t : MethodTrace)
  | userCommand (c : CommandCall) (outcomes : List ConsumeOutcome)

/-- The connection objects of a call that returns. -/
def OwnConnectionCall.connections : OwnConnectionCall → Option (List ConnectionEvent)
  | delist type cfg b t => (amqpBackendDelistOver type cfg b t).bind fun (r, connections) =>
    match r.ending with
    | .returned _ => some connections
    | .ended _ => none
  | userCommand c outcomes => (c.run outcomes).map UserCommandResult.connections

def ConnectionEvent.count (n : ℕ) : ConnectionEvent → ℕ
  | created => n + 1
  | destroyed => n - 1

/-- The number of open connections over calls that return. -/
def ownConnections : Machine ℕ OwnConnectionCall where
  step n call := call.connections.map fun events => events.foldl ConnectionEvent.count n

/-- The address is not even read, or the call gets to its closing calls, of which those before
the last one succeed. -/
def OwnConnectionCall.Releases : OwnConnectionCall → Prop
  | delist _ cfg _ t => t.link.parseUrl = false ∨
    (cfg.settings.channel ≠ 0 ∧ t.Granted cfg .delist) ∧
      t.link.channelClose = .normal ∧ t.link.connectionClose = .normal
  | userCommand c _ => c.link.parseUrl = false ∨
    (c.link.Opens ∧ (c.ArgsOk → c.Waits)) ∧
      c.link.channelClose = .normal ∧ c.link.connectionClose = .normal

/-- What a call leaves behind: nothing where `P` holds, and otherwise its connection. -/
inductive Leaves (P : Prop) : List ConnectionEvent → Prop
  | untouched (h : P) : Leaves P []
  | released (h : P) : Leaves P [.created, .destroyed]
  | leaked (h : ¬ P) : Leaves P [.created]

theorem Leaves.count_iff {P : Prop} {events : List ConnectionEvent} (h : Leaves P events)
    (n : ℕ) : events.foldl ConnectionEvent.count n = n ↔ P := by
  cases h with
  | untouched h => exact iff_of_true rfl h
  | released h => exact iff_of_true rfl h
  | leaked h => exact iff_of_false (Nat.succ_ne_self n) h

theorem closing_leaves (link : LinkOutcomes) :
    Leaves (link.channelClose = .normal ∧ link.connectionClose = .normal)
      (closeDelistConnections link) := by
  unfold closeDelistConnections
  split_ifs with hchannel hconnection
  · exact .leaked fun h => hchannel h.1
  · exact .leaked fun h => hconnection h.2
  · exact .released ⟨not_not.mp hchannel, not_not.mp hconnection⟩

theorem closeLink_connections (link : LinkOutcomes) (r : RpcResult) :
    (closeLink link r).connections = closeDelistConnections link := by
  unfold closeLink closeDelistConnections
  split_ifs
  · rfl
  · rfl
  · cases link.destroy <;> rfl

/-- The early exit of an exchange that has set its error is the one that keeps a connection. -/
theorem command_leaves {r : UserCommandResult} (h : c.run os = some r) :
    Leaves (OwnConnectionCall.userCommand c os).Releases r.connections := by
  rw [run_eq] at h
  simp only [OwnConnectionCall.Releases]
  by_cases hopens : c.link.Opens
  · rw [overOwnConnection_opens hopens] at h
    obtain ⟨x, hx, rfl⟩ := Option.map_eq_some_iff.mp h
    simp only [hopens.1, Bool.true_eq_false, hopens, true_and, false_or]
    by_cases hgoes : c.ArgsOk → c.Waits
    · have hlate : ¬ (x.ret ≠ .ok ∧ errorSlot x.errors ≠ none) := by
        rintro ⟨hret, herror⟩
        by_cases hwait : c.Waits
        · obtain ⟨m, hm⟩ := call_waits c.sender.copy c.json c.args c.out hwait.1 hwait.2.1 hwait.2.2
          rw [hm] at hx
          obtain ⟨e, -, rfl⟩ := Option.map_eq_some_iff.mp hx
          exact hret rfl
        · obtain ⟨y, hy, -, -, hset⟩ :=
            call_refused c.sender.copy c.json c.args c.rpc c.out hwait
          obtain rfl := Option.some.inj ((hy os).symm.trans hx)
          exact hwait (hgoes (hset.mp herror))
      rw [afterExchange, if_neg hlate, closeLink_connections, and_iff_right hgoes]
      exact closing_leaves c.link
    · rw [Classical.not_imp] at hgoes
      obtain ⟨y, hy, hret, -, hset⟩ :=
        call_refused c.sender.copy c.json c.args c.rpc c.out hgoes.2
      obtain rfl := Option.some.inj ((hy os).symm.trans hx)
      rw [afterExchange, if_pos ⟨by simp [hret], hset.mpr hgoes.1⟩]
      exact .leaked fun hreleases => hgoes.2 (hreleases.1 hgoes.1)
  · obtain ⟨e, he⟩ := @overOwnConnection_closed _ c.out hopens
      (c.sender.copy.call c.json c.args c.rpc os c.out)
    obtain rfl := Option.some.inj (he.symm.trans h)
    cases hurl : c.link.parseUrl with
    | false => exact .untouched (Or.inl rfl)
    | true => exact .leaked (by simp [hopens])

variable {type : DeviceType} {cfg : DeviceConfig} {b : AmqpBackend} {t : MethodTrace}

theorem askArbiter_ok_iff {m : BackendMethod} {ending : CallEnd ChamgeReturn}
    {published : Option Publication} (hopens : t.link.Opens)
    (h : askArbiter type cfg m t = some (ending, published)) :
    ending = .returned .ok ↔ cfg.settings.channel ≠ 0 ∧ t.Granted cfg m := by
  rw [askArbiter_obtains_iff h]
  constructor
  · rintro ⟨hwait, hanswered⟩
    exact ⟨hwait.1, hopens, hwait.2, hanswered⟩
  · rintro ⟨hchannel, hgranted⟩
    exact ⟨⟨hchannel, hgranted.passes⟩, hgranted.answered⟩

theorem delist_leaves {r : MethodResult} {events : List ConnectionEvent}
    (h : amqpBackendDelistOver type cfg b t = some (r, events)) :
    Leaves (OwnConnectionCall.delist type cfg b t).Releases events := by
  simp only [OwnConnectionCall.Releases]
  unfold amqpBackendDelistOver at h
  split_ifs at h with hurl hsocket hlogin
  · obtain ⟨-, rfl⟩ := Prod.mk.inj (Option.some.inj h)
    exact .untouched (Or.inl hurl)
  · obtain ⟨-, rfl⟩ := Prod.mk.inj (Option.some.inj h)
    refine .leaked fun hreleases => ?_
    have hgranted := (hreleases.resolve_left hurl).1.2
    simp [hgranted.opens.2.1] at hsocket
  · obtain ⟨-, rfl⟩ := Prod.mk.inj (Option.some.inj h)
    refine .leaked fun hreleases => ?_
    have hgranted := (hreleases.resolve_left hurl).1.2
    exact hlogin hgranted.opens.2.2.1
  · cases hopen : t.link.channelOpen with
    | error e =>
      rw [hopen] at h
      obtain ⟨-, rfl⟩ := Prod.mk.inj (Option.some.inj h)
      refine .leaked fun hreleases => ?_
      have hgranted := (hreleases.resolve_left hurl).1.2
      cases hopen.symm.trans hgranted.opens.2.2.2
    | ok u =>
      have hopens : t.link.Opens :=
        ⟨Bool.not_eq_false _ ▸ hurl, Bool.not_eq_false _ ▸ hsocket, not_not.mp hlogin, hopen⟩
      rw [hopen] at h
      obtain ⟨⟨ending, published⟩, hask, heq⟩ := Option.map_eq_some_iff.mp h
      have hok := askArbiter_ok_iff hopens hask
      simp only [hopens.1, Bool.true_eq_false, false_or]
      by_cases hending : ending = .returned .ok
      · simp only [hending, ne_eq, not_true, if_false] at heq
        obtain ⟨-, rfl⟩ := Prod.mk.inj heq
        simpa only [hok.mp hending, ne_eq, not_false_eq_true, and_self, true_and] using
          closing_leaves t.link
      · simp only [hending, ne_eq, not_false_eq_true, if_true] at heq
        obtain ⟨-, rfl⟩ := Prod.mk.inj heq
        exact .leaked fun hreleases => hending (hok.mpr hreleases.1)

theorem connections_leaves {call : OwnConnectionCall} {events : List ConnectionEvent}
    (h : call.connections = some events) : Leaves call.Releases events := by
  cases call with
  | delist type cfg b t =>
    obtain ⟨⟨r, connections⟩, hr, hend⟩ := Option.bind_eq_some_iff.mp h
    cases hending : r.ending with
    | ended cause =>
      simp only [hending] at hend
      cases hend
    | returned ret =>
      simp only [hending, Option.some.injEq] at hend
      exact hend ▸ delist_leaves hr
  | userCommand c os =>
    obtain ⟨r, hr, rfl⟩ := Option.map_eq_some_iff.mp h
    exact command_leaves hr

/-- Over any number of calls that return, the number of open connections stays what it was
exactly when every call releases its own. -/
theorem connections_released_iff (n : ℕ) (calls : List OwnConnectionCall) :
    ownConnections.Always (· = n) n calls ↔
      ownConnections.Along (fun _ call => call.Releases) n calls := by
  apply Machine.always_iff_along_of (I := (· = n))
  · rintro m call k rfl hreleases hstep
    obtain ⟨events, hevents, rfl⟩ := Option.map_eq_some_iff.mp hstep
    exact ((connections_leaves hevents).count_iff m).mpr hreleases
  · exact fun m hm => hm
  · rintro m call k rfl hstep rfl
    obtain ⟨events, hevents, hcount⟩ := Option.map_eq_some_iff.mp hstep
    exact ((connections_leaves hevents).count_iff k).mp hcount
  · rfl

/-- A user command to a broker that refuses the socket. -/
def refusedSocket : CommandCall :=
  { sender := .arbiter, json := ⟨fun _ => .error []⟩, settings := ⟨1, cstr "amq.direct"⟩,
    cmd := [], link := { workingLink with socketOpen := false }, rpc := openPrelude, out := none }

/-- It returns with one connection object more than before. -/
theorem refused_socket_leaks :
    ¬ ownConnections.Always (· = 0) 0 [.userCommand refusedSocket []] := by
  intro h
  have hopen := h.2 1 rfl
  cases hopen

end Chamge
