import Chamge.Device
import Chamge.Lib.JsonText
import Chamge.UserCommandContract

/-! The lifecycle methods of the AMQP backends of the edge and the hub, from the login to
the closing calls, over traces of what the library calls come to. -/

namespace Chamge
open CString JsonGlib

structure AmqpSettings where
  channel : Int
  enrollQueueName : Bytes
  enrollExchangeName : Bytes

structure SubscribeOutcomes where
  declareQueue : Except AmqpRpcReply Bytes
  bind : Except AmqpRpcReply Unit
  consume : Except AmqpRpcReply Unit

/-- The outcomes of the library calls of one method. `socketClosed` is whether the library
itself has closed the socket by the return, as it does on some of its exceptions. -/
structure MethodTrace where
  link : LinkOutcomes
  rpc : RpcPrelude
  outcomes : List ConsumeOutcome
  subscribe : SubscribeOutcomes
  socketClosed : Bool

/-- What ends the process in the middle of a call: a `NULL` that is read as a string, a
`g_error`, a class method that is not there. -/
inductive ProcessEnd
  | nullString
  | fatalError
  | unsetMethod
  deriving DecidableEq, Repr

inductive CallEnd (ρ : Type)
  | returned (ret : ρ)
  | ended (cause : ProcessEnd)
  deriving DecidableEq, Repr

/-- The fields of a backend object; the socket is the one of its own connection. -/
structure AmqpBackend where
  socketOpen : Bool
  activated : Bool
  source : Bool
  deriving DecidableEq

def AmqpBackend.new : AmqpBackend := { socketOpen := false, activated := false, source := false }

structure MethodResult where
  ending : CallEnd ChamgeReturn
  published : Option Publication
  backend : AmqpBackend
  deriving DecidableEq

/-! ### The connection -/

structure LoginResult where
  ret : ChamgeReturn
  errors : List GError
  socketOpen : Bool

/-- `_amqp_rpc_login`. A socket that is in use cannot be opened again, and one that has been
opened is left so by the failures after it. -/
def amqpRpcLogin (channel : Int) (inUse : Bool) (link : LinkOutcomes) : LoginResult :=
  if channel = 0 then ⟨.fail, [], inUse⟩
  else if link.parseUrl = false then
    ⟨.fail, [backendError .invalidParameter (cstr "url pasring failure")], inUse⟩
  else if inUse ∨ link.socketOpen = false then
    ⟨.fail, [operationFailure (cstr "socket open failure")], inUse⟩
  else if link.login ≠ .normal then
    ⟨.fail, [operationFailure (cstr "login failure >> " ++ amqpRpcReplyString link.login)], true⟩
  else match link.channelOpen with
    | .error r =>
      ⟨.fail, [operationFailure (cstr "channel open failure >> " ++ amqpRpcReplyString r)], true⟩
    | .ok () => ⟨.ok, [], true⟩

/-- `_amqp_rpc_subscribe` on the queue of the uid. -/
def amqpRpcSubscribe (channel : Int) (queueName : Bytes) (t : SubscribeOutcomes) :
    ChamgeReturn × List GError :=
  let failed (message : Bytes) : ChamgeReturn × List GError :=
    (.fail, [operationFailure message])
  if channel = 0 then (.fail, [])
  else match t.declareQueue with
    | .error r => failed (cstr "declare queue failure >> " ++ amqpRpcReplyString r)
    | .ok name =>
      if name ≠ queueName then
        failed (cstr "declare required queue name (" ++ queueName ++
          cstr ") != declared queue name (" ++ name ++ cstr ")")
      else match t.bind with
        | .error r => failed (cstr "queue bind failure >> " ++ amqpRpcReplyString r)
        | .ok () => match t.consume with
          | .error r => failed (cstr "basic consume failure >> " ++ amqpRpcReplyString r)
          | .ok () => (.ok, [])

/-- The closing calls of the delist's own connection. -/
def closeDelistLink (link : LinkOutcomes) : ChamgeReturn :=
  if link.channelClose ≠ .normal then .fail
  else if link.connectionClose ≠ .normal then .fail
  else match link.destroy with
    | .error _ => .fail
    | .ok () => .ok

/-! ### The methods -/

/-- What a backend reads besides its own fields. -/
structure DeviceConfig where
  json : JsonParser
  settings : AmqpSettings
  uid : Bytes

def requestArgs (type : DeviceType) (cfg : DeviceConfig) (m : BackendMethod) : RpcArgs :=
  ⟨cfg.settings.channel, requestBody type m cfg.uid, some cfg.settings.enrollExchangeName,
    some cfg.settings.enrollQueueName⟩

/-- The request of a method, and what the method makes of its response. -/
def askArbiter (type : DeviceType) (cfg : DeviceConfig) (m : BackendMethod) (t : MethodTrace) :
    Option (CallEnd ChamgeReturn × Option Publication) :=
  (amqpRpcRequest (requestArgs type cfg m) t.rpc t.outcomes none).map fun r =>
    if r.ret ≠ .ok then (.returned .fail, r.published)
    else match type.validate cfg.json r.response m.shouldbe with
      | none => (.ended .nullString, r.published)
      | some ret => (.returned ret, r.published)

abbrev BackendImpl := DeviceConfig → AmqpBackend → MethodTrace → Option MethodResult

def amqpBackendEnroll (type : DeviceType) : BackendImpl := fun cfg b t =>
  let login := amqpRpcLogin cfg.settings.channel b.socketOpen t.link
  -- the library closes no socket that it has not opened in this attempt
  let b := { b with socketOpen := login.socketOpen && (b.socketOpen || !t.socketClosed) }
  if login.ret ≠ .ok then some ⟨.returned .fail, none, b⟩
  else (askArbiter type cfg .enroll t).map fun (ending, published) => ⟨ending, published, b⟩

def amqpBackendActivate (type : DeviceType) : BackendImpl := fun cfg b t =>
  let b := { b with socketOpen := b.socketOpen && !t.socketClosed }
  (askArbiter type cfg .activate t).map fun (ending, published) =>
    if ending ≠ .returned .ok then ⟨ending, published, b⟩
    else if (amqpRpcSubscribe cfg.settings.channel cfg.uid t.subscribe).1 = .fail then
      ⟨.returned .fail, published, { b with activated := true }⟩
    else ⟨.returned .ok, published, { b with activated := true, source := true }⟩

def amqpBackendDeactivate : BackendImpl := fun _ b _ =>
  some ⟨.returned .ok, none, { b with source := false }⟩

/-- The delist request goes over a connection made for it. -/
def amqpBackendDelist (type : DeviceType) : BackendImpl := fun cfg b t =>
  let failed : Option MethodResult := some ⟨.returned .fail, none, b⟩
  if t.link.parseUrl = false then failed
  else if t.link.socketOpen = false then failed
  else if t.link.login ≠ .normal then failed
  else match t.link.channelOpen with
    | .error _ => failed
    | .ok () =>
      (askArbiter type cfg .delist t).map fun (ending, published) =>
        if ending ≠ .returned .ok then ⟨ending, published, b⟩
        else ⟨.returned (closeDelistLink t.link), published, b⟩

def chamgeAmqpEdgeBackendEnroll : BackendImpl := amqpBackendEnroll .edge
def chamgeAmqpEdgeBackendDelist : BackendImpl := amqpBackendDelist .edge
def chamgeAmqpEdgeBackendActivate : BackendImpl := amqpBackendActivate .edge
def chamgeAmqpEdgeBackendDeactivate : BackendImpl := amqpBackendDeactivate

def chamgeAmqpHubBackendEnroll : BackendImpl := amqpBackendEnroll .hub
def chamgeAmqpHubBackendDelist : BackendImpl := amqpBackendDelist .hub
def chamgeAmqpHubBackendActivate : BackendImpl := amqpBackendActivate .hub
def chamgeAmqpHubBackendDeactivate : BackendImpl := amqpBackendDeactivate

def amqpBackendMethod : DeviceType → BackendMethod → BackendImpl
  | .edge, .enroll => chamgeAmqpEdgeBackendEnroll
  | .edge, .delist => chamgeAmqpEdgeBackendDelist
  | .edge, .activate => chamgeAmqpEdgeBackendActivate
  | .edge, .deactivate => chamgeAmqpEdgeBackendDeactivate
  | .hub, .enroll => chamgeAmqpHubBackendEnroll
  | .hub, .delist => chamgeAmqpHubBackendDelist
  | .hub, .activate => chamgeAmqpHubBackendActivate
  | .hub, .deactivate => chamgeAmqpHubBackendDeactivate

/-! ### What the calls of a method come to -/

/-- The request gets to its wait loop. -/
def AwaitsReply (cfg : DeviceConfig) (t : MethodTrace) : Prop :=
  cfg.settings.channel ≠ 0 ∧ t.rpc.Passes

/-- How the wait loop is left, if it is. -/
def MethodTrace.exit (t : MethodTrace) : Option WaitExit :=
  waitLoop (some 10) t.rpc.correlationId 0 t.outcomes

def WaitExit.response : WaitExit → Option Bytes
  | .reply e => strndup e.body
  | .tooMany | .timeout | .failure _ => none

def judge (type : DeviceType) (json : JsonParser) (m : BackendMethod) (x : WaitExit) :
    CallEnd ChamgeReturn :=
  match type.validate json x.response m.shouldbe with
  | none => .ended .nullString
  | some ret => .returned ret

/-- The calls up to the response succeed, and the response is the expected one. -/
structure MethodTrace.Granted (cfg : DeviceConfig) (m : BackendMethod) (t : MethodTrace) :
    Prop where
  opens : t.link.Opens
  passes : t.rpc.Passes
  answered : ∃ e, t.exit = some (.reply e) ∧ e.body ≠ [] ∧
    validateResponse cfg.json (text e.body) m.shouldbe = .ok

/-- All calls of a method succeed. The broker names a queue as it is declared; for an empty
name it chooses one. -/
structure MethodTrace.Succeeds (cfg : DeviceConfig) (m : BackendMethod) (t : MethodTrace) :
    Prop extends t.Granted cfg m where
  closes : t.link.Closes
  declared : ∃ name, t.subscribe.declareQueue = .ok name ∧ name ≠ [] ∧
    (cfg.uid ≠ [] → name = cfg.uid)
  bound : t.subscribe.bind = .ok ()
  consumed : t.subscribe.consume = .ok ()

/-- The request is sent, and the expected answer comes back. -/
def MethodTrace.Obtains (cfg : DeviceConfig) (m : BackendMethod) (t : MethodTrace) : Prop :=
  AwaitsReply cfg t ∧ ∃ e, t.exit = some (.reply e) ∧ e.body ≠ [] ∧
    validateResponse cfg.json (text e.body) m.shouldbe = .ok

/-- The subscription on the queue of the uid goes through. -/
def Subscribes (cfg : DeviceConfig) (s : SubscribeOutcomes) : Prop :=
  cfg.settings.channel ≠ 0 ∧ s.declareQueue = .ok cfg.uid ∧ s.bind = .ok () ∧
    s.consume = .ok ()

variable {type : DeviceType} {cfg : DeviceConfig} {m : BackendMethod} {t : MethodTrace}
  {link : LinkOutcomes}

/-- How far a login gets: not to an open socket of its own, to one but no further, or to
the open channel. -/
inductive LoginCase (channel : Int) (inUse : Bool) (link : LinkOutcomes) : LoginResult → Prop
  | refused {errors : List GError} (h : channel = 0 ∨ link.parseUrl = false ∨ inUse = true ∨
      link.socketOpen = false) : LoginCase channel inUse link ⟨.fail, errors, inUse⟩
  | opened {errors : List GError} (hchannel : channel ≠ 0) (hurl : link.parseUrl = true)
    (hfree : inUse = false) (hsocket : link.socketOpen = true) (h : ¬ link.Opens) :
    LoginCase channel inUse link ⟨.fail, errors, true⟩
  | ok (hchannel : channel ≠ 0) (hfree : inUse = false) (h : link.Opens) :
    LoginCase channel inUse link ⟨.ok, [], true⟩

theorem amqpRpcLogin_cases (channel : Int) (inUse : Bool) (link : LinkOutcomes) :
    LoginCase channel inUse link (amqpRpcLogin channel inUse link) := by
  unfold amqpRpcLogin
  split_ifs with hchannel hurl hsocket hlogin
  · exact .refused (Or.inl hchannel)
  · exact .refused (Or.inr (Or.inl hurl))
  · exact .refused (Or.inr (Or.inr hsocket))
  · rw [not_or, Bool.not_eq_true, Bool.not_eq_false] at hsocket
    exact .opened hchannel (Bool.not_eq_false _ ▸ hurl) hsocket.1 hsocket.2
      fun h => hlogin h.2.2.1
  · rw [not_or, Bool.not_eq_true, Bool.not_eq_false] at hsocket
    rw [Bool.not_eq_false] at hurl
    rw [ne_eq, not_not] at hlogin
    cases hopen : link.channelOpen with
    | error r =>
      refine .opened hchannel hurl hsocket.1 hsocket.2 fun h => ?_
      have hclash := hopen.symm.trans h.2.2.2
      cases hclash
    | ok u => exact .ok hchannel hsocket.1 ⟨hurl, hsocket.2, hlogin, hopen⟩

theorem amqpRpcLogin_ok_iff {channel : Int} {inUse : Bool} :
    (amqpRpcLogin channel inUse link).ret = .ok ↔
      channel ≠ 0 ∧ inUse = false ∧ link.Opens := by
  have hcases := amqpRpcLogin_cases channel inUse link
  generalize amqpRpcLogin channel inUse link = login at hcases ⊢
  cases hcases with
  | refused h =>
    refine iff_of_false (by simp) ?_
    rintro ⟨hchannel, hfree, hurl, hsocket, -⟩
    simp [hchannel, hfree, hurl, hsocket] at h
  | opened hchannel hurl hfree hsocket h => exact iff_of_false (by simp) fun hok => h hok.2.2
  | ok hchannel hfree h => exact iff_of_true rfl ⟨hchannel, hfree, h⟩

/-- Once the address is read and the socket opens, it is open whatever comes after. -/
theorem amqpRpcLogin_socketOpen {channel : Int} {inUse : Bool} (hchannel : channel ≠ 0) :
    (amqpRpcLogin channel inUse link).socketOpen =
      (inUse || link.parseUrl && link.socketOpen) := by
  have hcases := amqpRpcLogin_cases channel inUse link
  generalize amqpRpcLogin channel inUse link = login at hcases ⊢
  cases hcases with
  | refused h =>
    rcases h with h | h | h | h
    · exact absurd h hchannel
    · simp [h]
    · simp [h]
    · simp [h]
  | opened _ hurl _ hsocket => simp [hurl, hsocket]
  | ok _ _ h => simp [h.1, h.2.1]

theorem closeDelistLink_eq (link : LinkOutcomes) :
    closeDelistLink link = .ok ∧ link.Closes ∨ closeDelistLink link = .fail ∧ ¬ link.Closes := by
  unfold closeDelistLink LinkOutcomes.Closes
  cases hdestroy : link.destroy <;> split_ifs <;> simp_all

theorem amqpRpcSubscribe_ok {channel : Int} {s : SubscribeOutcomes} {queueName : Bytes}
    (hchannel : channel ≠ 0) (hdeclare : s.declareQueue = .ok queueName)
    (hbind : s.bind = .ok ()) (hconsume : s.consume = .ok ()) :
    amqpRpcSubscribe channel queueName s = (.ok, []) := by
  simp only [amqpRpcSubscribe, if_neg hchannel, hdeclare, ne_eq, not_true, if_false, hbind,
    hconsume]

theorem askArbiter_refused (h : ¬ AwaitsReply cfg t) :
    ∃ published, askArbiter type cfg m t = some (.returned .fail, published) := by
  obtain ⟨r, hr, hret, -⟩ := call_refused .edge cfg.json (requestArgs type cfg m) t.rpc none
    fun hcall => h ⟨hcall.1.1, hcall.2.2⟩
  have hrequest : amqpRpcRequest (requestArgs type cfg m) t.rpc t.outcomes none = some r :=
    hr t.outcomes
  refine ⟨r.published, ?_⟩
  rw [askArbiter, hrequest, Option.map_some, if_pos (by simp [hret])]

theorem askArbiter_waits (type : DeviceType) (m : BackendMethod) (h : AwaitsReply cfg t) :
    ∃ published, askArbiter type cfg m t =
      t.exit.map fun x => (judge type cfg.json m x, published) := by
  have hargs : RpcCopy.edge.ArgsOk (requestArgs type cfg m) :=
    ⟨h.1, Or.inr (Option.some_ne_none _)⟩
  obtain ⟨p, hp⟩ := call_waits .edge cfg.json (requestArgs type cfg m) none hargs
    (Option.some_ne_none _) h.2
  have hrequest : amqpRpcRequest (requestArgs type cfg m) t.rpc t.outcomes none =
    t.exit.map (afterWait amqpRpcReplyString none p) := hp t.outcomes
  refine ⟨some p, ?_⟩
  rw [askArbiter, hrequest, Option.map_map]
  congr 1
  funext x
  have hresponse : (afterWait amqpRpcReplyString none p x).response = x.response := by
    cases x <;> rfl
  have hret : (afterWait amqpRpcReplyString none p x).ret = .ok := rfl
  simp only [Function.comp_apply, hret, ne_eq, not_true, if_false, hresponse, judge]
  cases type.validate cfg.json x.response m.shouldbe <;> rfl

theorem judge_reply {e : AmqpEnvelope} (he : e.body ≠ []) :
    judge type cfg.json m (.reply e) =
      .returned (validateResponse cfg.json (text e.body) m.shouldbe) := by
  simp only [judge, WaitExit.response, strndup, if_neg he, DeviceType.validate]

theorem judge_ok_iff {x : WaitExit} :
    judge type cfg.json m x = .returned .ok ↔ ∃ e, x = .reply e ∧ e.body ≠ [] ∧
      validateResponse cfg.json (text e.body) m.shouldbe = .ok := by
  constructor
  · intro h
    cases x with
    | reply e =>
      by_cases hbody : e.body = []
      · simp only [judge, WaitExit.response, strndup, if_pos hbody] at h
        cases type <;> cases h
      · rw [judge_reply hbody] at h
        exact ⟨e, rfl, hbody, CallEnd.returned.inj h⟩
    | tooMany | timeout | failure reply => cases type <;> cases h
  · rintro ⟨e, rfl, hbody, hvalid⟩
    rw [judge_reply hbody, hvalid]

theorem askArbiter_obtains_iff {ending : CallEnd ChamgeReturn} {published : Option Publication}
    (h : askArbiter type cfg m t = some (ending, published)) :
    ending = .returned .ok ↔ t.Obtains cfg m := by
  by_cases hwait : AwaitsReply cfg t
  · obtain ⟨p, hp⟩ := askArbiter_waits type m hwait
    rw [hp] at h
    obtain ⟨x, hx, heq⟩ := Option.map_eq_some_iff.mp h
    obtain ⟨rfl, -⟩ := Prod.mk.inj heq
    rw [judge_ok_iff]
    constructor
    · rintro ⟨e, rfl, hbody, hvalid⟩
      exact ⟨hwait, e, hx, hbody, hvalid⟩
    · rintro ⟨-, e, he, hbody, hvalid⟩
      exact ⟨e, Option.some.inj (hx.symm.trans he), hbody, hvalid⟩
  · obtain ⟨p, hp⟩ : ∃ p, askArbiter type cfg m t = some (.returned .fail, p) :=
      askArbiter_refused hwait
    obtain ⟨rfl, -⟩ := Prod.mk.inj (Option.some.inj (hp.symm.trans h))
    exact iff_of_false (by simp) fun hobtains => hwait hobtains.1

theorem amqpRpcSubscribe_fail_iff (s : SubscribeOutcomes) :
    (amqpRpcSubscribe cfg.settings.channel cfg.uid s).1 = .fail ↔ ¬ Subscribes cfg s := by
  unfold amqpRpcSubscribe Subscribes
  by_cases hchannel : cfg.settings.channel = 0
  · simp [hchannel]
  cases hdeclare : s.declareQueue with
  | error r => simp [hchannel]
  | ok name =>
    by_cases hname : name = cfg.uid
    · cases hbind : s.bind <;> cases hconsume : s.consume <;> simp [hchannel, hname]
    · simp [hchannel, hname]

theorem askArbiter_granted (type : DeviceType) (hchannel : cfg.settings.channel ≠ 0)
    (h : t.Granted cfg m) :
    ∃ published, askArbiter type cfg m t = some (.returned .ok, published) := by
  obtain ⟨published, hask⟩ := askArbiter_waits type m ⟨hchannel, h.passes⟩
  obtain ⟨e, hexit, hbody, hvalid⟩ := h.answered
  refine ⟨published, ?_⟩
  rw [hask, hexit, Option.map_some, judge_reply hbody, hvalid]

theorem amqpBackendEnroll_granted (type : DeviceType) {b : AmqpBackend}
    (hchannel : cfg.settings.channel ≠ 0) (hfree : b.socketOpen = false)
    (h : t.Granted cfg .enroll) :
    ∃ r, amqpBackendEnroll type cfg b t = some r ∧ r.ending = .returned .ok := by
  have hlogin := amqpRpcLogin_ok_iff.mpr ⟨hchannel, hfree, h.opens⟩
  obtain ⟨published, hask⟩ := askArbiter_granted type hchannel h
  simp only [amqpBackendEnroll, ne_eq, hlogin, not_true, if_false, hask, Option.map_some,
    Option.some.injEq, exists_eq_left']

/-! ### Traces with a broker that works -/

def defaultSettings : AmqpSettings := ⟨1, cstr "enroll", cstr "amq.direct"⟩

def plainConfig : DeviceConfig := ⟨plainParser, defaultSettings, cstr "abc-987-123"⟩

def workingTrace (outcomes : List ConsumeOutcome) : MethodTrace :=
  { link := workingLink, rpc := openPrelude, outcomes,
    subscribe := ⟨.ok plainConfig.uid, .ok (), .ok ()⟩, socketClosed := false }

/-- The arbiter's answer to the request of a method. -/
def expectedAnswer (m : BackendMethod) : ConsumeOutcome :=
  ⟨.normal, 1, replyProperties (some openPrelude.correlationId), resultBody m.shouldbe⟩

theorem workingTrace_succeeds (m : BackendMethod) :
    (workingTrace [expectedAnswer m]).Succeeds plainConfig m where
  opens := ⟨rfl, rfl, rfl, rfl⟩
  passes := ⟨rfl, ⟨_, rfl⟩, rfl, rfl⟩
  answered := ⟨(expectedAnswer m).envelope, by cases m <;> decide +kernel,
    by cases m <;> decide +kernel, by cases m <;> decide +kernel⟩
  closes := ⟨rfl, rfl, rfl⟩
  declared := ⟨_, rfl, by decide, fun _ => rfl⟩
  bound := rfl
  consumed := rfl

end Chamge
