import Chamge.BackendClass
import Chamge.History

/-! Every device of the running system does what the methods of its node and backend do on
the outcomes that its library calls have. -/

namespace Chamge
open CString JsonGlib

/-! ### One node and its backend -/

/-- A node over its backend, what it has published, and whether a call has ended its process. -/
structure DeviceRun where
  backed : BackedNode
  published : List Publication
  ended : Bool

def DeviceRun.init (kind : NodeKind) (uid : Bytes) : DeviceRun :=
  { backed := .init kind uid, published := [], ended := false }

structure BackendCall where
  action : NodeAction
  trace : MethodTrace

def CallEnd.isEnded {ρ : Type} : CallEnd ρ → Bool
  | returned _ => false
  | ended _ => true

/-- What the method that the call comes to publishes. -/
def BackedNode.publication (klass : BackendClass) (dcfg : DeviceConfig) (b : BackedNode)
    (c : BackendCall) : Option Publication :=
  (methodReached b.node c.action).bind fun m =>
    (klass.slots.call m dcfg b.called c.trace).bind MethodResult.published

def backendCalls (klass : BackendClass) (dcfg : DeviceConfig) : Machine DeviceRun BackendCall where
  step u c :=
    if u.ended then none
    else (u.backed.act klass dcfg c.action c.trace).map fun r =>
      { backed := r.after
        published := u.published ++ (u.backed.publication klass dcfg c).toList
        ended := r.ending.isEnded }

variable {dcfg : DeviceConfig} {type : DeviceType} {u : DeviceRun} {m : BackendMethod}
  {a : NodeAction} {res : MethodResult} {t : MethodTrace}

theorem amqp_slots_call (type : DeviceType) (m : BackendMethod) :
    (amqpBackendClass type.nodeKind).slots.call m = amqpBackendMethod type m := by
  cases type <;> cases m <;> rfl

theorem backendCalls_reached (hended : u.ended = false)
    (hm : methodReached u.backed.node a = some m)
    (hres : amqpBackendMethod type m dcfg u.backed.called t = some res) :
    (backendCalls (amqpBackendClass type.nodeKind) dcfg).step u ⟨a, t⟩ =
      some { backed := (u.backed.settle a res).after
             published := u.published ++ res.published.toList
             ended := (u.backed.settle a res).ending.isEnded } := by
  simp only [backendCalls, hended, Bool.false_eq_true, if_false, BackedNode.act, hm,
    amqp_slots_call, hres, Option.map_some, BackedNode.publication, Option.bind_some]

theorem backendCalls_unreached (hended : u.ended = false)
    (hm : methodReached u.backed.node a = none) :
    (backendCalls (amqpBackendClass type.nodeKind) dcfg).step u ⟨a, t⟩ =
      some { u with backed := ⟨(nodeAction u.backed.node a .fail).node, u.backed.object⟩ } := by
  simp only [backendCalls, hended, Bool.false_eq_true, if_false, BackedNode.act, hm,
    Option.map_some, BackedNode.publication, Option.bind_none, Option.toList_none,
    List.append_nil, CallEnd.isEnded]

/-- The object that the next method is called on, after a call that has returned. -/
theorem called_after {n : ChamgeNode} {ret : ChamgeReturn} {obj : AmqpBackend}
    (hm : methodReached n a = some m) :
    BackedNode.called ⟨(nodeAction n a ret).node, obj⟩ = if m = .delist then .new else obj := by
  have hcall := nodeCall n a ret
  rw [hm] at hcall
  unfold BackedNode.called
  cases hcall with
  | enroll hn hbackend => rw [if_neg hbackend, if_neg (by decide)]
  | activate hn hb hbackend =>
    rw [if_neg (by rw [hbackend]; exact hb), if_neg (by decide)]
  | deactivate hn hb hbackend =>
    rw [if_neg (by rw [hbackend]; exact hb), if_neg (by decide)]
  | delist hb hbackend => rw [if_pos hbackend, if_pos rfl]

/-! ### The outcomes of the library calls -/

/-- The calls up to the wait loop, as the start says. -/
def Start.rpcPrelude : Start → RpcPrelude
  | .refused => ⟨.error .missing, .error .missing, [], .ok (), .ok ()⟩
  | .noTarget =>
    ⟨.error (.serverException (.channelClose 404 (cstr "NOT_FOUND"))), .error .missing, [], .ok (),
      .ok ()⟩
  | .unheard cid rq => ⟨.ok (), .ok rq, cid, .ok (), .error .missing⟩
  | .sent cid rq => ⟨.ok (), .ok rq, cid, .ok (), .ok ()⟩

/-- A refused call comes not even to a socket of its own. -/
def Start.opensLink : Start → Bool
  | .refused => false
  | .noTarget | .unheard _ _ | .sent _ _ => true

def linkOutcomes (start : Start) (fin : Finish) : LinkOutcomes :=
  { parseUrl := start.opensLink, socketOpen := true, login := .normal, channelOpen := .ok ()
    channelClose := if fin = .failed then .missing else .normal
    connectionClose := if fin = .partly then .missing else .normal, destroy := .ok () }

/-- For an empty name the broker chooses one, and its own names it refuses. -/
def subscribeOutcomes (uid : Bytes) (fin : Finish) : SubscribeOutcomes :=
  if fin = .failed then ⟨.error .missing, .ok (), .ok ()⟩
  else if isServerNamed uid then
    ⟨.error (.serverException (.channelClose 403 (cstr "ACCESS_REFUSED"))), .ok (), .ok ()⟩
  else
    ⟨.ok (if uid = [] then cstr "amq.gen" else uid),
      if fin = .partly then .error .missing else .ok (), .ok ()⟩

/-- The subscription to the queue named by the uid succeeds. -/
def Finish.Subscribes (uid : Bytes) (fin : Finish) : Prop :=
  fin = .ok ∧ uid ≠ [] ∧ isServerNamed uid = false

instance (uid : Bytes) (fin : Finish) : Decidable (fin.Subscribes uid) :=
  inferInstanceAs (Decidable (_ ∧ _))

def methodTrace (uid : Bytes) (start : Start) (outcomes : List ConsumeOutcome) (fin : Finish) :
    MethodTrace :=
  { link := linkOutcomes start fin, rpc := start.rpcPrelude, outcomes
    subscribe := subscribeOutcomes uid fin, socketClosed := false }

/-- The message that goes out. -/
def Start.message (exchange target body : Bytes) : Start → Option Publication
  | .refused | .noTarget => none
  | .unheard cid rq | .sent cid rq => some ⟨exchange, target, requestProperties rq cid, body⟩

/-- The request that goes out. -/
def Start.publication (dcfg : DeviceConfig) (type : DeviceType) (m : BackendMethod)
    (start : Start) : Option Publication :=
  start.message dcfg.settings.enrollExchangeName dcfg.settings.enrollQueueName
    (requestBody type m dcfg.uid)

variable {start : Start} {outcomes : List ConsumeOutcome} {fin : Finish} {b : AmqpBackend}
  {cid rq : Bytes} {x : WaitExit}

theorem amqpRpcRequest_exchange (hchannel : dcfg.settings.channel ≠ 0) (p : RpcPrelude) :
    amqpRpcRequest (requestArgs type dcfg m) p outcomes none =
      rpcExchange amqpRpcReplyString (some 10) (requestArgs type dcfg m)
        dcfg.settings.enrollQueueName p outcomes none := by
  have hargs : (requestArgs type dcfg m).channel ≠ 0 := hchannel
  rw [amqpRpcRequest, if_neg hargs]
  rfl

theorem askArbiter_unsent (hchannel : dcfg.settings.channel ≠ 0)
    (hstart : ∀ cid rq, start ≠ .sent cid rq) :
    askArbiter type dcfg m (methodTrace dcfg.uid start outcomes fin) =
      some (.returned .fail, start.publication dcfg type m) := by
  have hrequest : ∃ r, amqpRpcRequest (requestArgs type dcfg m) start.rpcPrelude outcomes none =
      some r ∧ r.ret = .fail ∧ r.published = start.publication dcfg type m := by
    rw [amqpRpcRequest_exchange hchannel]
    cases start with
    | sent cid rq => exact absurd rfl (hstart cid rq)
    | refused | noTarget | unheard => exact ⟨_, rfl, rfl, rfl⟩
  obtain ⟨r, hr, hret, hpublished⟩ := hrequest
  change (amqpRpcRequest (requestArgs type dcfg m) start.rpcPrelude outcomes none).map _ = _
  rw [hr, Option.map_some, if_pos (by rw [hret]; decide), hpublished]

theorem askArbiter_sent (hchannel : dcfg.settings.channel ≠ 0)
    (hx : waitLoop (some 10) cid 0 outcomes = some x) :
    askArbiter type dcfg m (methodTrace dcfg.uid (.sent cid rq) outcomes fin) =
      some (judge type dcfg.json m x, (Start.sent cid rq).publication dcfg type m) := by
  have hrequest : ∃ p, amqpRpcRequest (requestArgs type dcfg m) (Start.sent cid rq).rpcPrelude
      outcomes none = some (afterWait amqpRpcReplyString none p x) ∧
      some p = (Start.sent cid rq).publication dcfg type m := by
    refine ⟨_, ?_, rfl⟩
    rw [amqpRpcRequest_exchange hchannel]
    simp only [Start.rpcPrelude, rpcExchange, hx, Option.map_some]
    rfl
  obtain ⟨p, hr, hp⟩ := hrequest
  have hresponse : (afterWait amqpRpcReplyString none p x).response = x.response := by
    cases x <;> rfl
  change (amqpRpcRequest (requestArgs type dcfg m) (Start.sent cid rq).rpcPrelude outcomes
    none).map _ = _
  have hret : (afterWait amqpRpcReplyString none p x).ret = .ok := rfl
  rw [hr, Option.map_some, hret, if_neg (not_not.mpr rfl), hresponse, judge, ← hp]
  cases type.validate dcfg.json x.response m.shouldbe <;> rfl

theorem subscribes_outcomes (hchannel : dcfg.settings.channel ≠ 0) :
    Subscribes dcfg (subscribeOutcomes dcfg.uid fin) ↔ fin.Subscribes dcfg.uid := by
  have hname : cstr "amq.gen" ≠ [] := by decide
  unfold Finish.Subscribes subscribeOutcomes
  cases hserver : isServerNamed dcfg.uid with
  | true => cases fin <;> simp [Subscribes]
  | false =>
    cases fin with
    | failed | partly => simp [Subscribes]
    | ok =>
      by_cases huid : dcfg.uid = []
      · simp [Subscribes, huid, hname]
      · simp [Subscribes, huid, hchannel]

theorem closeDelistLink_outcomes :
    closeDelistLink (linkOutcomes start fin) = if fin = .ok then .ok else .fail := by
  cases fin <;> rfl

/-! ### The methods on such outcomes -/

/-- The object with the socket that the method has opened, if it is the enroll. -/
def openedBy (b : AmqpBackend) (m : BackendMethod) (start : Start) : AmqpBackend :=
  { b with socketOpen := b.socketOpen || (m = .enroll && start.opensLink) }

theorem openedBy_of_ne (hm : m ≠ .enroll) : openedBy b m start = b := by
  rw [openedBy, decide_eq_false hm, Bool.false_and, Bool.or_false]

theorem opens_linkOutcomes (fin : Finish) (hopens : start.opensLink = true) :
    (linkOutcomes start fin).Opens := ⟨hopens, rfl, rfl, rfl⟩

theorem refused_of_not_opens (h : start.opensLink ≠ true) : start = .refused := by
  cases start with
  | refused => rfl
  | noTarget | unheard | sent => exact absurd rfl h

/-- An attempt that opens a socket needs one that is not in use. -/
def CanOpen (b : AmqpBackend) (m : BackendMethod) (start : Start) : Prop :=
  m = .enroll → start.opensLink = true → b.socketOpen = false

theorem enroll_asks (hchannel : dcfg.settings.channel ≠ 0) (hopens : start.opensLink = true)
    (hfree : CanOpen b .enroll start) :
    amqpBackendEnroll type dcfg b (methodTrace dcfg.uid start outcomes fin) =
      (askArbiter type dcfg .enroll (methodTrace dcfg.uid start outcomes fin)).map
        fun p => ⟨p.1, p.2, openedBy b .enroll start⟩ := by
  have hlogin : amqpRpcLogin dcfg.settings.channel b.socketOpen (linkOutcomes start fin) =
      ⟨.ok, [], true⟩ := by
    have hcases := amqpRpcLogin_cases dcfg.settings.channel b.socketOpen (linkOutcomes start fin)
    have hok := amqpRpcLogin_ok_iff.mpr ⟨hchannel, hfree rfl hopens,
      opens_linkOutcomes fin hopens⟩
    generalize amqpRpcLogin dcfg.settings.channel b.socketOpen (linkOutcomes start fin) = login
      at hcases hok
    cases hcases with
    | refused | opened => cases hok
    | ok => rfl
  have hobject : ({ b with socketOpen := true } : AmqpBackend) = openedBy b .enroll start := by
    simp only [openedBy, hopens, decide_true, Bool.and_true, Bool.or_true]
  simp only [amqpBackendEnroll, methodTrace, hlogin, ne_eq, not_true, if_false, Bool.not_false,
    Bool.or_true, Bool.and_true, hobject]

theorem enroll_refused :
    amqpBackendEnroll type dcfg b (methodTrace dcfg.uid .refused outcomes fin) =
      some ⟨.returned .fail, none, openedBy b .enroll .refused⟩ := by
  have hlogin : ∃ errors, amqpRpcLogin dcfg.settings.channel b.socketOpen
      (linkOutcomes .refused fin) = ⟨.fail, errors, b.socketOpen⟩ := by
    have hcases := amqpRpcLogin_cases dcfg.settings.channel b.socketOpen
      (linkOutcomes .refused fin)
    generalize amqpRpcLogin dcfg.settings.channel b.socketOpen (linkOutcomes .refused fin) = login
      at hcases
    cases hcases with
    | refused => exact ⟨_, rfl⟩
    | opened _ hurl => cases hurl
    | ok _ _ h => cases h.1
  obtain ⟨errors, hlogin⟩ := hlogin
  simp only [amqpBackendEnroll, methodTrace, hlogin, ne_eq, reduceCtorEq, not_false_eq_true,
    if_true, Bool.not_false, Bool.or_true, Bool.and_true, openedBy, Start.opensLink,
    Bool.and_false, Bool.or_false]

theorem delist_asks (hopens : start.opensLink = true) :
    amqpBackendDelist type dcfg b (methodTrace dcfg.uid start outcomes fin) =
      (askArbiter type dcfg .delist (methodTrace dcfg.uid start outcomes fin)).map fun p =>
        if p.1 ≠ .returned .ok then ⟨p.1, p.2, b⟩
        else ⟨.returned (if fin = .ok then .ok else .fail), p.2, b⟩ := by
  obtain ⟨hurl, hsocket, hlogin, hchannel⟩ := opens_linkOutcomes fin hopens
  simp only [amqpBackendDelist, methodTrace, hurl, hsocket, hlogin, hchannel, ne_eq, not_true,
    if_false, closeDelistLink_outcomes, reduceCtorEq]

theorem delist_refused :
    amqpBackendDelist type dcfg b (methodTrace dcfg.uid .refused outcomes fin) =
      some ⟨.returned .fail, none, b⟩ := rfl

theorem activate_asks : amqpBackendActivate type dcfg b (methodTrace dcfg.uid start outcomes fin) =
      (askArbiter type dcfg .activate (methodTrace dcfg.uid start outcomes fin)).map fun p =>
        if p.1 ≠ .returned .ok then ⟨p.1, p.2, b⟩
        else if (amqpRpcSubscribe dcfg.settings.channel dcfg.uid
            (subscribeOutcomes dcfg.uid fin)).1 = .fail then
          ⟨.returned .fail, p.2, { b with activated := true }⟩
        else ⟨.returned .ok, p.2, { b with activated := true, source := true }⟩ := by
  simp only [amqpBackendActivate, methodTrace, Bool.not_false, Bool.and_true]

theorem amqpBackendMethod_eq (type : DeviceType) (m : BackendMethod) :
    amqpBackendMethod type m = match m with
      | .enroll => amqpBackendEnroll type
      | .delist => amqpBackendDelist type
      | .activate => amqpBackendActivate type
      | .deactivate => amqpBackendDeactivate := by
  cases type <;> cases m <;> rfl

/-- A method whose answer is not the one it asks for, or that has none, ends with that. -/
theorem method_denied {e : CallEnd ChamgeReturn} {p : Option Publication}
    (hchannel : dcfg.settings.channel ≠ 0) (hm : m ≠ .deactivate) (hfree : CanOpen b m start)
    (hask : askArbiter type dcfg m (methodTrace dcfg.uid start outcomes fin) = some (e, p))
    (he : e ≠ .returned .ok) :
    amqpBackendMethod type m dcfg b (methodTrace dcfg.uid start outcomes fin) =
      if start.opensLink || m = .activate then some ⟨e, p, openedBy b m start⟩
      else some ⟨.returned .fail, none, openedBy b m start⟩ := by
  rw [amqpBackendMethod_eq]
  cases m with
  | deactivate => exact absurd rfl hm
  | activate =>
    simp only [activate_asks, hask, Option.map_some, if_pos he, decide_true, Bool.or_true, if_true,
      openedBy_of_ne (m := .activate) (by decide)]
  | enroll =>
    by_cases hopens : start.opensLink = true
    · simp only [enroll_asks hchannel hopens hfree, hask, Option.map_some, hopens, Bool.true_or,
        if_true]
    · obtain rfl := refused_of_not_opens hopens
      exact enroll_refused
  | delist =>
    have hsame : openedBy b .delist start = b := openedBy_of_ne (by decide)
    rw [hsame]
    by_cases hopens : start.opensLink = true
    · simp only [delist_asks hopens, hask, Option.map_some, if_pos he, hopens, Bool.true_or,
        if_true]
    · obtain rfl := refused_of_not_opens hopens
      exact delist_refused

theorem method_unsent (hchannel : dcfg.settings.channel ≠ 0)
    (hstart : ∀ cid rq, start ≠ .sent cid rq) (hm : m ≠ .deactivate)
    (hfree : CanOpen b m start) :
    amqpBackendMethod type m dcfg b (methodTrace dcfg.uid start outcomes fin) =
      some ⟨.returned .fail, start.publication dcfg type m, openedBy b m start⟩ := by
  rw [method_denied hchannel hm hfree (askArbiter_unsent hchannel hstart) (by decide)]
  cases start <;> simp [Start.opensLink, Start.publication, Start.message]

theorem enroll_granted (hchannel : dcfg.settings.channel ≠ 0)
    (hfree : CanOpen b .enroll (.sent cid rq)) (hx : waitLoop (some 10) cid 0 outcomes = some x)
    (hok : judge type dcfg.json .enroll x = .returned .ok) :
    amqpBackendMethod type .enroll dcfg b (methodTrace dcfg.uid (.sent cid rq) outcomes fin) =
      some ⟨.returned .ok, (Start.sent cid rq).publication dcfg type .enroll,
        openedBy b .enroll (.sent cid rq)⟩ := by
  rw [amqpBackendMethod_eq]
  simp only [enroll_asks hchannel rfl hfree, askArbiter_sent hchannel hx, Option.map_some, hok]

theorem delist_granted (hchannel : dcfg.settings.channel ≠ 0)
    (hx : waitLoop (some 10) cid 0 outcomes = some x)
    (hok : judge type dcfg.json .delist x = .returned .ok) :
    amqpBackendMethod type .delist dcfg b (methodTrace dcfg.uid (.sent cid rq) outcomes fin) =
      some ⟨.returned (if fin = .ok then .ok else .fail),
        (Start.sent cid rq).publication dcfg type .delist, b⟩ := by
  have hopens : (Start.sent cid rq).opensLink = true := rfl
  rw [amqpBackendMethod_eq]
  simp only [delist_asks hopens, askArbiter_sent hchannel hx, Option.map_some, hok, ne_eq,
    not_true, if_false]

theorem activate_granted (hchannel : dcfg.settings.channel ≠ 0)
    (hx : waitLoop (some 10) cid 0 outcomes = some x)
    (hok : judge type dcfg.json .activate x = .returned .ok) :
    amqpBackendMethod type .activate dcfg b (methodTrace dcfg.uid (.sent cid rq) outcomes fin) =
      some (if fin.Subscribes dcfg.uid then
        ⟨.returned .ok, (Start.sent cid rq).publication dcfg type .activate,
          { b with activated := true, source := true }⟩
      else ⟨.returned .fail, (Start.sent cid rq).publication dcfg type .activate,
        { b with activated := true }⟩) := by
  rw [amqpBackendMethod_eq]
  simp only [activate_asks, askArbiter_sent hchannel hx, Option.map_some, hok, ne_eq, not_true,
    if_false, Option.some.injEq]
  by_cases hfin : fin.Subscribes dcfg.uid
  · have hsub := (subscribes_outcomes hchannel).mpr hfin
    rw [if_pos hfin, if_neg fun hfail => (amqpRpcSubscribe_fail_iff _).mp hfail hsub]
  · have hsub := mt (subscribes_outcomes hchannel).mp hfin
    rw [if_neg hfin, if_pos ((amqpRpcSubscribe_fail_iff _).mpr hsub)]

/-! ### A device of the running system -/

variable {ι : Type} [DecidableEq ι] {cfg : Config ι} {s s' : System ι} {d : ι}
  {channel : Int} {exchange : Bytes} {calls : List BackendCall} {l : Label ι}

def Config.device (cfg : Config ι) (channel : Int) (exchange : Bytes) (d : ι) : DeviceConfig :=
  { json := cfg.json, settings := ⟨channel, cfg.enrollQueue, exchange⟩, uid := cfg.uid d }

def Request.publication (exchange : Bytes) (r : Request ι) : Publication :=
  ⟨exchange, r.target, requestProperties r.replyQueue r.correlationId, r.body⟩

/-- The request that the device waits for. -/
def System.pending (s : System ι) (d : ι) : Option (Request ι) :=
  (s.device d).wait.bind fun w => s.requests[w.request]?

/-- What has been published, with the request that is pending, is what the caller has sent. -/
def SentInOrder (exchange : Bytes) (s : System ι) (who : Caller ι) (published : List Publication)
    (pending : Option (Request ι)) : Prop :=
  published ++ (pending.map (Request.publication exchange)).toList =
    (s.requestsOf who).map (Request.publication exchange)

/-- Every message among the outcomes has been delivered on the connection. -/
def Consumed (s : System ι) (c : ConnId ι) (outcomes : List ConsumeOutcome) : Prop :=
  ∀ o ∈ outcomes, o.reply = .normal → ∃ q m, (c, q, m) ∈ s.delivered ∧ o.envelope = m.envelope

/-- What a call has consumed has been delivered on the connection of the request that it has
sent: the one of its caller with the id and the reply queue that the call has got. -/
def ConsumedBy (s : System ι) (who : Caller ι) (p : RpcPrelude)
    (outcomes : List ConsumeOutcome) : Prop :=
  outcomes = [] ∨ ∃ r ∈ s.requests, r.caller = who ∧ p.correlationId = r.correlationId ∧
    p.replyQueue = .ok r.replyQueue ∧ Consumed s r.conn outcomes

/-- The wait so far: the loop has discarded what it has consumed. -/
structure Waiting (s : System ι) (d : ι) (b : AmqpBackend) (w : DeviceWait) (r : Request ι)
    (outcomes : List ConsumeOutcome) : Prop where
  alive : (s.device d).crashed = false
  request : s.requests[w.request]? = some r
  caller : r.caller = .device d
  free : w.method = .enroll → b.socketOpen = false
  socket : (s.device d).connected = (b.socketOpen || w.method = .enroll)
  loop : waitLoop (some 10) r.correlationId 0 outcomes = none
  length : outcomes.length = w.retry
  consumed : Consumed s r.conn outcomes

structure Mirrors (exchange : Bytes) (s : System ι) (d : ι) (calls : List BackendCall)
    (u : DeviceRun) : Prop where
  node : u.backed.node = (s.device d).node
  ended : u.ended = (s.device d).crashed
  source : (s.device d).crashed = false → u.backed.called.source = (s.device d).source
  sent : SentInOrder exchange s (.device d) u.published (s.pending d)
  consumed : ∀ c ∈ calls, ConsumedBy s (.device d) c.trace.rpc c.trace.outcomes
  idle : (s.device d).wait = none → (s.device d).crashed = false →
    u.backed.called.socketOpen = (s.device d).connected
  waiting : ∀ w, (s.device d).wait = some w →
    ∃ r outcomes, Waiting s d u.backed.called w r outcomes

theorem mirrors_init :
    Mirrors exchange (.init cfg) d [] (.init (cfg.kind d).nodeKind (cfg.uid d)) := by
  have hwait : ((System.init cfg).device d).wait = none := rfl
  refine ⟨rfl, rfl, fun _ => rfl, ?_, fun c hc => absurd hc List.not_mem_nil, fun _ _ => rfl,
    fun w hw => ?_⟩
  · rw [System.pending, hwait]
    rfl
  · rw [hwait] at hw
    cases hw

/-! ### What has been consumed and sent -/

section records
variable {who : Caller ι} {c : ConnId ι} {published : List Publication}
  {pending : Option (Request ι)} {r : Request ι}

omit [DecidableEq ι] in
theorem Consumed.mono (h : Consumed s c outcomes) (hgrows : Grows s s') :
    Consumed s' c outcomes := by
  intro o ho hnormal
  obtain ⟨q, m, hm, he⟩ := h o ho hnormal
  exact ⟨q, m, hgrows.delivered.subset hm, he⟩

omit [DecidableEq ι] in
theorem consumed_nil : Consumed s c [] := fun _ ho => absurd ho List.not_mem_nil

omit [DecidableEq ι] in
/-- One more outcome, whose message, if any, has been delivered. -/
theorem Consumed.snoc {o : ConsumeOutcome} (h : Consumed s c outcomes) (hgrows : Grows s s')
    (ho : o.reply = .normal → ∃ q m, (c, q, m) ∈ s.delivered ∧ o.envelope = m.envelope) :
    Consumed s' c (outcomes ++ [o]) := by
  intro o' ho' hnormal
  rcases List.mem_append.mp ho' with hold | hlast
  · exact h.mono hgrows o' hold hnormal
  · obtain rfl := List.mem_singleton.mp hlast
    obtain ⟨q, m, hm, he⟩ := ho hnormal
    exact ⟨q, m, hgrows.delivered.subset hm, he⟩

omit [DecidableEq ι] in
theorem ConsumedBy.mono {p : RpcPrelude} (h : ConsumedBy s who p outcomes)
    (hgrows : Grows s s') : ConsumedBy s' who p outcomes := by
  rcases h with hnil | ⟨r, hr, hcaller, hid, hqueue, hconsumed⟩
  · exact Or.inl hnil
  · exact Or.inr ⟨r, hgrows.requests.subset hr, hcaller, hid, hqueue, hconsumed.mono hgrows⟩

omit [DecidableEq ι] in
theorem consumedBy_nil {p : RpcPrelude} : ConsumedBy s who p [] := Or.inl rfl

theorem SentInOrder.mono (h : SentInOrder exchange s who published pending)
    (hown : s'.requestsOf who = s.requestsOf who) :
    SentInOrder exchange s' who published pending := by
  rw [SentInOrder, hown]
  exact h

/-- One more request, if any, of which the caller has taken note or which is pending. -/
theorem SentInOrder.append (h : SentInOrder exchange s who published none)
    (hreq : s'.requests = s.requests ++ pending.toList) (hr : ∀ r ∈ pending, r.caller = who) :
    SentInOrder exchange s' who published pending ∧
      SentInOrder exchange s' who
        (published ++ (pending.map (Request.publication exchange)).toList) none := by
  have hlist : (pending.map (Request.publication exchange)).toList =
      pending.toList.map (Request.publication exchange) := by cases pending <;> rfl
  have hbefore : published = (s.requestsOf who).map (Request.publication exchange) :=
    (List.append_nil published).symm.trans h
  have hsent : SentInOrder exchange s' who published pending := by
    rw [SentInOrder, requestsOf_append hreq hr, List.map_append, ← hbefore, hlist]
  exact ⟨hsent, (List.append_nil _).trans hsent⟩

theorem SentInOrder.settle (h : SentInOrder exchange s who published (some r)) :
    SentInOrder exchange s who (published ++ (some (r.publication exchange)).toList) none :=
  (List.append_nil _).trans h

end records

/-- A wait loop that has discarded all so far goes on with the rest. -/
theorem waitLoop_resumed {limit : Option ℕ} {cid : Bytes} (os : List ConsumeOutcome)
    (h : waitLoop limit cid 0 outcomes = none) :
    waitLoop limit cid 0 (outcomes ++ os) = waitLoop limit cid outcomes.length os := by
  obtain ⟨hdiscards, hlimit⟩ := waitLoop_eq_none_iff.mp h
  rw [waitLoop_discards hdiscards hlimit, Nat.zero_add]

/-! ### The steps of the others -/

theorem Mirrors.mono (h : Mirrors exchange s d calls u) (hdev : s'.device d = s.device d)
    (hown : s'.requestsOf (.device d) = s.requestsOf (.device d)) (hgrows : Grows s s') :
    Mirrors exchange s' d calls u := by
  have hwaiting : ∀ w, (s'.device d).wait = some w →
      ∃ r outcomes, Waiting s' d u.backed.called w r outcomes := by
    intro w hw
    obtain ⟨r, outcomes, hwait⟩ := h.waiting w (hdev ▸ hw)
    exact ⟨r, outcomes, hdev ▸ hwait.alive, getElem?_of_isPrefix hgrows.requests hwait.request,
      hwait.caller, hwait.free, hdev ▸ hwait.socket, hwait.loop, hwait.length,
      hwait.consumed.mono hgrows⟩
  have hpending : s'.pending d = s.pending d := by
    unfold System.pending
    rw [hdev]
    cases hw : (s.device d).wait with
    | none => rfl
    | some w =>
      obtain ⟨r, outcomes, hwait⟩ := h.waiting w hw
      exact (getElem?_of_isPrefix hgrows.requests hwait.request).trans hwait.request.symm
  exact ⟨hdev ▸ h.node, hdev ▸ h.ended, hdev ▸ h.source, hpending ▸ h.sent.mono hown,
    fun c hc => (h.consumed c hc).mono hgrows, hdev ▸ h.idle, hwaiting⟩

theorem step_mirrors_ne (h : Mirrors exchange s d calls u) (hl : l.device ≠ some d)
    (hstep : (system cfg).step s l = some s') : Mirrors exchange s' d calls u :=
  h.mono (step_device_ne hl hstep) (step_requestsOf (caller_ne_device hl) hstep) (step_grows hstep)

theorem pumpDevice_mirrors {answer : Option Bytes} (h : Mirrors exchange s d calls u)
    (hstep : (system cfg).step s (.pumpDevice d answer) = some s') :
    Mirrors exchange s' d calls u :=
  h.mono (by rw [(pumpDevice_frame hstep).1]) (step_requestsOf (by simp [Label.caller]) hstep)
    (step_grows hstep)

/-! ### The ends of a call -/

/-- What the device's call answers the node, and leaves of the backend object. -/
structure Ends (s' : System ι) (d : ι) (n : ChamgeNode) (a : NodeAction) (m : BackendMethod)
    (ret : ChamgeReturn) (b : AmqpBackend) : Prop where
  node : (s'.device d).node = (nodeAction n a ret).node
  wait : (s'.device d).wait = none
  alive : (s'.device d).crashed = false
  source : (s'.device d).source = if m = .delist then false else b.source
  socket : (s'.device d).connected = if m = .delist then false else b.socketOpen

theorem Ends.of_finish {w : NodeAction × BackendMethod} {ret : ChamgeReturn}
    (halive : (s.device d).crashed = false) (hsource : b.source = (s.device d).source)
    (hsocket : b.socketOpen = (s.device d).connected) :
    Ends (s.finishCall cfg d w ret) d (s.device d).node w.1 w.2 ret b := by
  constructor
  · rw [finishCall_node]
  all_goals rw [finishCall_device_self]
  · rfl
  · split_ifs <;> exact halive
  · split_ifs
    · rfl
    · exact hsource.symm
  · split_ifs
    · rfl
    · exact hsocket.symm

/-- The end of an activate, whose subscription decides over the source. -/
theorem Ends.of_activate {ret : ChamgeReturn} (halive : (s.device d).crashed = false)
    (hsource : b.source = decide (ret = .ok)) (hsocket : b.socketOpen = (s.device d).connected) :
    Ends (s.setDevice d { (s.device d).finish a ret with source := ret = .ok }) d
      (s.device d).node a .activate ret b := by
  constructor
  all_goals rw [setDevice_device_self]
  · rfl
  · rfl
  · exact halive
  · rw [if_neg (by decide), hsource]
  · rw [if_neg (by decide), hsocket]
    rfl

/-- The end of a deactivate, which leaves everything but the source. -/
theorem Ends.of_deactivate (halive : (s.device d).crashed = false)
    (hsource : b.source = false) (hsocket : b.socketOpen = (s.device d).connected) :
    Ends (s.setDevice d { (s.device d).finish a .ok with source := false }) d
      (s.device d).node a .deactivate .ok b := by
  constructor
  all_goals rw [setDevice_device_self]
  · rfl
  · rfl
  · exact halive
  · rw [if_neg (by decide), hsource]
  · rw [if_neg (by decide), hsocket]
    rfl

variable (cfg channel) in
theorem Mirrors.returned {method : BackendMethod} {ret : ChamgeReturn} {p : Option Publication}
    (h : Mirrors exchange s d calls u) (halive : (s.device d).crashed = false)
    (hm : methodReached (s.device d).node a = some method)
    (hres : amqpBackendMethod (cfg.kind d) method (cfg.device channel exchange d)
      u.backed.called t = some ⟨.returned ret, p, b⟩)
    (hends : Ends s' d (s.device d).node a method ret b)
    (hsent : SentInOrder exchange s' (.device d) (u.published ++ p.toList) none)
    (hgrows : Grows s s') (hconsumed : ConsumedBy s' (.device d) t.rpc t.outcomes) :
    ∃ u', (backendCalls (amqpBackendClass (cfg.kind d).nodeKind)
        (cfg.device channel exchange d)).run u [⟨a, t⟩] = some u' ∧
      Mirrors exchange s' d (calls ++ [⟨a, t⟩]) u' := by
  have hended : u.ended = false := h.ended.trans halive
  have hreached : methodReached u.backed.node a = some method := by rw [h.node, hm]
  have hstep := backendCalls_reached hended hreached hres
  refine ⟨_, Machine.run_cons_eq_some.mpr ⟨_, hstep, rfl⟩, ?_⟩
  have hcalled : BackedNode.called ⟨(nodeAction u.backed.node a ret).node, b⟩ =
      if method = .delist then .new else b := called_after hreached
  rw [BackedNode.settle_returned u.backed a rfl]
  refine ⟨?_, hends.alive.symm, fun _ => ?_, ?_, fun c hc => ?_, fun _ _ => ?_, fun w hw => ?_⟩
  · rw [hends.node, ← h.node]
  · rw [hends.source, hcalled]
    split_ifs <;> rfl
  · rw [System.pending, hends.wait]
    exact hsent
  · rcases List.mem_append.mp hc with hold | hlast
    · exact (h.consumed c hold).mono hgrows
    · rw [List.mem_singleton.mp hlast]
      exact hconsumed
  · rw [hends.socket, hcalled]
    split_ifs <;> rfl
  · rw [hends.wait] at hw
    cases hw

variable (cfg channel) in
/-- The process ends in the call. -/
theorem Mirrors.crashed {method : BackendMethod} {cause : ProcessEnd} {p : Option Publication}
    (h : Mirrors exchange s d calls u) (halive : (s.device d).crashed = false)
    (hm : methodReached (s.device d).node a = some method)
    (hres : amqpBackendMethod (cfg.kind d) method (cfg.device channel exchange d)
      u.backed.called t = some ⟨.ended cause, p, b⟩)
    (hnode : (s'.device d).node = (s.device d).node) (hcrashed : (s'.device d).crashed = true)
    (hwait : (s'.device d).wait = none)
    (hsent : SentInOrder exchange s' (.device d) (u.published ++ p.toList) none)
    (hgrows : Grows s s') (hconsumed : ConsumedBy s' (.device d) t.rpc t.outcomes) :
    ∃ u', (backendCalls (amqpBackendClass (cfg.kind d).nodeKind)
        (cfg.device channel exchange d)).run u [⟨a, t⟩] = some u' ∧
      Mirrors exchange s' d (calls ++ [⟨a, t⟩]) u' := by
  have hreached : methodReached u.backed.node a = some method := by rw [h.node, hm]
  have hstep := backendCalls_reached (h.ended.trans halive) hreached hres
  refine ⟨_, Machine.run_cons_eq_some.mpr ⟨_, hstep, rfl⟩, ?_⟩
  refine ⟨h.node.trans hnode.symm, hcrashed.symm, fun hc => ?_, ?_, fun c hc => ?_,
    fun _ hc => ?_, fun w hw => ?_⟩
  · have hclash := hc.symm.trans hcrashed
    cases hclash
  · rw [System.pending, hwait]
    exact hsent
  · rcases List.mem_append.mp hc with hold | hlast
    · exact (h.consumed c hold).mono hgrows
    · rw [List.mem_singleton.mp hlast]
      exact hconsumed
  · have hclash := hc.symm.trans hcrashed
    cases hclash
  · rw [hwait] at hw
    cases hw

/-- How the call that came to the result is over in `s'`. -/
inductive CallOver (s' : System ι) (d : ι) (n : ChamgeNode) (a : NodeAction) (m : BackendMethod) :
    MethodResult → Prop
  | returned {ret : ChamgeReturn} {p : Option Publication} {b : AmqpBackend}
      (hends : Ends s' d n a m ret b) : CallOver s' d n a m ⟨.returned ret, p, b⟩
  | crashed {cause : ProcessEnd} {p : Option Publication} {b : AmqpBackend}
      (hnode : (s'.device d).node = n) (hcrashed : (s'.device d).crashed = true)
      (hwait : (s'.device d).wait = none) : CallOver s' d n a m ⟨.ended cause, p, b⟩

variable (cfg channel) in
theorem Mirrors.over {method : BackendMethod} {res : MethodResult}
    (h : Mirrors exchange s d calls u) (halive : (s.device d).crashed = false)
    (hm : methodReached (s.device d).node a = some method)
    (hres : amqpBackendMethod (cfg.kind d) method (cfg.device channel exchange d)
      u.backed.called t = some res)
    (hover : CallOver s' d (s.device d).node a method res)
    (hsent : SentInOrder exchange s' (.device d) (u.published ++ res.published.toList) none)
    (hgrows : Grows s s') (hconsumed : ConsumedBy s' (.device d) t.rpc t.outcomes) :
    ∃ u', (backendCalls (amqpBackendClass (cfg.kind d).nodeKind)
        (cfg.device channel exchange d)).run u [⟨a, t⟩] = some u' ∧
      Mirrors exchange s' d (calls ++ [⟨a, t⟩]) u' := by
  cases hover with
  | returned hends => exact h.returned cfg channel halive hm hres hends hsent hgrows hconsumed
  | crashed hnode hcrashed hwait =>
    exact h.crashed cfg channel halive hm hres hnode hcrashed hwait hsent hgrows hconsumed

variable (cfg channel) in
theorem Mirrors.unreached (h : Mirrors exchange s d calls u)
    (halive : (s.device d).crashed = false) (hwait : (s.device d).wait = none)
    (hm : methodReached (s.device d).node a = none) (ht : t.outcomes = [])
    (hdev : s'.device d = (s.device d).finish a .fail)
    (hown : s'.requestsOf (.device d) = s.requestsOf (.device d)) (hgrows : Grows s s') :
    ∃ u', (backendCalls (amqpBackendClass (cfg.kind d).nodeKind)
        (cfg.device channel exchange d)).run u [⟨a, t⟩] = some u' ∧
      Mirrors exchange s' d (calls ++ [⟨a, t⟩]) u' := by
  have hended : u.ended = false := h.ended.trans halive
  have hreached : methodReached u.backed.node a = none := by rw [h.node, hm]
  refine ⟨_, Machine.run_cons_eq_some.mpr ⟨_, backendCalls_unreached hended hreached, rfl⟩, ?_⟩
  have hcalled : BackedNode.called ⟨(nodeAction u.backed.node a .fail).node, u.backed.object⟩ =
      u.backed.called := by
    have hcall := nodeCall u.backed.node a .fail
    rw [hreached] at hcall
    cases hcall with
    | none _ hbackend =>
      unfold BackedNode.called
      rw [hbackend]
  have hpending : s'.pending d = s.pending d := by
    rw [System.pending, System.pending, hdev, hwait]
    rfl
  refine ⟨?_, ?_, fun _ => ?_, ?_, fun c hc => ?_, fun _ _ => ?_, fun w hw => ?_⟩
  · rw [hdev, h.node]
    rfl
  · rw [hdev]
    exact h.ended
  · rw [hdev, hcalled]
    exact h.source halive
  · rw [hpending]
    exact h.sent.mono hown
  · rcases List.mem_append.mp hc with hold | hlast
    · exact (h.consumed c hold).mono hgrows
    · exact Or.inl (List.mem_singleton.mp hlast ▸ ht)
  · rw [hdev, hcalled]
    exact h.idle hwait halive
  · rw [hdev] at hw
    cases hw

/-- The device in `s` and the object `b` of its call, which has begun. -/
structure Calling (s : System ι) (d : ι) (b : AmqpBackend) (m : BackendMethod) (start : Start) :
    Prop where
  alive : (s.device d).crashed = false
  free : CanOpen b m start
  source : b.source = (s.device d).source
  socket : (openedBy b m start).socketOpen = (s.device d).connected

theorem Calling.ends {ret : ChamgeReturn} (h : Calling s d b m start)
    (hdev : s'.device d = s.device d) :
    Ends (s'.finishCall cfg d (a, m) ret) d (s.device d).node a m ret (openedBy b m start) := by
  obtain ⟨halive, -, hsource, hsocket⟩ := h
  rw [← hdev] at halive hsource hsocket ⊢
  exact .of_finish halive hsource hsocket

/-- The device waits in `s'` for the answer to the request. -/
theorem Mirrors.waits {w : DeviceWait} {r : Request ι} (h : Mirrors exchange s d calls u)
    (hwait : (s'.device d).wait = some w)
    (hwaiting : Waiting s' d u.backed.called w r outcomes)
    (hnode : (s'.device d).node = (s.device d).node)
    (hcrashed : (s'.device d).crashed = (s.device d).crashed)
    (hsource : u.backed.called.source = (s'.device d).source)
    (hsent : SentInOrder exchange s' (.device d) u.published (some r)) (hgrows : Grows s s') :
    Mirrors exchange s' d calls u := by
  have hpending : s'.pending d = some r := by
    rw [System.pending, hwait]
    exact hwaiting.request
  refine ⟨h.node.trans hnode.symm, h.ended.trans hcrashed.symm, fun _ => hsource, ?_,
    fun c hc => (h.consumed c hc).mono hgrows, fun hnone => ?_, fun w' hw' => ?_⟩
  · rw [hpending]
    exact hsent
  · have hclash := hnone.symm.trans hwait
    cases hclash
  · obtain rfl := Option.some.inj (hwait.symm.trans hw')
    exact ⟨r, outcomes, hwaiting⟩

/-! ### Calls -/

/-- The request that goes out, as the system records it. -/
def Start.request (who : Caller ι) (c : ConnId ι) (target body : Bytes) :
    Start → Option (Request ι)
  | .refused | .noTarget => none
  | .unheard cid rq | .sent cid rq => some ⟨c, target, cid, rq, body, who⟩

omit [DecidableEq ι] in
theorem request_caller {who : Caller ι} {c : ConnId ι} {target body : Bytes} :
    ∀ r ∈ start.request who c target body, r.caller = who := by
  intro r hr
  cases start with
  | refused | noTarget => cases hr
  | unheard | sent =>
    obtain rfl := Option.mem_some_iff.mp hr
    rfl

omit [DecidableEq ι] in
theorem Start.message_eq (start : Start) (who : Caller ι) (c : ConnId ι)
    (exchange target body : Bytes) : start.message exchange target body =
      (start.request who c target body).map (Request.publication exchange) := by
  cases start <;> rfl

theorem startRequest_sends {who : Caller ι} {c : ConnId ι} {target body : Bytes} {w : Option ℕ}
    (h : s.startRequest who c target body start = some (s', w)) :
    s'.requests = s.requests ++ (start.request who c target body).toList ∧
      ((w = none ∧ ∀ cid rq, start ≠ .sent cid rq) ∨
        w = some s.requests.length ∧ ∃ cid rq, start = .sent cid rq) := by
  cases start with
  | refused =>
    obtain ⟨rfl, rfl⟩ := Prod.mk.inj (Option.some.inj h)
    exact ⟨(List.append_nil _).symm, Or.inl ⟨rfl, fun _ _ hc => by cases hc⟩⟩
  | noTarget =>
    simp only [System.startRequest] at h
    split_ifs at h
    obtain ⟨rfl, rfl⟩ := Prod.mk.inj (Option.some.inj h)
    exact ⟨(List.append_nil _).symm, Or.inl ⟨rfl, fun _ _ hc => by cases hc⟩⟩
  | unheard cid rq =>
    simp only [System.startRequest] at h
    split_ifs at h
    obtain ⟨rfl, rfl⟩ := Prod.mk.inj (Option.some.inj h)
    exact ⟨rfl, Or.inl ⟨rfl, fun _ _ hc => by cases hc⟩⟩
  | sent cid rq =>
    simp only [System.startRequest] at h
    split_ifs at h
    obtain ⟨rfl, rfl⟩ := Prod.mk.inj (Option.some.inj h)
    exact ⟨rfl, Or.inr ⟨rfl, cid, rq, rfl⟩⟩

theorem openFor_opens {method : BackendMethod} {c : ConnId ι}
    (h : s.openFor d method start = some (s', c)) :
    s'.device d = { s.device d with
      connected := (s.device d).connected || (method = .enroll && start.opensLink) } ∧
    (method = .enroll → start.opensLink = true → (s.device d).connected = false) := by
  cases method with
  | enroll =>
    cases start with
    | refused =>
      obtain ⟨rfl, -⟩ := Prod.mk.inj (Option.some.inj h)
      simp [Start.opensLink]
    | noTarget | unheard | sent =>
      simp only [System.openFor] at h
      split_ifs at h with hconn
      obtain ⟨rfl, -⟩ := Prod.mk.inj (Option.some.inj h)
      simp [Start.opensLink, Bool.eq_false_iff.mpr hconn]
  | delist | activate | deactivate =>
    obtain ⟨rfl, -⟩ := Prod.mk.inj (Option.some.inj h)
    simp

/-- A deactivate returns without a request. -/
theorem Mirrors.deactivated (h : Mirrors exchange s d calls u)
    (halive : (s.device d).crashed = false) (hwait : (s.device d).wait = none)
    (hm : methodReached (s.device d).node a = some .deactivate)
    (hsent : SentInOrder exchange s (.device d) u.published none)
    (hgrows : Grows s (s.setDevice d { (s.device d).finish a .ok with source := false })) :
    ∃ ks u', (backendCalls (amqpBackendClass (cfg.kind d).nodeKind)
        (cfg.device channel exchange d)).run u ks = some u' ∧
      Mirrors exchange (s.setDevice d { (s.device d).finish a .ok with source := false }) d
        (calls ++ ks) u' := by
  have hends : Ends (s.setDevice d { (s.device d).finish a .ok with source := false }) d
      (s.device d).node a .deactivate .ok { u.backed.called with source := false } :=
    .of_deactivate halive rfl (h.idle hwait halive)
  have hkept : SentInOrder exchange (s.setDevice d { (s.device d).finish a .ok with
      source := false }) (.device d) (u.published ++ (none : Option Publication).toList)
      none := by
    rw [Option.toList_none, List.append_nil]
    exact hsent.mono rfl
  obtain ⟨u', hrun, hmirrors⟩ := h.returned cfg channel (p := none)
    (t := methodTrace (cfg.uid d) .refused [] .ok) halive hm
    (by rw [amqpBackendMethod_eq]; rfl) hends hkept hgrows consumedBy_nil
  exact ⟨_, u', hrun, hmirrors⟩

theorem call_mirrors (hchannel : channel ≠ 0) (h : Mirrors exchange s d calls u)
    (hcall : s.call cfg d a start = some s') :
    ∃ ks u', (backendCalls (amqpBackendClass (cfg.kind d).nodeKind)
        (cfg.device channel exchange d)).run u ks = some u' ∧
      Mirrors exchange s' d (calls ++ ks) u' := by
  have hgrows : Grows s s' :=
    step_grows (show (system cfg).step s (.call d a start) = some s' from hcall)
  obtain ⟨hidle, hcases⟩ := call_cases hcall
  simp only [Device.idle, Bool.and_eq_true, Option.isNone_iff_eq_none, Bool.not_eq_true'] at hidle
  obtain ⟨hwait, halive⟩ := hidle
  have hnone : s.pending d = none := by
    rw [System.pending, hwait]
    rfl
  have hsent := h.sent
  rw [hnone] at hsent
  rcases hcases with ⟨hm, rfl⟩ | ⟨hm, rfl⟩ | ⟨method, s₁, c, s₂, w, hm, hne, hopen, hstart, hw⟩
  · obtain ⟨u', hrun, hmirrors⟩ := h.unreached cfg channel
      (t := methodTrace (cfg.uid d) .refused [] .ok) halive hwait hm rfl
      (setDevice_device_self ..) rfl hgrows
    exact ⟨_, u', hrun, hmirrors⟩
  · exact h.deactivated halive hwait hm hsent hgrows
  -- the device as the request goes out, and the one record that this adds
  obtain ⟨hopened, hfree⟩ := openFor_opens hopen
  obtain ⟨hreq, hsends⟩ := startRequest_sends hstart
  have hdev : s₂.device d = { s.device d with
      connected := (s.device d).connected || (method = .enroll && start.opensLink) } := by
    rw [← hopened, startRequest_frame hstart]
  rw [openFor_frame hopen] at hreq
  have hpublication : start.publication (cfg.device channel exchange d) (cfg.kind d) method =
      (start.request (.device d) c cfg.enrollQueue
        (requestBody (cfg.kind d) method (cfg.uid d))).map (Request.publication exchange) :=
    start.message_eq ..
  have hcan : CanOpen u.backed.called method start := by
    rw [CanOpen, h.idle hwait halive]
    exact hfree
  obtain ⟨hpending, hkept⟩ := hsent.append hreq request_caller
  have hnode : (s₂.device d).node = (s.device d).node := by rw [hdev]
  have hcalling : Calling s₂ d u.backed.called method start := by
    refine ⟨?_, hcan, ?_, ?_⟩ <;> rw [hdev]
    · exact halive
    · exact h.source halive
    · rw [openedBy, h.idle hwait halive]
  -- either the call is over before its wait, or nothing of it has returned yet
  rcases hsends with ⟨rfl, hunsent⟩ | ⟨rfl, cid, rq, rfl⟩
  · obtain ⟨-, rfl⟩ | ⟨k, hk, -⟩ := hw
    · have hends : Ends (s₂.finishCall cfg d (a, method) .fail) d (s.device d).node a method .fail
          (openedBy u.backed.called method start) := hnode ▸ hcalling.ends rfl
      obtain ⟨u', hrun, hmirrors⟩ := h.returned cfg channel
        (t := methodTrace (cfg.uid d) start [] .ok) halive hm
        (method_unsent hchannel hunsent hne hcan) hends
        (hpublication ▸ hkept.mono (requestsOf_eq finishCall_requests)) hgrows consumedBy_nil
      exact ⟨_, u', hrun, hmirrors⟩
    · cases hk
  · obtain ⟨hk, -⟩ | ⟨k, hk, rfl⟩ := hw
    · cases hk
    obtain rfl := Option.some.inj hk
    have hat : s₂.requests[s₁.requests.length]? =
        some ⟨c, cfg.enrollQueue, cid, rq, requestBody (cfg.kind d) method (cfg.uid d),
          .device d⟩ := by
      rw [hreq, openFor_frame hopen]
      exact List.getElem?_concat_length ..
    have hself : (s₂.setDevice d { s₂.device d with
        wait := some ⟨a, method, s₁.requests.length, 0⟩ }).device d = { s₂.device d with
        wait := some ⟨a, method, s₁.requests.length, 0⟩ } := setDevice_device_self ..
    refine ⟨[], u, rfl, ?_⟩
    rw [List.append_nil]
    refine h.waits (congrArg Device.wait hself) (r := ⟨c, cfg.enrollQueue, cid, rq, _, _⟩)
      ⟨?_, hat, rfl, fun hm => hcan hm rfl, ?_, rfl, rfl, consumed_nil⟩ ?_ ?_ ?_
      (hpending.mono rfl) hgrows
    all_goals rw [hself]
    · exact hcalling.alive
    · refine hcalling.socket.symm.trans ?_
      rw [openedBy, Start.opensLink, Bool.and_true]
    · exact hnode
    · exact hcalling.alive.trans halive.symm
    · exact hcalling.source

/-! ### Waits -/

theorem validate_cases {json : JsonParser} {response : Option Bytes} {shouldbe : Bytes}
    {ret : ChamgeReturn} (h : type.validate json response shouldbe = some ret) :
    ret = .ok ∨ ret = .fail := by
  have hvalid : ∀ text, validateResponse json text shouldbe = .ok ∨
      validateResponse json text shouldbe = .fail := by
    intro text
    unfold validateResponse
    cases json.loadFromData text with
    | error e => exact Or.inr rfl
    | ok root =>
      simp only
      split_ifs
      · exact Or.inl rfl
      · exact Or.inr rfl
  cases response with
  | some text =>
    obtain rfl := Option.some.inj h
    exact hvalid text
  | none =>
    cases type with
    | edge => exact Or.inr (Option.some.inj h).symm
    | hub => cases h

theorem judge_eq {json : JsonParser} {m : BackendMethod} {v : Option ChamgeReturn}
    (h : type.validate json x.response m.shouldbe = v) :
    judge type json m x = v.elim (.ended .nullString) .returned := by
  rw [judge, h]
  cases v with
  | none => rfl
  | some ret => rfl

theorem subscribe_ret {ret : ChamgeReturn} (h : s.subscribe cfg d fin = some (s', ret)) :
    ret = if fin.Subscribes (cfg.uid d) then .ok else .fail := by
  unfold System.subscribe at h
  unfold Finish.Subscribes
  cases fin with
  | failed =>
    obtain ⟨-, rfl⟩ := Prod.mk.inj (Option.some.inj h)
    simp
  | ok | partly =>
    simp only [reduceCtorEq, if_true, if_false] at h
    split_ifs at h with huid hopen hserver
    all_goals
      obtain ⟨-, rfl⟩ := Prod.mk.inj (Option.some.inj h)
      simp [*]

omit [DecidableEq ι] in
/-- An activate finds no source. -/
theorem Shaped.no_source (h : Shaped cfg s)
    (hm : methodReached (s.device d).node a = some .activate) : (s.device d).source = false := by
  by_contra hon
  have hcall := nodeCall (s.device d).node a .ok
  rw [hm] at hcall
  cases hcall with
  | activate hn =>
    have hclash := hn.symm.trans (h.source d (eq_true_of_ne_false hon))
    cases hclash

omit [DecidableEq ι] in
/-- The arbiter's answer is not an approval. -/
theorem Calling.denied {cid rq : Bytes} {e : CallEnd ChamgeReturn} (hchannel : channel ≠ 0)
    (hm : m ≠ .deactivate) (h : Calling s d b m (.sent cid rq))
    (hx : waitLoop (some 10) cid 0 outcomes = some x)
    (hjudge : judge (cfg.kind d) (cfg.device channel exchange d).json m x = e)
    (he : e ≠ .returned .ok) :
    amqpBackendMethod (cfg.kind d) m (cfg.device channel exchange d) b
        (methodTrace (cfg.uid d) (.sent cid rq) outcomes fin) =
      some ⟨e, (Start.sent cid rq).publication (cfg.device channel exchange d) (cfg.kind d) m,
        openedBy b m (.sent cid rq)⟩ := by
  have hask : askArbiter (cfg.kind d) (cfg.device channel exchange d) m
      (methodTrace (cfg.uid d) (.sent cid rq) outcomes fin) = some
        (e, (Start.sent cid rq).publication (cfg.device channel exchange d) (cfg.kind d) m) := by
    rw [← hjudge]
    exact askArbiter_sent hchannel hx
  exact method_denied hchannel hm h.free hask he

/-- An activate that the arbiter approves subscribes, and has the source iff that succeeds. -/
theorem Calling.activated {cid rq : Bytes} {ret : ChamgeReturn} (hchannel : channel ≠ 0)
    (h : Calling s d b .activate (.sent cid rq)) (hquiet : (s.device d).source = false)
    (hx : waitLoop (some 10) cid 0 outcomes = some x)
    (hok : judge (cfg.kind d) (cfg.device channel exchange d).json .activate x = .returned .ok)
    (hsub : s.subscribe cfg d fin = some (s', ret)) :
    ∃ b', amqpBackendMethod (cfg.kind d) .activate (cfg.device channel exchange d) b
        (methodTrace (cfg.uid d) (.sent cid rq) outcomes fin) = some ⟨.returned ret,
          (Start.sent cid rq).publication (cfg.device channel exchange d) (cfg.kind d) .activate,
          b'⟩ ∧
      Ends (s'.setDevice d { (s'.device d).finish a ret with source := ret = .ok }) d
        (s.device d).node a .activate ret b' := by
  obtain ⟨halive, -, hsource, hsocket⟩ := h
  rw [openedBy_of_ne (by decide)] at hsocket
  have hsame : s'.device d = s.device d := by rw [subscribe_frame hsub]
  have hends : ∀ b' : AmqpBackend, b'.source = decide (ret = .ok) →
      b'.socketOpen = b.socketOpen →
      Ends (s'.setDevice d { (s'.device d).finish a ret with source := ret = .ok }) d
        (s.device d).node a .activate ret b' := by
    intro b' hb hb'
    rw [← hsame] at halive hsocket ⊢
    exact .of_activate halive hb (hb'.trans hsocket)
  have hres : amqpBackendMethod (cfg.kind d) .activate (cfg.device channel exchange d) b
      (methodTrace (cfg.uid d) (.sent cid rq) outcomes fin) =
      some (if fin.Subscribes (cfg.uid d) then
        ⟨.returned .ok, (Start.sent cid rq).publication (cfg.device channel exchange d)
          (cfg.kind d) .activate, { b with activated := true, source := true }⟩
      else ⟨.returned .fail, (Start.sent cid rq).publication (cfg.device channel exchange d)
          (cfg.kind d) .activate, { b with activated := true }⟩) :=
    activate_granted hchannel hx hok
  by_cases hfin : fin.Subscribes (cfg.uid d)
  · obtain rfl : ret = .ok := (subscribe_ret hsub).trans (if_pos hfin)
    exact ⟨_, hres.trans (congrArg some (if_pos hfin)), hends _ rfl rfl⟩
  · obtain rfl : ret = .fail := (subscribe_ret hsub).trans (if_neg hfin)
    exact ⟨_, hres.trans (congrArg some (if_neg hfin)), hends _ (hsource.trans hquiet) rfl⟩

variable (exchange) in
/-- The end of a wait is the end of its method on the same outcomes. -/
theorem endWait_over {w : DeviceWait} {r : Request ι} (hchannel : channel ≠ 0)
    (hne : w.method ≠ .deactivate)
    (h : Calling s d b w.method (.sent r.correlationId r.replyQueue))
    (hquiet : w.method = .activate → (s.device d).source = false)
    (hx : waitLoop (some 10) r.correlationId 0 outcomes = some x)
    (hend : s.endWait cfg d w r x.response fin = some s') :
    ∃ res, amqpBackendMethod (cfg.kind d) w.method (cfg.device channel exchange d) b
        (methodTrace (cfg.uid d) (.sent r.correlationId r.replyQueue) outcomes fin) = some res ∧
      res.published = (Start.sent r.correlationId r.replyQueue).publication
        (cfg.device channel exchange d) (cfg.kind d) w.method ∧
      CallOver s' d (s.device d).node w.action w.method res := by
  have hclosed := hend
  rcases endWait_cases hend with ⟨hvalid, rfl⟩ | ⟨ret, hvalid, hret, rfl⟩ | ⟨hvalid, hcase⟩
  · -- the process ends with the call
    refine ⟨_, h.denied hchannel hne hx (judge_eq hvalid) (fun hc => by cases hc), rfl, ?_⟩
    constructor
    all_goals rw [setDevice_device_self]
    rfl
  · obtain rfl : ret = .fail := (validate_cases hvalid).resolve_left hret
    exact ⟨_, h.denied hchannel hne hx (judge_eq hvalid) (by decide), rfl, .returned (h.ends rfl)⟩
  have hok : judge (cfg.kind d) (cfg.device channel exchange d).json w.method x =
      .returned .ok := judge_eq hvalid
  rcases hcase with ⟨hmethod | hmethod, rfl⟩ | ⟨hmethod, -⟩ | ⟨hmethod, s₂, ret, hsub, rfl⟩
  · have hends : Ends (s.finishCall cfg d (w.action, w.method) .ok) d (s.device d).node w.action
        w.method .ok (openedBy b w.method (.sent r.correlationId r.replyQueue)) := h.ends rfl
    rw [hmethod] at h hok hends ⊢
    exact ⟨_, enroll_granted hchannel h.free hx hok, rfl, .returned hends⟩
  · exact absurd hmethod hne
  · -- the answer of the closing link is what the call returns
    obtain ⟨ret, hret⟩ : ∃ ret : ChamgeReturn, ret = if fin = .ok then .ok else .fail := ⟨_, rfl⟩
    obtain rfl : s' = (s.closeLink r.conn fin).finishCall cfg d (w.action, w.method) ret := by
      simp only [System.endWait, hvalid] at hclosed
      simp only [hmethod] at hclosed ⊢
      exact (Option.some.inj hclosed).symm.trans (by rw [hret])
    have hsame : (s.closeLink r.conn fin).device d = s.device d := by rw [closeLink_frame]
    have hends : Ends ((s.closeLink r.conn fin).finishCall cfg d (w.action, w.method) ret) d
        (s.device d).node w.action w.method ret
        (openedBy b w.method (.sent r.correlationId r.replyQueue)) := h.ends hsame
    rw [hmethod] at hok hends ⊢
    rw [openedBy_of_ne (by decide)] at hends
    exact ⟨_, delist_granted hchannel hx hok, rfl, .returned (hret ▸ hends)⟩
  · rw [hmethod] at h hok ⊢
    obtain ⟨b', hres, hends⟩ := h.activated hchannel (hquiet hmethod) hx hok hsub
    exact ⟨_, hres, rfl, .returned hends⟩

/-- The wait of a call ends with the outcome `x` of its loop. -/
theorem endWait_mirrors (hchannel : channel ≠ 0) (hshape : Shaped cfg s)
    (h : Mirrors exchange s d calls u) {w : DeviceWait} {r : Request ι}
    {outcomes : List ConsumeOutcome} (hw : (s.device d).wait = some w)
    (hwaiting : Waiting s d u.backed.called w r outcomes) {s₁ : System ι}
    (hdev : s₁.device d = s.device d) (hreq : s₁.requests = s.requests)
    (hgrows : Grows s s') {o : ConsumeOutcome} (hconsumed : Consumed s' r.conn (outcomes ++ [o]))
    (hx : waitLoop (some 10) r.correlationId w.retry [o] = some x)
    (hend : s₁.endWait cfg d w r x.response fin = some s') :
    ∃ ks u', (backendCalls (amqpBackendClass (cfg.kind d).nodeKind)
        (cfg.device channel exchange d)).run u ks = some u' ∧
      Mirrors exchange s' d (calls ++ ks) u' := by
  obtain ⟨hm, hne, r', hr', -, htarget, hbody⟩ := hshape.device d w hw
  obtain rfl := Option.some.inj (hwaiting.request.symm.trans hr')
  have hwhole : waitLoop (some 10) r.correlationId 0 (outcomes ++ [o]) = some x := by
    rw [waitLoop_resumed [o] hwaiting.loop, hwaiting.length, hx]
  have hcalling : Calling s₁ d u.backed.called w.method (.sent r.correlationId r.replyQueue) := by
    constructor
    · rw [hdev]
      exact hwaiting.alive
    · exact fun hm _ => hwaiting.free hm
    · rw [hdev]
      exact h.source hwaiting.alive
    · rw [hdev, hwaiting.socket, openedBy, Start.opensLink, Bool.and_true]
  have hquiet : w.method = .activate → (s₁.device d).source = false := fun hmethod =>
    hdev ▸ hshape.no_source (hmethod ▸ hm)
  obtain ⟨res, hres, hpublished, hover⟩ :=
    endWait_over exchange hchannel hne hcalling hquiet hwhole hend
  have hpublication : res.published = some (r.publication exchange) := by
    rw [hpublished, Request.publication, htarget, hbody]
    rfl
  have hsent : SentInOrder exchange s' (.device d) (u.published ++ res.published.toList) none := by
    have hpending := h.sent
    rw [System.pending, hw, Option.bind_some, hwaiting.request] at hpending
    rw [hpublication]
    refine hpending.settle.mono (requestsOf_eq ?_)
    rw [endWait_frame hend, hreq]
  have hmem : r ∈ s'.requests := hgrows.requests.subset (List.mem_of_getElem? hwaiting.request)
  obtain ⟨u', hrun, hmirrors⟩ := h.over cfg channel hwaiting.alive hm hres (hdev ▸ hover) hsent
    hgrows (Or.inr ⟨r, hmem, hwaiting.caller, rfl, rfl, hconsumed⟩)
  exact ⟨_, u', hrun, hmirrors⟩

/-- One more message is discarded. -/
theorem discard_mirrors (h : Mirrors exchange s d calls u) {w : DeviceWait} {r : Request ι}
    {outcomes : List ConsumeOutcome} (hw : (s.device d).wait = some w)
    (hwaiting : Waiting s d u.backed.called w r outcomes) {o : ConsumeOutcome}
    (hgo : waitLoop (some 10) r.correlationId w.retry [o] = none)
    (hdev : s'.device d = { s.device d with wait := some { w with retry := w.retry + 1 } })
    (hreq : s'.requests = s.requests) (hgrows : Grows s s')
    (hconsumed : Consumed s' r.conn (outcomes ++ [o])) : Mirrors exchange s' d calls u := by
  have hloop : waitLoop (some 10) r.correlationId 0 (outcomes ++ [o]) = none := by
    rw [waitLoop_resumed [o] hwaiting.loop, hwaiting.length, hgo]
  have hlength : (outcomes ++ [o]).length = w.retry + 1 := by
    rw [List.length_append, hwaiting.length, List.length_singleton]
  have hsent := h.sent
  rw [System.pending, hw, Option.bind_some, hwaiting.request] at hsent
  refine h.waits (congrArg Device.wait hdev) ⟨?_, hreq ▸ hwaiting.request, hwaiting.caller,
    hwaiting.free, ?_, hloop, hlength, hconsumed⟩ ?_ ?_ ?_ (hsent.mono (requestsOf_eq hreq)) hgrows
  all_goals rw [hdev]
  · exact hwaiting.alive
  · exact hwaiting.socket
  · exact h.source hwaiting.alive

theorem waitDevice_mirrors (hchannel : channel ≠ 0) (hshape : Shaped cfg s) (harrived : Arrived s)
    (h : Mirrors exchange s d calls u) {failed : Option AmqpRpcReply}
    (hstep : s.waitDevice cfg d failed fin = some s') :
    ∃ ks u', (backendCalls (amqpBackendClass (cfg.kind d).nodeKind)
        (cfg.device channel exchange d)).run u ks = some u' ∧
      Mirrors exchange s' d (calls ++ ks) u' := by
  have hgrows : Grows s s' :=
    step_grows (show (system cfg).step s (.waitDevice d failed fin) = some s' from hstep)
  obtain ⟨w, r, hw, hr, hcase⟩ := waitDevice_cases hstep
  obtain ⟨r', outcomes, hwaiting⟩ := h.waiting w hw
  obtain rfl := Option.some.inj (hr.symm.trans hwaiting.request)
  have hpass : ∀ {s₁ : System ι} {o : ConsumeOutcome}, s₁.device d = s.device d →
      s₁.requests = s.requests → (o.reply = .normal → ∃ q m, (r.conn, q, m) ∈ s.delivered ∧
        o.envelope = m.envelope) → s₁.waitPass cfg d w r o fin = some s' →
      ∃ ks u', (backendCalls (amqpBackendClass (cfg.kind d).nodeKind)
          (cfg.device channel exchange d)).run u ks = some u' ∧
        Mirrors exchange s' d (calls ++ ks) u' := by
    intro s₁ o hdev hreq horigin hpass
    have hconsumed : Consumed s' r.conn (outcomes ++ [o]) :=
      hwaiting.consumed.snoc hgrows horigin
    rcases waitPass_cases hpass with ⟨hgo, rfl⟩ | ⟨e, hx, hend⟩ | ⟨x, hx, hno, hend⟩
    · refine ⟨[], u, rfl, ?_⟩
      rw [List.append_nil]
      refine discard_mirrors h hw hwaiting hgo ?_ hreq hgrows hconsumed
      rw [setDevice_device_self, hdev]
    · exact endWait_mirrors hchannel hshape h hw hwaiting hdev hreq hgrows hconsumed hx hend
    · have hresponse : x.response = none := by
        cases x with
        | reply e => exact absurd rfl (hno e)
        | tooMany | timeout | failure => rfl
      rw [← hresponse] at hend
      exact endWait_mirrors hchannel hshape h hw hwaiting hdev hreq hgrows hconsumed hx hend
  rcases hcase with ⟨reply, -, hne, hwait⟩ | ⟨q, m, broker, -, hrec, hwait⟩
  · exact hpass rfl rfl (fun hnormal => absurd hnormal hne) hwait
  · refine hpass ?_ ?_ (fun _ => ?_) hwait
    · rw [logAccepted_frame]
      rfl
    · rw [logAccepted_frame]
      rfl
    · exact ⟨_, _, harrived _ _ _ (Broker.mem_receive hrec).1, rfl⟩

/-! ### Runs -/

theorem step_mirrors (hchannel : channel ≠ 0) (hshape : Shaped cfg s) (harrived : Arrived s)
    (h : Mirrors exchange s d calls u) (hstep : (system cfg).step s l = some s') :
    ∃ ks u', (backendCalls (amqpBackendClass (cfg.kind d).nodeKind)
        (cfg.device channel exchange d)).run u ks = some u' ∧
      Mirrors exchange s' d (calls ++ ks) u' := by
  by_cases hl : l.device = some d
  · cases l with
    | call d' a start =>
      obtain rfl := Option.some.inj hl
      exact call_mirrors hchannel h hstep
    | waitDevice d' failed fin =>
      obtain rfl := Option.some.inj hl
      exact waitDevice_mirrors hchannel hshape harrived h hstep
    | pumpDevice d' answer =>
      obtain rfl := Option.some.inj hl
      refine ⟨[], u, rfl, ?_⟩
      rw [List.append_nil]
      exact pumpDevice_mirrors h hstep
    | userCommand | waitArbiter | pumpArbiter | deliver | lose | post => cases hl
  · refine ⟨[], u, rfl, ?_⟩
    rw [List.append_nil]
    exact step_mirrors_ne h hl hstep

/-- Whatever the others, the broker and the network do, each device of the running system is
in a state that the methods of its node and backend come to. The methods publish what the
device has requested, failed delists included, and nothing else, in this order; the library's
calls bring each of them messages delivered on the connection of the request of this call. -/
theorem device_refines_methods (cfg : Config ι) (channel : Int) (hchannel : channel ≠ 0)
    (exchange : Bytes) (ls : List (Label ι)) (s : System ι)
    (hrun : (system cfg).run (.init cfg) ls = some s) (d : ι) :
    ∃ calls u, (backendCalls (amqpBackendClass (cfg.kind d).nodeKind)
        (cfg.device channel exchange d)).run (.init (cfg.kind d).nodeKind (cfg.uid d)) calls =
          some u ∧ Mirrors exchange s d calls u := by
  obtain ⟨calls, u, hcalls, -, -, h⟩ := Machine.run_simulated
    (N := backendCalls (amqpBackendClass (cfg.kind d).nodeKind) (cfg.device channel exchange d))
    (R := fun s calls u => Shaped cfg s ∧ Arrived s ∧ Mirrors exchange s d calls u)
    (fun s l s' calls u ⟨hshape, harrived, h⟩ hstep => by
      obtain ⟨ks, u', hks, h'⟩ := step_mirrors hchannel hshape harrived h hstep
      exact ⟨ks, u', hks, shaped_step hshape hstep, arrived_step harrived hstep, h'⟩)
    ⟨shaped_init, arrived_init, mirrors_init⟩ hrun
  exact ⟨calls, u, hcalls, h⟩

theorem device_refines_activated :
    ∃ s, (system loneEdge).run (.init loneEdge) activatedRun = some s ∧
      (s.device ()).node.state = .activated ∧
      ∃ calls u, (backendCalls (amqpBackendClass .edge)
          (loneEdge.device 1 (cstr "amq.direct") ())).run (.init .edge (loneEdge.uid ())) calls =
            some u ∧ Mirrors (cstr "amq.direct") s () calls u := by
  have hrun : ((system loneEdge).run (.init loneEdge) activatedRun).any (fun s =>
      (s.device ()).node.state = .activated) = true := by decide +kernel
  obtain ⟨s, hs, hstate⟩ := (Option.any_eq_true ..).mp hrun
  exact ⟨s, hs, of_decide_eq_true hstate, device_refines_methods loneEdge 1 (by decide)
    (cstr "amq.direct") activatedRun s hs ()⟩

end Chamge
