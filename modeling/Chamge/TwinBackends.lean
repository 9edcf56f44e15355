import Chamge.AmqpDevice
import Chamge.Lib.Machine

/-! The edge's and the hub's backend side by side, through the same calls on the same
traces. -/

namespace Chamge
open CString JsonGlib

/-- The same message with the hub's names of the device type and of its id. -/
def Publication.renamed (p : Publication) (cfg : DeviceConfig) (m : BackendMethod) :
    Publication := { p with body := requestBody .hub m cfg.uid }

/-- Both calls are kept waiting, or both return with one code, the hub having published the
edge's message renamed; no `NULL` is read as a string. -/
inductive CallsAlike (cfg : DeviceConfig) (m : BackendMethod) :
    Option MethodResult → Option MethodResult → Prop
  | waiting : CallsAlike cfg m none none
  | returned {ret : ChamgeReturn} {published : Option Publication} {b b' : AmqpBackend}
    (hbody : ∀ p ∈ published, p.body = requestBody .edge m cfg.uid) :
    CallsAlike cfg m (some ⟨.returned ret, published, b⟩)
      (some ⟨.returned ret, published.map fun p => p.renamed cfg m, b'⟩)

/-- The two backends, called in step with each other. -/
def twinBackends (cfg : DeviceConfig) :
    Machine (AmqpBackend × AmqpBackend) (BackendMethod × MethodTrace) where
  step s l :=
    let edge := amqpBackendMethod .edge l.1 cfg s.1 l.2
    let hub := amqpBackendMethod .hub l.1 cfg s.2 l.2
    if edge.isNone ∧ hub.isNone then none
    else some ((edge.map MethodResult.backend).getD s.1, (hub.map MethodResult.backend).getD s.2)

/-- The method sends its request and gets to the wait loop. -/
def MethodTrace.Awaits (cfg : DeviceConfig) (b : AmqpBackend) (m : BackendMethod)
    (t : MethodTrace) : Prop :=
  AwaitsReply cfg t ∧
    match m with
    | .enroll => b.socketOpen = false ∧ t.link.Opens
    | .activate => True
    | .delist => t.link.Opens
    | .deactivate => False

/-- The wait loop, if it is left, is left with a text. -/
def MethodTrace.Answered (t : MethodTrace) : Prop :=
  ∀ x, t.exit = some x → ∃ e, x = .reply e ∧ e.body ≠ []

variable {cfg : DeviceConfig} {m : BackendMethod} {t : MethodTrace} {b : AmqpBackend}

/-! ### The request -/

def RpcResult.renamed (r : RpcResult) (cfg : DeviceConfig) (m : BackendMethod) : RpcResult :=
  { r with published := r.published.map fun p => p.renamed cfg m }

theorem rpcExchange_renamed (text : AmqpRpcReply → Bytes) (limit : Option ℕ) (target : Bytes)
    (p : RpcPrelude) (os : List ConsumeOutcome) (response : Option Bytes) :
    rpcExchange text limit (requestArgs .hub cfg m) target p os response =
      (rpcExchange text limit (requestArgs .edge cfg m) target p os response).map
        fun r => r.renamed cfg m := by
  unfold rpcExchange
  cases p.queueCheck with
  | error r => rfl
  | ok u => cases p.replyQueue with
    | error r => rfl
    | ok q => cases p.publish with
      | error why => rfl
      | ok u => cases p.consume with
        | error r => rfl
        | ok u => cases waitLoop limit p.correlationId 0 os <;> rfl

theorem amqpRpcRequest_renamed (p : RpcPrelude) (os : List ConsumeOutcome) :
    amqpRpcRequest (requestArgs .hub cfg m) p os none =
      (amqpRpcRequest (requestArgs .edge cfg m) p os none).map fun r => r.renamed cfg m := by
  by_cases hchannel : cfg.settings.channel = 0
  · have hargs (type : DeviceType) : (requestArgs type cfg m).channel = 0 := hchannel
    rw [amqpRpcRequest, amqpRpcRequest, if_pos (hargs .hub), if_pos (hargs .edge)]
    rfl
  · have hargs (type : DeviceType) : (requestArgs type cfg m).channel ≠ 0 := hchannel
    rw [amqpRpcRequest, amqpRpcRequest, if_neg (hargs .hub), if_neg (hargs .edge)]
    exact rpcExchange_renamed ..

theorem amqpRpcRequest_body {args : RpcArgs} {p : RpcPrelude} {os : List ConsumeOutcome}
    {r : RpcResult} (h : amqpRpcRequest args p os none = some r) :
    ∀ q ∈ r.published, q.body = args.request := by
  unfold amqpRpcRequest at h
  split_ifs at h
  · cases h
    nofun
  cases hname : args.queueName <;> simp only [hname] at h
  · cases h
    nofun
  · exact fun q hq => (rpcExchange_published h q hq).2

/-! ### What the two make of the response -/

/-- Each method is the same for both backends but for the request. -/
theorem askArbiter_edge (m : BackendMethod) (t : MethodTrace) :
    askArbiter .edge cfg m t = none ∨ ∃ ret published,
      askArbiter .edge cfg m t = some (.returned ret, published) ∧
        ∀ p ∈ published, p.body = requestBody .edge m cfg.uid := by
  unfold askArbiter
  cases hr : amqpRpcRequest (requestArgs .edge cfg m) t.rpc t.outcomes none with
  | none => exact Or.inl rfl
  | some r =>
    refine Or.inr ?_
    have hbody : ∀ p ∈ r.published, p.body = requestBody .edge m cfg.uid :=
      amqpRpcRequest_body hr
    rw [Option.map_some]
    split_ifs with hret
    · exact ⟨_, _, rfl, hbody⟩
    · cases hresponse : r.response with
      | none => exact ⟨.fail, _, rfl, hbody⟩
      | some text => exact ⟨_, _, rfl, hbody⟩

theorem answered_request {type : DeviceType} {r : RpcResult}
    (hr : amqpRpcRequest (requestArgs type cfg m) t.rpc t.outcomes none = some r)
    (hret : r.ret = .ok) :
    AwaitsReply cfg t ∧ ∃ x, t.exit = some x ∧ r.response = x.response := by
  by_cases h : AwaitsReply cfg t
  · refine ⟨h, ?_⟩
    have hargs : RpcCopy.edge.ArgsOk (requestArgs type cfg m) :=
      ⟨h.1, Or.inr (Option.some_ne_none _)⟩
    obtain ⟨p, hp⟩ := call_waits .edge cfg.json (requestArgs type cfg m) none hargs
      (Option.some_ne_none _) h.2
    obtain ⟨x, hx, rfl⟩ := Option.map_eq_some_iff.mp ((hp t.outcomes).symm.trans hr)
    refine ⟨x, hx, ?_⟩
    cases x <;> rfl
  · obtain ⟨r', hr', hfail, -⟩ := call_refused .edge cfg.json (requestArgs type cfg m) t.rpc none
      fun hcall => h ⟨hcall.1.1, hcall.2.2⟩
    obtain rfl : r' = r := Option.some.inj ((hr' t.outcomes).symm.trans hr)
    rw [hfail] at hret
    cases hret

/-- A `NULL` response is what tells the two apart. -/
theorem askArbiter_hub (h : AwaitsReply cfg t → t.Answered) :
    askArbiter .hub cfg m t =
      (askArbiter .edge cfg m t).map fun a => (a.1, a.2.map fun p => p.renamed cfg m) := by
  unfold askArbiter
  rw [amqpRpcRequest_renamed, Option.map_map, Option.map_map]
  cases hr : amqpRpcRequest (requestArgs .edge cfg m) t.rpc t.outcomes none with
  | none => rfl
  | some r =>
    simp only [Option.map_some, Function.comp_apply, RpcResult.renamed]
    by_cases hret : r.ret = .ok
    · obtain ⟨hawaits, x, hx, hresponse⟩ := answered_request hr hret
      obtain ⟨e, rfl, hbody⟩ := h hawaits x hx
      have htext : r.response = some (text e.body) := by
        rw [hresponse, WaitExit.response, strndup, if_neg hbody]
      simp only [hret, htext, ne_eq, not_true, if_false]
      rfl
    · simp only [ne_eq, hret, not_false_iff, if_true]

/-- The edge turns the missing text away, and the hub reads it. -/
theorem askArbiter_unanswered (h : AwaitsReply cfg t) (hexit : ¬ t.Answered) :
    (∃ p, askArbiter .edge cfg m t = some (.returned .fail, p)) ∧
      ∃ p, askArbiter .hub cfg m t = some (.ended .nullString, p) := by
  simp only [MethodTrace.Answered, not_forall, not_exists, not_and, not_not] at hexit
  obtain ⟨x, hx, hnot⟩ := hexit
  have hnone : x.response = none := by
    cases x with
    | reply e => exact (strndup_eq_none_iff e.body).mpr (hnot e rfl)
    | _ => rfl
  obtain ⟨p, hp⟩ := askArbiter_waits .edge m h
  obtain ⟨q, hq⟩ := askArbiter_waits .hub m h
  rw [hx, Option.map_some, judge, hnone] at hp hq
  exact ⟨⟨p, hp⟩, q, hq⟩

/-! ### The methods -/

/-- What is left of a method after its request: it fails with it, and ends where it ends. -/
structure Sequel where
  ending : CallEnd ChamgeReturn → CallEnd ChamgeReturn
  backend : CallEnd ChamgeReturn → AmqpBackend
  fail : ending (.returned .fail) = .returned .fail
  returned : ∀ ret, ∃ ret', ending (.returned ret) = .returned ret'
  ended : ∀ cause, ending (.ended cause) = .ended cause

def Sequel.result (q : Sequel) (a : CallEnd ChamgeReturn × Option Publication) : MethodResult :=
  ⟨q.ending a.1, a.2, q.backend a.1⟩

/-- A method turns back before its request, or is the request with a sequel; either way the
type of the device has its part in the request only. -/
inductive MethodShape (cfg : DeviceConfig) (b : AmqpBackend) (m : BackendMethod)
    (t : MethodTrace) : Prop
  | early {ret : ChamgeReturn} {b' : AmqpBackend} (hawaits : ¬ t.Awaits cfg b m)
    (h : ∀ type, amqpBackendMethod type m cfg b t = some ⟨.returned ret, none, b'⟩)
  | request {q : Sequel} (hawaits : t.Awaits cfg b m ↔ AwaitsReply cfg t)
    (h : ∀ type, amqpBackendMethod type m cfg b t = (askArbiter type cfg m t).map q.result)

def Sequel.enroll (b : AmqpBackend) : Sequel where
  ending := id
  backend _ := b
  fail := rfl
  returned ret := ⟨ret, rfl⟩
  ended _ := rfl

def Sequel.activate (cfg : DeviceConfig) (b : AmqpBackend) (s : SubscribeOutcomes) : Sequel where
  ending e :=
    if e ≠ .returned .ok then e
    else if (amqpRpcSubscribe cfg.settings.channel cfg.uid s).1 = .fail then .returned .fail
    else .returned .ok
  backend e :=
    if e ≠ .returned .ok then b
    else if (amqpRpcSubscribe cfg.settings.channel cfg.uid s).1 = .fail then
      { b with activated := true }
    else { b with activated := true, source := true }
  fail := rfl
  returned ret := by
    split_ifs
    · exact ⟨ret, rfl⟩
    · exact ⟨.fail, rfl⟩
    · exact ⟨.ok, rfl⟩
  ended _ := rfl

def Sequel.delist (b : AmqpBackend) (link : LinkOutcomes) : Sequel where
  ending e := if e ≠ .returned .ok then e else .returned (closeDelistLink link)
  backend _ := b
  fail := rfl
  returned ret := by
    split_ifs
    · exact ⟨ret, rfl⟩
    · exact ⟨_, rfl⟩
  ended _ := rfl

theorem enroll_shape (cfg : DeviceConfig) (b : AmqpBackend) (t : MethodTrace) :
    MethodShape cfg b .enroll t := by
  have hmethod (type : DeviceType) :
      amqpBackendMethod type .enroll cfg b t = amqpBackendEnroll type cfg b t := by
    cases type <;> rfl
  let login := amqpRpcLogin cfg.settings.channel b.socketOpen t.link
  let b' := { b with socketOpen := login.socketOpen && (b.socketOpen || !t.socketClosed) }
  by_cases hlogin : login.ret = .ok
  · have hopens := amqpRpcLogin_ok_iff.mp hlogin
    refine .request (q := .enroll b') ⟨And.left, fun h => ⟨h, hopens.2⟩⟩ fun type => ?_
    rw [hmethod, amqpBackendEnroll, if_neg (not_not.mpr hlogin)]
    rfl
  · have hawaits : ¬ t.Awaits cfg b .enroll := fun h =>
      hlogin (amqpRpcLogin_ok_iff.mpr ⟨h.1.1, h.2⟩)
    have hearly : ∀ type, amqpBackendMethod type .enroll cfg b t =
        some ⟨.returned .fail, none, b'⟩ := fun type => by
      rw [hmethod, amqpBackendEnroll, if_pos hlogin]
    exact .early hawaits hearly

theorem activate_shape (cfg : DeviceConfig) (b : AmqpBackend) (t : MethodTrace) :
    MethodShape cfg b .activate t := by
  have hmethod (type : DeviceType) :
      amqpBackendMethod type .activate cfg b t = amqpBackendActivate type cfg b t := by
    cases type <;> rfl
  refine .request (q := .activate cfg { b with socketOpen := b.socketOpen && !t.socketClosed }
    t.subscribe) ⟨And.left, fun h => ⟨h, trivial⟩⟩ fun type => ?_
  rw [hmethod, amqpBackendActivate]
  congr 1
  funext a
  simp only [Sequel.result, Sequel.activate]
  split_ifs <;> rfl

theorem delist_shape (cfg : DeviceConfig) (b : AmqpBackend) (t : MethodTrace) :
    MethodShape cfg b .delist t := by
  have hmethod (type : DeviceType) :
      amqpBackendMethod type .delist cfg b t = amqpBackendDelist type cfg b t := by
    cases type <;> rfl
  by_cases hopens : t.link.Opens
  · obtain ⟨hurl, hsocket, hlogin, hchannel⟩ := hopens
    refine .request (q := .delist b t.link)
      ⟨And.left, fun h => ⟨h, hurl, hsocket, hlogin, hchannel⟩⟩ fun type => ?_
    simp only [hmethod, amqpBackendDelist, hurl, hsocket, hlogin, hchannel, Bool.true_eq_false,
      ne_eq, not_true, if_false]
    congr 1
    funext a
    by_cases hok : a.1 = .returned .ok
    · simp only [Sequel.result, Sequel.delist, hok, ne_eq, not_true, if_false]
    · simp only [Sequel.result, Sequel.delist, hok, ne_eq, not_false_iff, if_true]
  · have hearly : ∀ type, amqpBackendMethod type .delist cfg b t =
        some ⟨.returned .fail, none, b⟩ := fun type => by
      rw [hmethod, amqpBackendDelist]
      split_ifs with hurl hsocket hlogin
      · rfl
      · rfl
      · rfl
      · cases hchannel : t.link.channelOpen with
        | error r => rfl
        | ok u =>
          simp only [Bool.not_eq_false, ne_eq, not_not] at hurl hsocket hlogin
          exact absurd ⟨hurl, hsocket, hlogin, hchannel⟩ hopens
    exact .early (fun h => hopens h.2) hearly

theorem methodShape (cfg : DeviceConfig) (b : AmqpBackend) (m : BackendMethod)
    (t : MethodTrace) : MethodShape cfg b m t := by
  cases m with
  | enroll => exact enroll_shape cfg b t
  | delist => exact delist_shape cfg b t
  | activate => exact activate_shape cfg b t
  | deactivate =>
    have hmethod (type : DeviceType) : amqpBackendMethod type .deactivate cfg b t =
        some ⟨.returned .ok, none, { b with source := false }⟩ := by
      cases type <;> rfl
    exact .early (fun h => h.2) hmethod

/-! ### In step -/

theorem methods_alike (h : t.Awaits cfg b m → t.Answered) :
    CallsAlike cfg m (amqpBackendMethod .edge m cfg b t) (amqpBackendMethod .hub m cfg b t) ∧
      (amqpBackendMethod .hub m cfg b t).map MethodResult.backend =
        (amqpBackendMethod .edge m cfg b t).map MethodResult.backend := by
  cases methodShape cfg b m t with
  | early hawaits heq =>
    rw [heq, heq]
    exact ⟨.returned nofun, rfl⟩
  | @request q hawaits heq =>
    rw [heq, heq, askArbiter_hub fun hrequest => h (hawaits.mpr hrequest)]
    rcases askArbiter_edge m t with hnone | ⟨ret, published, hsome, hbody⟩
    · rw [hnone]
      exact ⟨.waiting, rfl⟩
    · obtain ⟨ret', hret⟩ := q.returned ret
      rw [hsome]
      simp only [Option.map_some, Sequel.result, hret]
      exact ⟨.returned hbody, trivial⟩

theorem not_methods_alike (h : t.Awaits cfg b m) (hexit : ¬ t.Answered) :
    ¬ CallsAlike cfg m (amqpBackendMethod .edge m cfg b t)
      (amqpBackendMethod .hub m cfg b t) := by
  cases methodShape cfg b m t with
  | early hawaits => exact absurd h hawaits
  | @request q hawaits heq =>
    obtain ⟨⟨p, hedge⟩, p', hhub⟩ := askArbiter_unanswered (m := m) (hawaits.mp h) hexit
    rw [heq, heq, hedge, hhub]
    simp only [Option.map_some, Sequel.result, q.fail, q.ended]
    intro halike
    cases halike

theorem methods_alike_iff :
    CallsAlike cfg m (amqpBackendMethod .edge m cfg b t) (amqpBackendMethod .hub m cfg b t) ↔
      (t.Awaits cfg b m → t.Answered) := by
  refine ⟨fun halike hawaits => ?_, fun h => (methods_alike h).1⟩
  by_contra hexit
  exact not_methods_alike hawaits hexit halike

/-- Called in step, the two backends do the same exactly when every request that gets to its
wait loop is answered with a text. -/
theorem backends_alike_iff (cfg : DeviceConfig) (ls : List (BackendMethod × MethodTrace)) :
    (twinBackends cfg).Along (fun s l => CallsAlike cfg l.1
        (amqpBackendMethod .edge l.1 cfg s.1 l.2)
        (amqpBackendMethod .hub l.1 cfg s.2 l.2)) (.new, .new) ls ↔
      (twinBackends cfg).Along (fun s l => l.2.Awaits cfg s.1 l.1 → l.2.Answered)
        (.new, .new) ls := by
  apply Machine.along_congr_of_invariant (I := fun s => s.1 = s.2)
  · intro s l s' hs halike hstep
    simp only [twinBackends, Option.ite_none_left_eq_some, Option.some.injEq] at hstep
    rw [← hs] at halike hstep
    rw [← hstep.2, (methods_alike (methods_alike_iff.mp halike)).2]
  · intro s l hs
    rw [← hs]
    exact methods_alike_iff
  · rfl

/-- An enroll that times out: the edge fails it, and the hub hands `NULL` to `strlen`. -/
theorem silent_arbiter_separates :
    ¬ (twinBackends plainConfig).Along (fun s l => CallsAlike plainConfig l.1
        (amqpBackendMethod .edge l.1 plainConfig s.1 l.2)
        (amqpBackendMethod .hub l.1 plainConfig s.2 l.2)) (.new, .new)
      [(.enroll, workingTrace [timedOut])] := by
  intro h
  have halike := (h _ rfl).1
  have hhub : (amqpBackendMethod .hub .enroll plainConfig .new (workingTrace [timedOut])).map
      MethodResult.ending = some (.ended .nullString) := by decide +kernel
  obtain ⟨r, hr, hending⟩ := Option.map_eq_some_iff.mp hhub
  simp only [hr] at halike
  cases halike
  cases hending

end Chamge
