import Chamge.BackendClass
import Chamge.Lib.Machine

/-! A node over the mock backend beside one over the AMQP backend, through the same public
calls, with a broker that works and an arbiter that answers as expected. -/

namespace Chamge
open CString JsonGlib

/-- The library calls that the AMQP backend of this kind makes for `m` all succeed. -/
def MethodTrace.Works (kind : NodeKind) (cfg : DeviceConfig) (m : BackendMethod)
    (t : MethodTrace) : Prop :=
  match kind, m with
  | .edge, .deactivate | .hub, .deactivate => True
  | .edge, m | .hub, m => t.Succeeds cfg m
  | .arbiter, .enroll =>
    t.link.Opens ∧ (∃ name, t.subscribe.declareQueue = .ok name) ∧ t.subscribe.bind = .ok () ∧
      t.subscribe.consume = .ok ()
  | .arbiter, _ => True

inductive PublicCall
  | act (a : NodeAction)
  | userCommand (cmd : Bytes)
  | requestTargetUri

/-- The queue that a user command names is there, and its request is answered. -/
def PublicCall.Works (kind : NodeKind) (cfg : DeviceConfig) (t : MethodTrace) :
    PublicCall → Prop
  | act a => t.Works kind cfg a.method
  | userCommand cmd => t.link.Opens ∧ t.link.Closes ∧ t.rpc.Passes ∧
    getQueueName cfg.json cmd ≠ none ∧ ∃ e, t.exit = some (.reply e)
  | requestTargetUri => True

/-- A call with library calls that work. -/
structure WorkingCall (kind : NodeKind) (cfg : DeviceConfig) where
  call : PublicCall
  trace : MethodTrace
  works : call.Works kind cfg trace

/-- A return code (a firing has none), or whether there is a URI. -/
inductive CallAnswer
  | ret (ret : Option ChamgeReturn)
  | uri (present : Bool)

def CallEnd.map {ρ ρ' : Type} (f : ρ → ρ') : CallEnd ρ → CallEnd ρ'
  | returned ret => returned (f ret)
  | ended cause => ended cause

def BackedNode.call (klass : BackendClass) (cfg : DeviceConfig) (s : BackedNode)
    (call : PublicCall) (t : MethodTrace) : Option (CallEnd CallAnswer × BackedNode) :=
  match call with
  | .act a => (s.act klass cfg a t).map fun r => (r.ending.map .ret, r.after)
  | .userCommand cmd =>
    (s.userCommand klass cfg cmd t).map fun ending => (ending.map fun r => .ret (some r), s)
  | .requestTargetUri => some (.returned (.uri (s.requestTargetUri klass).isSome), s)

def ChamgeNode.canCall (n : ChamgeNode) : PublicCall → Bool
  | .act a => n.canAct a
  | .userCommand _ => true
  | .requestTargetUri => n.kind = .edge

/-- Both calls return, with one answer, and leave the nodes in one state. -/
def SameOutcome (mock amqp : Option (CallEnd CallAnswer × BackedNode)) : Prop :=
  ∃ answer m a, mock = some (.returned answer, m) ∧ amqp = some (.returned answer, a) ∧
    m.node.state = a.node.state

variable {kind : NodeKind} {cfg : DeviceConfig}

def mockCall (s : BackedNode) (l : WorkingCall kind cfg) :
    Option (CallEnd CallAnswer × BackedNode) := s.call (mockBackendClass kind) cfg l.call l.trace

def amqpCall (s : BackedNode) (l : WorkingCall kind cfg) :
    Option (CallEnd CallAnswer × BackedNode) := s.call (amqpBackendClass kind) cfg l.call l.trace

/-- The node over the mock, and the node over the AMQP backend. -/
def standIn (kind : NodeKind) (cfg : DeviceConfig) :
    Machine (BackedNode × BackedNode) (WorkingCall kind cfg) where
  step s l :=
    if s.1.node.canCall l.call ∧ s.2.node.canCall l.call then
      some (((mockCall s.1 l).map Prod.snd).getD s.1, ((amqpCall s.2 l).map Prod.snd).getD s.2)
    else none

/-- The AMQP backend of a device turns a request on channel 0 away, and does not activate a
device whose uid is empty. -/
def Served (kind : NodeKind) (cfg : DeviceConfig) (m : BackendMethod) : Prop :=
  kind = .arbiter ∨ m = .deactivate ∨ cfg.settings.channel ≠ 0 ∧ (m = .activate → cfg.uid ≠ [])

/-- The call is none that the mock answers otherwise. -/
def Covered (kind : NodeKind) (cfg : DeviceConfig) (s : BackedNode) : PublicCall → Prop
  | .act a => ∀ m, methodReached s.node a = some m → Served kind cfg m
  | .userCommand _ => s.node.state = .activated →
    kind = .edge ∨ kind = .arbiter ∧ cfg.settings.channel = 0
  | .requestTargetUri => True

/-- The nodes are in one state, with a backend object in the states that need one only. -/
structure InStep (s : BackedNode × BackedNode) : Prop where
  node : s.1.node = s.2.node
  backed : s.1.node.state = .null ↔ s.1.node.backend = none

variable {s : BackedNode × BackedNode} {n : ChamgeNode} {a : NodeAction} {m : BackendMethod}
  {t : MethodTrace} {b : AmqpBackend} {type : DeviceType}

/-! ### The methods of the AMQP backends -/

theorem amqpBackendMethod_works (h : t.Succeeds cfg m) (hm : m ≠ .deactivate)
    (hfree : m = .enroll → b.socketOpen = false) (hchannel : cfg.settings.channel ≠ 0)
    (huid : m = .activate → cfg.uid ≠ []) :
    ∃ r, amqpBackendMethod type m cfg b t = some r ∧ r.ending = .returned .ok := by
  obtain ⟨published, hask⟩ := askArbiter_granted type hchannel h.toGranted
  cases m with
  | enroll =>
    have hmethod : amqpBackendMethod type .enroll = amqpBackendEnroll type := by
      cases type <;> rfl
    rw [hmethod]
    exact amqpBackendEnroll_granted _ hchannel (hfree rfl) h.toGranted
  | delist =>
    have hmethod : amqpBackendMethod type .delist = amqpBackendDelist type := by
      cases type <;> rfl
    obtain ⟨hurl, hsocket, hlogin, hopen⟩ := h.opens
    have hclose : closeDelistLink t.link = .ok := by
      rcases closeDelistLink_eq t.link with ⟨hok, -⟩ | ⟨-, hnot⟩
      · exact hok
      · exact absurd h.closes hnot
    rw [hmethod]
    simp only [amqpBackendDelist, hurl, hsocket, hlogin, hopen, hask, hclose, Bool.true_eq_false,
      ne_eq, not_true, if_false, Option.map_some, Option.some.injEq, exists_eq_left']
  | activate =>
    have hmethod : amqpBackendMethod type .activate = amqpBackendActivate type := by
      cases type <;> rfl
    obtain ⟨name, hdeclare, -, hname⟩ := h.declared
    have hsub := amqpRpcSubscribe_ok hchannel (hname (huid rfl) ▸ hdeclare) h.bound h.consumed
    rw [hmethod]
    simp [amqpBackendActivate, hask, hsub]
  | deactivate => exact absurd rfl hm

theorem amqpRpcSubscribe_unnamed (channel : Int) {name : Bytes} {o : SubscribeOutcomes}
    (hdeclare : o.declareQueue = .ok name) (hname : name ≠ []) :
    (amqpRpcSubscribe channel [] o).1 = .fail := by
  simp only [amqpRpcSubscribe, hdeclare]
  split_ifs <;> rfl

theorem amqpBackendMethod_fails (h : t.Succeeds cfg m) (hm : m ≠ .deactivate)
    (hbad : cfg.settings.channel = 0 ∨ m = .activate ∧ cfg.uid = []) :
    ∃ r, amqpBackendMethod type m cfg b t = some r ∧ r.ending = .returned .fail := by
  have hrefused (hchannel : cfg.settings.channel = 0) :
      ∃ published, askArbiter type cfg m t = some (.returned .fail, published) :=
    askArbiter_refused fun hawaits => hawaits.1 hchannel
  cases m with
  | enroll =>
    have hmethod : amqpBackendMethod type .enroll = amqpBackendEnroll type := by
      cases type <;> rfl
    have hchannel := hbad.resolve_right fun hact => nomatch hact.1
    have hlogin : (amqpRpcLogin cfg.settings.channel b.socketOpen t.link).ret ≠ .ok :=
      fun hok => (amqpRpcLogin_ok_iff.mp hok).1 hchannel
    rw [hmethod]
    exact ⟨_, if_pos hlogin, rfl⟩
  | delist =>
    have hmethod : amqpBackendMethod type .delist = amqpBackendDelist type := by
      cases type <;> rfl
    obtain ⟨published, hask⟩ := hrefused (hbad.resolve_right fun hact => nomatch hact.1)
    obtain ⟨hurl, hsocket, hlogin, hopen⟩ := h.opens
    rw [hmethod]
    simp [amqpBackendDelist, hurl, hsocket, hlogin, hopen, hask]
  | activate =>
    have hmethod : amqpBackendMethod type .activate = amqpBackendActivate type := by
      cases type <;> rfl
    rw [hmethod]
    by_cases hchannel : cfg.settings.channel = 0
    · obtain ⟨published, hask⟩ := hrefused hchannel
      simp [amqpBackendActivate, hask]
    · obtain ⟨published, hask⟩ := askArbiter_granted type hchannel h.toGranted
      obtain ⟨name, hdeclare, hname, -⟩ := h.declared
      have hsub := amqpRpcSubscribe_unnamed cfg.settings.channel hdeclare hname
      rw [← (hbad.resolve_left hchannel).2] at hsub
      simp [amqpBackendActivate, hask, hsub]
  | deactivate => exact absurd rfl hm

/-! ### The slots -/

theorem mock_slots (kind : NodeKind) (m : BackendMethod) (cfg : DeviceConfig) (b : AmqpBackend)
    (t : MethodTrace) :
    (mockBackendClass kind).slots.call m cfg b t = some ⟨.returned .ok, none, b⟩ := by
  cases kind <;> cases m <;> rfl

theorem amqp_slots (type : DeviceType) (m : BackendMethod) :
    (amqpBackendClass type.nodeKind).slots.call m = amqpBackendMethod type m := by
  cases type <;> cases m <;> rfl

/-- The arbiter's backend does what the mock does. -/
theorem arbiter_slots (h : t.Works .arbiter cfg m) (hfree : m = .enroll → b.socketOpen = false) :
    ∃ r, (amqpBackendClass .arbiter).slots.call m cfg b t = some r ∧
      r.ending = .returned .ok := by
  cases m with
  | enroll =>
    obtain ⟨⟨hurl, hsocket, hlogin, hopen⟩, ⟨name, hdeclare⟩, hbind, hconsume⟩ := h
    have hfree := hfree rfl
    refine ⟨⟨.returned .ok, none, { b with socketOpen := true }⟩, ?_, rfl⟩
    have hslot : (amqpBackendClass .arbiter).slots.call .enroll =
      chamgeAmqpArbiterBackendEnroll := rfl
    rw [hslot, chamgeAmqpArbiterBackendEnroll]
    simp [hurl, hsocket, hlogin, hopen, hdeclare, hbind, hconsume, hfree]
  | delist | activate | deactivate => exact ⟨_, rfl, rfl⟩

theorem Works.succeeds (h : t.Works type.nodeKind cfg m) (hm : m ≠ .deactivate) :
    t.Succeeds cfg m := by
  cases type <;> cases m <;> first | exact h | exact absurd rfl hm

theorem kind_cases (kind : NodeKind) :
    kind = .arbiter ∨ ∃ type : DeviceType, kind = type.nodeKind := by
  cases kind with
  | edge => exact Or.inr ⟨.edge, rfl⟩
  | hub => exact Or.inr ⟨.hub, rfl⟩
  | arbiter => exact Or.inl rfl

theorem amqp_served (h : t.Works kind cfg m) (hfree : m = .enroll → b.socketOpen = false)
    (hserved : Served kind cfg m) :
    ∃ r, (amqpBackendClass kind).slots.call m cfg b t = some r ∧ r.ending = .returned .ok := by
  rcases kind_cases kind with rfl | ⟨type, rfl⟩
  · exact arbiter_slots h hfree
  have hnot : type.nodeKind ≠ .arbiter := by
    cases type <;> nofun
  rw [amqp_slots]
  by_cases hm : m = .deactivate
  · subst hm
    exact ⟨⟨.returned .ok, none, { b with source := false }⟩, by cases type <;> rfl, rfl⟩
  · obtain ⟨hchannel, huid⟩ := (hserved.resolve_left hnot).resolve_left hm
    exact amqpBackendMethod_works (Works.succeeds h hm) hm hfree hchannel huid

theorem amqp_unserved (h : t.Works kind cfg m) (hserved : ¬ Served kind cfg m) :
    ∃ r, (amqpBackendClass kind).slots.call m cfg b t = some r ∧ r.ending = .returned .fail := by
  simp only [Served, not_or, not_and_or, not_not, Classical.not_imp] at hserved
  obtain ⟨hkind, hm, hbad⟩ := hserved
  rcases kind_cases kind with rfl | ⟨type, rfl⟩
  · exact absurd rfl hkind
  rw [amqp_slots]
  exact amqpBackendMethod_fails (Works.succeeds h hm) hm hbad

/-! ### One call -/

theorem act_unreached (klass : BackendClass) (cfg : DeviceConfig) (t : MethodTrace)
    {s : BackedNode} (hm : methodReached s.node a = none) :
    s.act klass cfg a t = some ⟨.returned (nodeAction s.node a .fail).ret,
      (nodeAction s.node a .fail).node, s.object⟩ := by
  simp only [BackedNode.act, hm]

theorem act_reached {klass : BackendClass} {s : BackedNode} {r : MethodResult}
    {ret : ChamgeReturn} (hm : methodReached s.node a = some m)
    (hr : klass.slots.call m cfg s.called t = some r) (hret : r.ending = .returned ret) :
    s.act klass cfg a t = some ⟨.returned (nodeAction s.node a ret).ret,
      (nodeAction s.node a ret).node, r.backend⟩ := by
  simp only [BackedNode.act, hm, hr, Option.map_some, s.settle_returned a hret]

theorem method_eq (h : methodReached n a = some m) : a.method = m := by
  have hstep := actionStep n a .fail
  rw [methodReached_eq hstep] at h
  generalize nodeAction n a .fail = o at hstep h
  cases hstep <;> first | cases h; rfl | cases h

/-- The result of a method that is reached shows in the state. -/
theorem state_ok_ne_fail (hn : n.state = .null → n.backend = none)
    (hm : methodReached n a = some m) :
    (nodeAction n a .ok).node.state ≠ (nodeAction n a .fail).node.state := by
  have hok := nodeCall n a .ok
  have hfail := nodeCall n a .fail
  rw [hm] at hok hfail
  cases hok with
  | enroll _ _ hstate | activate _ _ _ hstate | deactivate _ _ _ hstate =>
    cases hfail with
    | _ => simp_all
  | delist hb _ hstate =>
    cases hfail with
    | delist _ _ hstate' =>
      rw [hstate, hstate']
      exact fun h => hb (hn h.symm)

theorem inStep_ok {m : BackendMethod}
    (hcall : NodeCall n .ok (some m) s.1.node) (hnode : s.1.node = s.2.node) : InStep s := by
  refine ⟨hnode, ?_⟩
  cases hcall with
  | enroll _ hbackend hstate => simp [hstate, hbackend]
  | activate _ hb hbackend hstate => simp [hstate, hbackend, hb]
  | deactivate _ hb hbackend hstate => simp [hstate, hbackend, hb]
  | delist _ hbackend hstate => simp [hstate, hbackend]

theorem act_stands_in (hs : InStep s) (hworks : t.Works kind cfg a.method) :
    Covered kind cfg s.1 (.act a) ∧ (∃ answer m' a',
      s.1.act (mockBackendClass kind) cfg a t = some ⟨.returned answer, m'⟩ ∧
        s.2.act (amqpBackendClass kind) cfg a t = some ⟨.returned answer, a'⟩ ∧
        InStep (m', a')) ∨
    ¬ Covered kind cfg s.1 (.act a) ∧ ∃ answer answer' m' a',
      s.1.act (mockBackendClass kind) cfg a t = some ⟨.returned answer, m'⟩ ∧
        s.2.act (amqpBackendClass kind) cfg a t = some ⟨.returned answer', a'⟩ ∧
        m'.node.state ≠ a'.node.state := by
  have hcall := nodeCall s.1.node a .fail
  cases hm : methodReached s.1.node a with
  | none =>
    rw [hm] at hcall
    have hmock := act_unreached (mockBackendClass kind) cfg t hm
    have hamqp := act_unreached (amqpBackendClass kind) cfg t (hs.node ▸ hm)
    rw [← hs.node] at hamqp
    refine Or.inl ⟨fun m hreached => ?_, _, _, _, hmock, hamqp, ?_⟩
    · rw [hm] at hreached
      cases hreached
    · cases hcall with
      | none hstate hbackend =>
        refine ⟨rfl, ?_⟩
        rw [hstate, hbackend]
        exact hs.backed
  | some m =>
    have hm' : methodReached s.2.node a = some m := hs.node ▸ hm
    obtain rfl := method_eq hm
    have hmock := act_reached hm (mock_slots kind a.method cfg s.1.called t) rfl
    by_cases hserved : Served kind cfg a.method
    · have hfree : a.method = .enroll → s.2.called.socketOpen = false := by
        intro henroll
        rw [hm, henroll] at hcall
        cases hcall with
        | enroll hn _ _ =>
          rw [BackedNode.called, ← hs.node, if_pos (hs.backed.mp hn)]
          rfl
      obtain ⟨r, hr, hret⟩ := amqp_served hworks hfree hserved
      have hamqp := act_reached hm' hr hret
      rw [← hs.node] at hamqp
      refine Or.inl ⟨fun m hreached => ?_, _, _, _, hmock, hamqp, ?_⟩
      · rw [hm] at hreached
        exact Option.some.inj hreached ▸ hserved
      · have hok := nodeCall s.1.node a .ok
        rw [hm] at hok
        exact inStep_ok hok rfl
    · obtain ⟨r, hr, hret⟩ := amqp_unserved (b := s.2.called) hworks hserved
      have hamqp := act_reached hm' hr hret
      rw [← hs.node] at hamqp
      refine Or.inr ⟨fun hcovered => hserved (hcovered _ hm), _, _, _, _, hmock, hamqp, ?_⟩
      exact state_ok_ne_fail hs.backed.mp hm

/-! ### The user command -/

theorem arbiter_command_refused (json : JsonParser) {settings : UserCommandSettings}
    (hchannel : settings.channel = 0) (cmd : Bytes) (hopens : t.link.Opens) :
    ∃ r, chamgeAmqpArbiterBackendUserCommand json settings cmd t.link t.rpc t.outcomes none =
      some r ∧ r.ret = .fail := by
  obtain ⟨hurl, hsocket, hlogin, hopen⟩ := hopens
  refine ⟨afterExchange t.link ⟨.fail, none, [], none⟩, ?_, (afterExchange_fail rfl).1⟩
  simp [chamgeAmqpArbiterBackendUserCommand, hurl, hsocket, hlogin, hopen, handleRpcUserCommand,
    hchannel]

theorem arbiter_command_ok {json : JsonParser} {settings : UserCommandSettings} {cmd : Bytes}
    {r : UserCommandResult} (hchannel : settings.channel ≠ 0) (hopens : t.link.Opens)
    (hcloses : t.link.Closes) (hpasses : t.rpc.Passes) (hto : getQueueName json cmd ≠ none)
    (hr : chamgeAmqpArbiterBackendUserCommand json settings cmd t.link t.rpc t.outcomes none =
      some r) : r.ret = .ok := by
  obtain ⟨hurl, hsocket, hlogin, hopen⟩ := hopens
  obtain ⟨target, hto⟩ := Option.ne_none_iff_exists'.mp hto
  obtain ⟨p, hp⟩ := rpcExchange_waits amqpGetRpcReplyString none
    ⟨settings.channel, cmd, some settings.exchange, none⟩ target none hpasses
  simp only [chamgeAmqpArbiterBackendUserCommand, hurl, hsocket, hlogin, hopen,
    handleRpcUserCommand, if_neg hchannel, hto, hp, Bool.true_eq_false, ne_eq, not_true,
    if_false, Option.map_map] at hr
  obtain ⟨x, -, rfl⟩ := Option.map_eq_some_iff.mp hr
  have hok : (afterWait amqpGetRpcReplyString none p x).ret = .ok := rfl
  rw [Function.comp_apply, afterExchange_ok hok, (closeLink_closes hcloses _).1, hok]

theorem command_stands_in {cmd : Bytes} (hs : InStep s)
    (hworks : (PublicCall.userCommand cmd).Works kind cfg t) :
    Covered kind cfg s.1 (.userCommand cmd) ∧ (∃ ret,
      s.1.userCommand (mockBackendClass kind) cfg cmd t = some (.returned ret) ∧
        s.2.userCommand (amqpBackendClass kind) cfg cmd t = some (.returned ret)) ∨
    ¬ Covered kind cfg s.1 (.userCommand cmd) ∧ ∀ ret,
      s.1.userCommand (mockBackendClass kind) cfg cmd t = some (.returned ret) →
        s.2.userCommand (amqpBackendClass kind) cfg cmd t ≠ some (.returned ret) := by
  obtain ⟨hopens, hcloses, hpasses, hto, -⟩ := hworks
  simp only [BackedNode.userCommand, ← hs.node, Covered]
  by_cases hactive : s.1.node.state = .activated
  · have hbackend : s.1.node.backend ≠ none := fun hnone => by
      have hnull := hs.backed.mpr hnone
      rw [hactive] at hnull
      cases hnull
    simp only [hactive, ne_eq, not_true, if_false, forall_const]
    cases kind with
    | edge => exact Or.inl ⟨Or.inl rfl, .ok, rfl, rfl⟩
    | hub =>
      refine Or.inr ⟨by simp, fun ret hmock => ?_⟩
      simp only [mockBackendClass, hbackend, if_false] at hmock
      cases hmock
    | arbiter =>
      simp only [mockBackendClass, amqpBackendClass, hbackend, if_false, arbiterBackendUserCommand,
        chamgeMockArbiterBackendClass, chamgeAmqpArbiterBackendClass]
      by_cases hchannel : cfg.settings.channel = 0
      · obtain ⟨r, hr, hfail⟩ := arbiter_command_refused cfg.json
          (show cfg.userCommandSettings.channel = 0 from hchannel) cmd hopens
        refine Or.inl ⟨Or.inr ⟨trivial, hchannel⟩, .fail, rfl, ?_⟩
        rw [hr, Option.map_some, hfail]
      · refine Or.inr ⟨by simp [hchannel], fun ret hmock hamqp => ?_⟩
        obtain ⟨r, hr, hret⟩ := Option.map_eq_some_iff.mp hamqp
        have hok := arbiter_command_ok (show cfg.userCommandSettings.channel ≠ 0 from hchannel)
          hopens hcloses hpasses hto hr
        have hfail : ret = .fail := by
          cases hmock
          rfl
        rw [hok, hfail] at hret
        cases hret
  · simp only [hactive, ne_eq, not_false_iff, if_true, false_imp_iff]
    exact Or.inl ⟨trivial, .fail, rfl, rfl⟩

/-! ### Runs -/

theorem call_stands_in (hs : InStep s) (l : WorkingCall kind cfg) :
    Covered kind cfg s.1 l.call ∧ (∃ answer m a, mockCall s.1 l = some (.returned answer, m) ∧
      amqpCall s.2 l = some (.returned answer, a) ∧ InStep (m, a)) ∨
    ¬ Covered kind cfg s.1 l.call ∧ ¬ SameOutcome (mockCall s.1 l) (amqpCall s.2 l) := by
  obtain ⟨call, t, hworks⟩ := l
  unfold mockCall amqpCall BackedNode.call
  cases call with
  | act a =>
    rcases act_stands_in hs hworks with ⟨hcovered, answer, m, a', hmock, hamqp, ht⟩ |
      ⟨hcovered, answer, answer', m, a', hmock, hamqp, hstate⟩
    · refine Or.inl ⟨hcovered, .ret answer, m, a', ?_, ?_, ht⟩
      · simp only [hmock, Option.map_some, CallEnd.map]
      · simp only [hamqp, Option.map_some, CallEnd.map]
    · refine Or.inr ⟨hcovered, ?_⟩
      simp only [hmock, hamqp, Option.map_some]
      rintro ⟨_, _, _, hm, ha, hsame⟩
      cases hm
      cases ha
      exact hstate hsame
  | userCommand cmd =>
    rcases command_stands_in hs hworks with ⟨hcovered, ret, hmock, hamqp⟩ | ⟨hcovered, hnot⟩
    · refine Or.inl ⟨hcovered, .ret (some ret), s.1, s.2, ?_, ?_, hs⟩
      · simp only [hmock, Option.map_some, CallEnd.map]
      · simp only [hamqp, Option.map_some, CallEnd.map]
    · refine Or.inr ⟨hcovered, ?_⟩
      rintro ⟨answer, m, a, hm, ha, -⟩
      obtain ⟨x, hx, hm⟩ := Option.map_eq_some_iff.mp hm
      obtain ⟨y, hy, ha⟩ := Option.map_eq_some_iff.mp ha
      cases x with
      | ended => cases hm
      | returned ret =>
        cases hm
        cases y with
        | ended => cases ha
        | returned ret' =>
          cases ha
          exact hnot _ hx hy
  | requestTargetUri =>
    refine Or.inl ⟨trivial, .uri (s.1.requestTargetUri (mockBackendClass kind)).isSome, s.1, s.2,
      rfl, ?_, hs⟩
    have huri : s.2.requestTargetUri (amqpBackendClass kind) =
        s.1.requestTargetUri (mockBackendClass kind) := by
      simp only [BackedNode.requestTargetUri, hs.node]
      cases kind <;> rfl
    rw [huri]

/-- In a run of public calls the mock stands in for the AMQP backend exactly when no call is
a user command on an activated hub or arbiter, nor one that the settings of the AMQP backend
make it turn away. -/
theorem mock_stands_in_iff (kind : NodeKind) (cfg : DeviceConfig)
    (ls : List (WorkingCall kind cfg)) :
    (standIn kind cfg).Along (fun s l => SameOutcome (mockCall s.1 l) (amqpCall s.2 l))
        (.init kind cfg.uid, .init kind cfg.uid) ls ↔
      (standIn kind cfg).Along (fun s l => Covered kind cfg s.1 l.call)
        (.init kind cfg.uid, .init kind cfg.uid) ls := by
  apply Machine.along_congr_of_invariant (I := InStep)
  · intro s l s' hs hsame hstep
    simp only [standIn, Option.ite_none_right_eq_some, Option.some.injEq] at hstep
    rcases call_stands_in hs l with ⟨-, answer, m, a, hmock, hamqp, ht⟩ | ⟨-, hnot⟩
    · rw [← hstep.2, hmock, hamqp]
      exact ht
    · exact absurd hsame hnot
  · intro s l hs
    rcases call_stands_in hs l with ⟨hcovered, answer, m, a, hmock, hamqp, ht⟩ | ⟨hcovered, hnot⟩
    · exact iff_of_true ⟨answer, m, a, hmock, hamqp, congrArg ChamgeNode.state ht.node⟩ hcovered
    · exact iff_of_false hnot hcovered
  · exact ⟨rfl, iff_of_true rfl rfl⟩

def lifecycleCall (a : NodeAction) : WorkingCall .hub plainConfig where
  call := .act a
  trace := workingTrace [expectedAnswer a.method]
  works := by
    have h := workingTrace_succeeds a.method
    cases a <;> first | exact h | trivial

def pingCommand : WorkingCall .hub plainConfig where
  call := .userCommand (objectText [(cstr "method", cstr "getUrl"), (cstr "to", cstr "edge-1")])
  trace := workingTrace [expectedAnswer .enroll]
  works := ⟨⟨rfl, rfl, rfl, rfl⟩, ⟨rfl, rfl, rfl⟩, ⟨rfl, ⟨_, rfl⟩, rfl, rfl⟩, by decide +kernel,
    (expectedAnswer .enroll).envelope, by decide +kernel⟩

/-- An activated hub over the mock calls a method that its class does not have. -/
theorem mock_hub_calls_unset_method : ¬ (standIn .hub plainConfig).Along
    (fun s l => SameOutcome (mockCall s.1 l) (amqpCall s.2 l))
    (.init .hub plainConfig.uid, .init .hub plainConfig.uid)
    [lifecycleCall (.enroll none), lifecycleCall .activate, pingCommand] := by
  intro h
  obtain ⟨answer, m, -, hmock, -⟩ := (((h _ rfl).2 _ rfl).2 _ rfl).1
  cases hmock

end Chamge
