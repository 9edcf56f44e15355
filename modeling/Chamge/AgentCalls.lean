import Chamge.Dispatch
import Chamge.MockBackend

/-! The arbiter's agent under D-Bus calls: its handlers, two of which end the process where
the node operation fails, and the messages of the devices in between. -/

namespace Chamge
open CString JsonGlib

/-! ### The handlers -/

/-- A handler returns, or ends the process: by a `g_error` of its own, or further down. -/
inductive AgentEnd
  | returned (ret : ChamgeReturn)
  | fatal (message : Bytes)
  | ended (cause : ProcessEnd)
  deriving DecidableEq

structure AgentResult where
  ending : AgentEnd
  arbiter : BackedNode

/-- A node operation, and what the handler makes of a result other than `CHAMGE_RETURN_OK`. -/
def nodeOperation (klass : BackendClass) (cfg : DeviceConfig) (s : BackedNode) (a : NodeAction)
    (failed : ChamgeReturn → AgentEnd) (t : MethodTrace) : Option AgentResult :=
  (s.act klass cfg a t).map fun r =>
    match r.ending with
    | .ended cause => ⟨.ended cause, r.after⟩
    | .returned answer =>
      -- only a timer firing, which no handler makes, has no answer
      let ret := answer.getD .fail
      ⟨if ret = .ok then .returned ret else failed ret, r.after⟩

def chamgeArbiterAgentEnroll (klass : BackendClass) (cfg : DeviceConfig) (s : BackedNode)
    (t : MethodTrace) : Option AgentResult :=
  if s.node.state ≠ .null then some ⟨.returned .fail, s⟩
  else nodeOperation klass cfg s (.enroll none)
    (fun _ => .fatal (cstr "arbiter enroll failure")) t

def chamgeArbiterAgentActivate (klass : BackendClass) (cfg : DeviceConfig) (s : BackedNode)
    (t : MethodTrace) : Option AgentResult :=
  if s.node.state ≠ .enrolled then some ⟨.returned .fail, s⟩
  else nodeOperation klass cfg s .activate
    (fun _ => .fatal (cstr "arbiter activate failure")) t

def chamgeArbiterAgentDeactivate (klass : BackendClass) (cfg : DeviceConfig) (s : BackedNode)
    (t : MethodTrace) : Option AgentResult := nodeOperation klass cfg s .deactivate .returned t

def chamgeArbiterAgentDelist (klass : BackendClass) (cfg : DeviceConfig) (s : BackedNode)
    (t : MethodTrace) : Option AgentResult := nodeOperation klass cfg s .delist .returned t

/-- The arbiter is made, enrolled and activated. -/
def chamgeArbiterAgentStartup (klass : BackendClass) (cfg : DeviceConfig) (uid : Bytes)
    (enroll activate : MethodTrace) : Option AgentResult :=
  (chamgeArbiterAgentEnroll klass cfg (.init .arbiter uid) enroll).bind fun r =>
    match r.ending with
    | .returned .ok =>
      (chamgeArbiterAgentActivate klass cfg r.arbiter activate).map fun r =>
        match r.ending with
        | .returned .fail | .returned .async => ⟨.fatal (cstr "failed to avtivate"), r.arbiter⟩
        | _ => r
    | .returned _ => some ⟨.fatal (cstr "failed to enroll"), r.arbiter⟩
    | .fatal _ | .ended _ => some r

inductive DBusCall
  | enroll
  | activate
  | deactivate
  | delist
  deriving DecidableEq, Repr

def DBusCall.handle (klass : BackendClass) (cfg : DeviceConfig) (s : BackedNode)
    (t : MethodTrace) : DBusCall → Option AgentResult
  | enroll => chamgeArbiterAgentEnroll klass cfg s t
  | activate => chamgeArbiterAgentActivate klass cfg s t
  | deactivate => chamgeArbiterAgentDeactivate klass cfg s t
  | delist => chamgeArbiterAgentDelist klass cfg s t

def DBusCall.action : DBusCall → NodeAction
  | enroll => .enroll none
  | activate => .activate
  | deactivate => .deactivate
  | delist => .delist

/-! ### The agent's process -/

/-- `gone` is how the process has ended, if it has. -/
structure AgentProcess where
  arbiter : BackedNode
  registry : ArbiterAgent
  gone : Option AgentEnd

inductive AgentEvent
  | call (c : DBusCall) (t : MethodTrace)
  | message (body : Bytes)

/-- A message comes to the pump, which runs while the backend has its source. -/
def arbiterAgent (klass : BackendClass) (cfg : DeviceConfig) : Machine AgentProcess AgentEvent where
  step s
    | .call c t =>
      if s.gone ≠ none then none
      else (c.handle klass cfg s.arbiter t).map fun r =>
        match r.ending with
        | .returned _ => { s with arbiter := r.arbiter }
        | e => { s with arbiter := r.arbiter, gone := some e }
    | .message body =>
      if s.gone = none ∧ s.arbiter.node.backend ≠ none ∧ s.arbiter.object.source = true then
        some { s with
          registry := (arbiterProcessJsonMessage cfg.json amqpArbiterBackend body s.registry).2 }
      else none

def AgentProcess.started (arbiter : BackedNode) : AgentProcess :=
  { arbiter, registry := .empty, gone := none }

/-- The broker's calls of the event succeed. -/
def AgentEvent.Works (cfg : DeviceConfig) : AgentEvent → Prop
  | call c t => t.Works .arbiter cfg c.action.method
  | message _ => True

inductive ChamgeBackend
  | mock
  | amqp
  deriving DecidableEq, Repr

/-- `chamge_arbiter_backend_new`. -/
def ChamgeBackend.arbiterClass : ChamgeBackend → BackendClass
  | mock => mockBackendClass .arbiter
  | amqp => amqpBackendClass .arbiter

/-! ### What a call comes to -/

def BackedNode.Backed (s : BackedNode) : Prop := s.node.backend ≠ none ↔ s.node.state ≠ .null

/-- The state that the node operation prescribes, in the states that it takes. -/
def DBusCall.prescribed : DBusCall → ChamgeNodeState → Option ChamgeNodeState
  | enroll, .null => some .enrolled
  | activate, .enrolled => some .activated
  | deactivate, .activated => some .enrolled
  | delist, .enrolled | delist, .activated => some .null
  | _, _ => none

/-- The process lives on, its arbiter in the state that the operation prescribes or untouched
where there is none. -/
structure CallSafe (c : DBusCall) (s u : AgentProcess) : Prop where
  alive : u.gone = none
  prescribed : ∀ state ∈ c.prescribed s.arbiter.node.state, u.arbiter.node.state = state
  unchanged : c.prescribed s.arbiter.node.state = none → u.arbiter = s.arbiter

variable {backend : ChamgeBackend} {cfg : DeviceConfig} {s : BackedNode} {t : MethodTrace}
  {c : DBusCall}

theorem arbiterClass_slots (backend : ChamgeBackend) {m : BackendMethod} {b : AmqpBackend}
    (h : t.Works .arbiter cfg m)
    (hfree : m = .enroll → b.socketOpen = false) :
    ∃ r, backend.arbiterClass.slots.call m cfg b t = some r ∧ r.ending = .returned .ok := by
  cases backend with
  | mock => exact ⟨_, mock_slots .arbiter m cfg b t, rfl⟩
  | amqp => exact arbiter_slots h hfree

theorem ret_of_reached {n : ChamgeNode} {m : BackendMethod}
    (h : methodReached n c.action = some m) (r : ChamgeReturn) :
    (nodeAction n c.action r).ret = some r := by
  have hstep := actionStep n c.action r
  rw [methodReached_eq hstep] at h
  cases c with
  | enroll | activate | deactivate | delist =>
    generalize nodeAction n _ r = o at hstep h
    cases hstep <;> first | rfl | cases h

/-- The node after an operation that has succeeded. -/
theorem operated_backed (hs : s.Backed) (object : AmqpBackend)
    (hreached : methodReached s.node c.action = some c.action.method) :
    BackedNode.Backed ⟨(nodeAction s.node c.action .ok).node, object⟩ ∧
      c.prescribed s.node.state = some (nodeAction s.node c.action .ok).node.state := by
  have hcall := nodeCall s.node c.action .ok
  rw [hreached] at hcall
  unfold BackedNode.Backed
  cases c with
  | enroll =>
    cases hcall with
    | enroll hn hbackend hstate => simp [hn, hbackend, hstate, DBusCall.prescribed]
  | activate =>
    cases hcall with
    | activate hn hb hbackend hstate => simp [hn, hb, hbackend, hstate, DBusCall.prescribed]
  | deactivate =>
    cases hcall with
    | deactivate hn hb hbackend hstate => simp [hn, hb, hbackend, hstate, DBusCall.prescribed]
  | delist =>
    cases hcall with
    | delist hb hbackend hstate =>
      have hne : s.node.state ≠ .null := hs.mp hb
      cases hn : s.node.state <;> simp_all [DBusCall.prescribed]

/-- An operation that comes to the backend succeeds: only an enroll asks for a socket, and it
finds a new one, since a node in `NULL` holds no backend. -/
theorem act_prescribed (backend : ChamgeBackend) (hs : s.Backed)
    (h : t.Works .arbiter cfg c.action.method)
    (hreached : methodReached s.node c.action = some c.action.method) :
    ∃ u, s.act backend.arbiterClass cfg c.action t = some ⟨.returned (some .ok), u⟩ ∧ u.Backed ∧
      c.prescribed s.node.state = some u.node.state := by
  have hfree : c.action.method = .enroll → s.called.socketOpen = false := by
    intro henroll
    have hcall := nodeCall s.node c.action .fail
    rw [hreached, henroll] at hcall
    cases hcall with
    | enroll hnull =>
      have hnone : s.node.backend = none := by
        by_contra hsome
        exact hs.mp hsome hnull
      rw [BackedNode.called, if_pos hnone]
      rfl
  obtain ⟨r, hr, hret⟩ := arbiterClass_slots backend h hfree
  have hact := act_reached hreached hr hret
  rw [ret_of_reached hreached] at hact
  exact ⟨_, hact, operated_backed hs r.backend hreached⟩

/-- The node turns the operation away and stays as it is. -/
theorem act_refused (klass : BackendClass) (cfg : DeviceConfig) (t : MethodTrace)
    (hs : s.Backed)
    (hreached : methodReached s.node c.action = none) :
    s.act klass cfg c.action t = some ⟨.returned (some .fail), s⟩ ∧
      c.prescribed s.node.state = none := by
  have hact := act_unreached klass cfg t hreached
  have hstep := actionStep s.node c.action .fail
  rw [methodReached_eq hstep] at hreached
  have hsource : c ≠ .delist → s.node.state ≠ sourceState c.action →
      c.prescribed s.node.state = none := by
    intro hdelist hstate
    cases c <;> cases hn : s.node.state <;> simp_all [DBusCall.prescribed, sourceState,
      DBusCall.action]
  have hnull : s.node.backend = none → c ≠ .enroll → c.prescribed s.node.state = none := by
    intro hnone henroll
    have hstate : s.node.state = .null := by
      by_contra hne
      exact hs.mpr hne hnone
    rw [hstate]
    cases c with
    | enroll => exact absurd rfl henroll
    | activate | deactivate | delist => rfl
  obtain ⟨node, object⟩ := s
  cases c with
  | enroll | activate | deactivate | delist =>
    simp only [DBusCall.action] at hstep hreached hact hsource hnull ⊢
    generalize nodeAction node _ .fail = o at hstep hreached hact
    cases hstep with
    | refused ha hstate =>
      first | exact absurd rfl ha | exact ⟨hact, hsource (by simp) hstate⟩
    | unbacked ha hb =>
      first
      | rcases ha with ha | ha | ha <;> cases ha <;> done
      | exact ⟨hact, hnull hb (by simp)⟩
    | _ => cases hreached

theorem prescribed_source {c : DBusCall} {source state : ChamgeNodeState}
    (h : c.prescribed source = some state) (hc : c ≠ .delist) : source = sourceState c.action := by
  cases c <;> cases source <;> simp_all [DBusCall.prescribed, sourceState, DBusCall.action]

/-- The handlers' own state checks turn away nothing that the operation would take. -/
theorem handle_prescribed {klass : BackendClass} {u : BackedNode}
    (hact : s.act klass cfg c.action t = some ⟨.returned (some .ok), u⟩)
    (hprescribed : c.prescribed s.node.state = some u.node.state) :
    c.handle klass cfg s t = some ⟨.returned .ok, u⟩ := by
  have hoperation (failed : ChamgeReturn → AgentEnd) :
      nodeOperation klass cfg s c.action failed t = some ⟨.returned .ok, u⟩ := by
    rw [nodeOperation, hact]
    rfl
  have hsource := prescribed_source hprescribed
  cases c with
  | enroll =>
    have hstate : s.node.state = .null := hsource (by simp)
    rw [DBusCall.handle, chamgeArbiterAgentEnroll, if_neg (not_not.mpr hstate)]
    exact hoperation _
  | activate =>
    have hstate : s.node.state = .enrolled := hsource (by simp)
    rw [DBusCall.handle, chamgeArbiterAgentActivate, if_neg (not_not.mpr hstate)]
    exact hoperation _
  | deactivate | delist => exact hoperation _

/-- A refused operation fails, and the two handlers that would make an end of it have asked
for the state before. -/
theorem handle_unprescribed {klass : BackendClass}
    (hact : s.act klass cfg c.action t = some ⟨.returned (some .fail), s⟩)
    (hno : c.prescribed s.node.state = none) :
    c.handle klass cfg s t = some ⟨.returned .fail, s⟩ := by
  have hoperation : nodeOperation klass cfg s c.action .returned t =
      some ⟨.returned .fail, s⟩ := by
    rw [nodeOperation, hact]
    rfl
  cases c with
  | enroll =>
    have hstate : s.node.state ≠ .null := by
      intro h
      rw [h] at hno
      cases hno
    rw [DBusCall.handle, chamgeArbiterAgentEnroll, if_pos hstate]
  | activate =>
    have hstate : s.node.state ≠ .enrolled := by
      intro h
      rw [h] at hno
      cases hno
    rw [DBusCall.handle, chamgeArbiterAgentActivate, if_pos hstate]
  | deactivate | delist => exact hoperation

/-- Every call returns, and leaves a backend held exactly where the state asks for one. -/
theorem call_safe (backend : ChamgeBackend) {p : AgentProcess} (hs : p.arbiter.Backed)
    (hgone : p.gone = none) (h : t.Works .arbiter cfg c.action.method) :
    ∃ u, (arbiterAgent backend.arbiterClass cfg).step p (.call c t) = some u ∧
      u.arbiter.Backed ∧ CallSafe c p u := by
  have hstep {ret : ChamgeReturn} {v : BackedNode}
      (hhandle : c.handle backend.arbiterClass cfg p.arbiter t = some ⟨.returned ret, v⟩) :
      (arbiterAgent backend.arbiterClass cfg).step p (.call c t) =
        some { p with arbiter := v } := by
    simp only [arbiterAgent, if_neg (not_not.mpr hgone), hhandle, Option.map_some]
  cases hreached : methodReached p.arbiter.node c.action with
  | none =>
    obtain ⟨hact, hno⟩ := act_refused backend.arbiterClass cfg t hs hreached
    refine ⟨_, hstep (handle_unprescribed hact hno), hs, hgone, ?_, fun _ => rfl⟩
    intro state hstate
    cases hno.symm.trans hstate
  | some m =>
    obtain rfl := method_eq hreached
    obtain ⟨u, hact, hu, hprescribed⟩ := act_prescribed backend hs h hreached
    refine ⟨_, hstep (handle_prescribed hact hprescribed), hu, hgone, ?_, ?_⟩
    · exact fun state hstate => Option.some.inj (hprescribed.symm.trans hstate)
    · intro hno
      cases hno.symm.trans hprescribed

/-! ### The agent's runs -/

theorem act_ok_backed {klass : BackendClass} {u : BackedNode} (hs : s.Backed)
    (hact : s.act klass cfg c.action t = some ⟨.returned (some .ok), u⟩) : u.Backed := by
  cases hreached : methodReached s.node c.action with
  | none => cases (act_refused klass cfg t hs hreached).1.symm.trans hact
  | some m =>
    obtain rfl := method_eq hreached
    simp only [BackedNode.act, hreached] at hact
    obtain ⟨r, hr, hsettle⟩ := Option.map_eq_some_iff.mp hact
    cases hret : r.ending with
    | ended cause => simp [BackedNode.settle, hret] at hsettle
    | returned ret =>
      rw [s.settle_returned _ hret, ret_of_reached hreached] at hsettle
      obtain ⟨hok, rfl⟩ := NodeResult.mk.inj hsettle
      obtain rfl := Option.some.inj (CallEnd.returned.inj hok)
      exact (operated_backed hs r.backend hreached).1

theorem nodeOperation_ok {klass : BackendClass} {failed : ChamgeReturn → AgentEnd}
    {r : AgentResult} (hs : s.Backed) (hfailed : ∀ ret, failed ret ≠ .returned .ok)
    (h : nodeOperation klass cfg s c.action failed t = some r) (hok : r.ending = .returned .ok) :
    r.arbiter.Backed := by
  obtain ⟨o, ho, rfl⟩ := Option.map_eq_some_iff.mp h
  obtain ⟨ending, after⟩ := o
  cases ending with
  | ended cause => cases hok
  | returned answer =>
    by_cases hret : answer.getD .fail = .ok
    · cases answer with
      | none => cases hret
      | some ret =>
        obtain rfl : ret = .ok := hret
        exact act_ok_backed hs ho
    · simp only [if_neg hret] at hok
      exact absurd hok (hfailed _)

theorem startup_backed {klass : BackendClass} {uid : Bytes} {enroll activate : MethodTrace}
    {r : AgentResult}
    (h : chamgeArbiterAgentStartup klass cfg uid enroll activate = some r)
    (hok : r.ending = .returned .ok) : r.arbiter.Backed := by
  obtain ⟨e, he, hrest⟩ := Option.bind_eq_some_iff.mp h
  have hinit : (BackedNode.init .arbiter uid).Backed := iff_of_false (by simp [BackedNode.init,
    ChamgeNode.init]) (by simp [BackedNode.init, ChamgeNode.init])
  cases hending : e.ending with
  | fatal message =>
    simp only [hending, Option.some.injEq] at hrest
    rw [← hrest, hending] at hok
    cases hok
  | ended cause =>
    simp only [hending, Option.some.injEq] at hrest
    rw [← hrest, hending] at hok
    cases hok
  | returned ret =>
    cases ret with
    | fail | async =>
      simp only [hending, Option.some.injEq] at hrest
      rw [← hrest] at hok
      cases hok
    | ok =>
      have henrolled : e.arbiter.Backed := by
        have hnull : (BackedNode.init .arbiter uid).node.state = .null := rfl
        rw [chamgeArbiterAgentEnroll, if_neg (not_not.mpr hnull)] at he
        exact nodeOperation_ok (c := .enroll) hinit (by simp) he hending
      simp only [hending] at hrest
      obtain ⟨a, ha, hlast⟩ := Option.map_eq_some_iff.mp hrest
      unfold chamgeArbiterAgentActivate at ha
      split_ifs at ha with hstate
      · obtain rfl := Option.some.inj ha
        rw [← hlast] at hok
        cases hok
      · have hactivated : a.ending = .returned .ok → a.arbiter.Backed :=
          nodeOperation_ok (c := .activate) henrolled (by simp) ha
        cases hend : a.ending with
        | returned ret =>
          cases ret with
          | ok =>
            rw [hend] at hlast
            exact hlast ▸ hactivated hend
          | fail | async =>
            rw [hend] at hlast
            rw [← hlast] at hok
            cases hok
        | fatal | ended =>
          rw [hend] at hlast
          rw [← hlast, hend] at hok
          cases hok

/-- The process is there, with a backend held exactly where the state asks for one. -/
def AgentProcess.Lives (s : AgentProcess) : Prop := s.gone = none ∧ s.arbiter.Backed

theorem event_lives {s u : AgentProcess} {l : AgentEvent} (hs : s.Lives) (hworks : l.Works cfg)
    (hstep : (arbiterAgent backend.arbiterClass cfg).step s l = some u) : u.Lives := by
  cases l with
  | call c t =>
    obtain ⟨v, hv, hbacked, hsafe⟩ := call_safe backend hs.2 hs.1 hworks
    obtain rfl := Option.some.inj (hv.symm.trans hstep)
    exact ⟨hsafe.alive, hbacked⟩
  | message body =>
    simp only [arbiterAgent, Option.ite_none_right_eq_some, Option.some.injEq] at hstep
    exact hstep.2 ▸ hs

/-- After a successful startup and any run of D-Bus calls and device messages whose broker
calls succeed, the agent lives, and every further call is safe. -/
theorem agent_survives (backend : ChamgeBackend) (cfg : DeviceConfig) (uid : Bytes)
    {enroll activate : MethodTrace} {r : AgentResult}
    (hstart : chamgeArbiterAgentStartup backend.arbiterClass cfg uid enroll activate = some r)
    (hok : r.ending = .returned .ok) {ls : List AgentEvent} (hworks : ∀ l ∈ ls, l.Works cfg)
    {s : AgentProcess}
    (hrun : (arbiterAgent backend.arbiterClass cfg).run (.started r.arbiter) ls = some s) :
    s.gone = none ∧ (s.arbiter.node.backend ≠ none ↔ s.arbiter.node.state ≠ .null) ∧
      ∀ c t, t.Works .arbiter cfg c.action.method →
        ∃ u, (arbiterAgent backend.arbiterClass cfg).step s (.call c t) = some u ∧
          CallSafe c s u := by
  have hlives : s.Lives := Machine.run_invariant (I := AgentProcess.Lives)
    (fun _ _ _ hs hl hstep => event_lives hs hl hstep) ⟨rfl, startup_backed hstart hok⟩
    (Machine.along_of_forall hworks) hrun
  refine ⟨hlives.1, hlives.2, fun c t ht => ?_⟩
  obtain ⟨u, hu, -, hsafe⟩ := call_safe backend hlives.2 hlives.1 ht
  exact ⟨u, hu, hsafe⟩

/-- The agent's arbiter once it has started. -/
def startedArbiter : BackedNode :=
  ⟨{ ensureBackend (.init .arbiter plainConfig.uid) with state := .activated }, ⟨true, true, true⟩⟩

/-- The arbiter is delisted, and enrolled twice. An edge enrolls between two of the calls. -/
def enrolledTwice : List AgentEvent :=
  [.call .enroll (workingTrace []), .message (requestBody .edge .enroll (cstr "edge-1")),
    .call .delist (workingTrace []), .call .enroll (workingTrace []),
    .call .enroll (workingTrace [])]

theorem enrolled_twice_survives : ∃ s, (arbiterAgent (amqpBackendClass .arbiter) plainConfig).run
    (.started startedArbiter) enrolledTwice = some s ∧
      s.registry.listOf .edge = [cstr "edge-1"] ∧ s.gone = none := by
  have hworks : (workingTrace []).Works .arbiter plainConfig .enroll :=
    ⟨⟨rfl, rfl, rfl, rfl⟩, ⟨_, rfl⟩, rfl, rfl⟩
  have hall : ∀ l ∈ enrolledTwice, l.Works plainConfig := by
    simp only [enrolledTwice, List.forall_mem_cons]
    exact ⟨hworks, trivial, trivial, hworks, hworks, fun _ h => absurd h List.not_mem_nil⟩
  have hstart : chamgeArbiterAgentStartup ChamgeBackend.amqp.arbiterClass plainConfig
      plainConfig.uid (workingTrace []) (workingTrace []) =
        some ⟨.returned .ok, startedArbiter⟩ := rfl
  have hlisted : ((arbiterAgent ChamgeBackend.amqp.arbiterClass plainConfig).run
      (.started startedArbiter) enrolledTwice).any
        (fun s => s.registry.listOf .edge = [cstr "edge-1"]) = true := by
    decide +kernel
  obtain ⟨s, hrun, hedge⟩ := (Option.any_eq_true _ _).mp hlisted
  exact ⟨s, hrun, of_decide_eq_true hedge,
    (agent_survives .amqp plainConfig plainConfig.uid hstart rfl hall hrun).1⟩

end Chamge
