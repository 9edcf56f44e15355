import Chamge.BackendObjects
import Chamge.Lib.JsonText
import Chamge.Lib.Machine
import Chamge.RegistryEvents

/-! What a successful delist leaves of the backend objects of a node: their references
against the registry events they have reported. -/

namespace Chamge
open CString JsonGlib

/-- What a method of an AMQP backend can do: those of the arbiter succeed or end the
process, and no deactivate fails. A successful enroll has opened the connection. -/
def amqpPossible (kind : NodeKind) (m : BackendMethod) (out : MethodOutcome) : Bool :=
  match m with
  | .enroll => out.ret = .ok && out.opened || out.ret = .fail && kind ≠ .arbiter
  | .activate | .delist => out.ret = .ok || out.ret = .fail && kind ≠ .arbiter
  | .deactivate => out.ret = .ok

/-- The events that a message taken by the pump raises; a device's pump raises none. -/
def messageEvents (json : JsonParser) (kind : NodeKind) (envelope : AmqpEnvelope) : ℕ :=
  if kind = .arbiter ∧ (replyAddress envelope).isSome then raisedCount json envelope.body else 0

/-- Each of the four event functions has the object put into its argument values
(`g_value_set_object`), and none of them unsets the values. -/
def BackendObject.report (o : BackendObject) (events : ℕ) : BackendObject :=
  { o with refs := o.refs + events, delivered := o.delivered + events }

def Objects.deliver (json : JsonParser) (s : Objects) (obj : ℕ) (envelope : AmqpEnvelope) :
    Objects :=
  let o := (s.object obj).report (messageEvents json s.node.kind envelope)
  { s with object := Function.update s.object obj o }

/-- `delisted` is set while a delist has returned OK and no enroll has been made since. -/
structure Detachment where
  objects : Objects
  delisted : Bool

def Detachment.init (kind : NodeKind) (uid : Bytes) : Detachment := ⟨.init kind uid, false⟩

/-- A delist that reaches no backend object fails. -/
def nextDelisted (method : Option BackendMethod) (ret : Option ChamgeReturn) (delisted : Bool) :
    Bool :=
  match method with
  | some .delist => ret = some .ok || delisted
  | some .enroll => false
  | _ => delisted

inductive DetachmentLabel
  | call (a : NodeAction) (out : MethodOutcome)
  | message (obj : ℕ) (envelope : AmqpEnvelope)

/-- Calls, firings, and the messages that the sources in the main loop bring. -/
def detachment (json : JsonParser) : Machine Detachment DetachmentLabel where
  step s l :=
    let node := s.objects.node
    match l with
    | .call a out =>
      if node.canAct a && (methodReached node a).all (amqpPossible node.kind · out) then
        some ⟨s.objects.act a out,
          nextDelisted (methodReached node a) (nodeAction node a out.ret).ret s.delisted⟩
      else none
    | .message obj envelope =>
      if (s.objects.object obj).source then
        some { s with objects := s.objects.deliver json obj envelope }
      else none

/-- Between a delist that returned OK and the next enroll every object that the node has
created is detached. -/
def FullyDetached (s : Detachment) : Prop :=
  s.delisted = true → ∀ obj < s.objects.node.created, (s.objects.object obj).Detached

/-- A delist that will return OK finds an object that has reported no event. -/
def DelistUnreported (s : Detachment) : DetachmentLabel → Prop
  | .call .delist out => out.ret = .ok →
    ∀ obj, s.objects.node.backend = some obj → (s.objects.object obj).delivered = 0
  | _ => True

/-! ### The references -/

structure Accounts (s : Detachment) : Prop where
  fresh : ∀ obj, s.objects.node.created ≤ obj → s.objects.object obj = .new
  known : ∀ obj, s.objects.node.backend = some obj → obj < s.objects.node.created
  refs : ∀ obj, s.objects.node.backend = some obj →
    (s.objects.object obj).refs = (s.objects.object obj).delivered + 1
  plain : s.objects.node.kind ≠ .arbiter → ∀ obj, (s.objects.object obj).delivered = 0
  opened : ∀ obj, s.objects.node.backend = some obj →
    (s.objects.object obj).source = true ∨ 0 < (s.objects.object obj).delivered ∨
      s.objects.node.state ≠ .null → (s.objects.object obj).connected = true
  dropped : ∀ obj, s.objects.node.backend ≠ some obj → (s.objects.object obj).Detached
  delisted : s.delisted = true → s.objects.node.backend = none

variable {json : JsonParser} {s t : Detachment} {n' : ChamgeNode} {o' : BackendObject}
  {obj : ℕ} {a : NodeAction} {out : MethodOutcome}

theorem accounts_init (kind : NodeKind) (uid : Bytes) : Accounts (.init kind uid) where
  fresh _ _ := rfl
  known _ h := nomatch h
  refs _ h := nomatch h
  plain _ _ := rfl
  opened _ h := nomatch h
  dropped _ _ := ⟨rfl, rfl⟩
  delisted _ := rfl

theorem Accounts.congr (h : Accounts s) (hkind : t.objects.node.kind = s.objects.node.kind)
    (hstate : t.objects.node.state = s.objects.node.state)
    (hbackend : t.objects.node.backend = s.objects.node.backend)
    (hcreated : t.objects.node.created = s.objects.node.created)
    (hobject : t.objects.object = s.objects.object)
    (hdelisted : t.delisted = true → s.delisted = true) : Accounts t := by
  obtain ⟨fresh, known, refs, plain, opened, dropped, delisted⟩ := h
  constructor <;> simp only [hkind, hstate, hbackend, hcreated, hobject]
  · exact fresh
  · exact known
  · exact refs
  · exact plain
  · exact opened
  · exact dropped
  · exact fun hd => delisted (hdelisted hd)

/-- The object that the node holds afterwards, old or new, is `o'`; the others are as before. -/
theorem Accounts.update (h : Accounts s) (hkind : t.objects.node.kind = s.objects.node.kind)
    (hbackend : t.objects.node.backend = some s.objects.node.calledObject)
    (hcreated : t.objects.node.created =
      if s.objects.node.backend = none then s.objects.node.created + 1
      else s.objects.node.created)
    (hself : t.objects.object s.objects.node.calledObject = o')
    (hother : ∀ obj, obj ≠ s.objects.node.calledObject →
      t.objects.object obj = s.objects.object obj)
    (hdelisted : t.delisted = false) (hrefs : o'.refs = o'.delivered + 1)
    (hplain : t.objects.node.kind ≠ .arbiter → o'.delivered = 0)
    (hopened : o'.source = true ∨ 0 < o'.delivered ∨ t.objects.node.state ≠ .null →
      o'.connected = true) : Accounts t := by
  have hcalled : s.objects.node.calledObject < t.objects.node.created := by
    unfold ChamgeNode.calledObject
    cases hb : s.objects.node.backend with
    | none => simp [hcreated, hb]
    | some b => simpa [hcreated, hb] using h.known b hb
  have hgrows : s.objects.node.created ≤ t.objects.node.created := by
    rw [hcreated]
    split_ifs <;> omega
  have hheld : ∀ obj, t.objects.node.backend = some obj → obj = s.objects.node.calledObject := by
    intro obj hobj
    exact Option.some.inj (hobj.symm.trans hbackend)
  refine ⟨fun obj hobj => ?_, fun obj hobj => ?_, fun obj hobj => ?_, fun hk obj => ?_,
    fun obj hobj => ?_, fun obj hobj => ?_, fun hd => ?_⟩
  · rw [hother obj (hcalled.trans_le hobj).ne']
    exact h.fresh obj (hgrows.trans hobj)
  · rw [hheld obj hobj]
    exact hcalled
  · rw [hheld obj hobj, hself]
    exact hrefs
  · by_cases hobj : obj = s.objects.node.calledObject
    · rw [hobj, hself]
      exact hplain hk
    · rw [hother obj hobj]
      exact h.plain (hkind ▸ hk) obj
  · rw [hheld obj hobj, hself]
    exact hopened
  · have hne : obj ≠ s.objects.node.calledObject := fun heq => hobj (heq ▸ hbackend)
    rw [hother obj hne]
    apply h.dropped obj
    intro hb
    apply hne
    exact (calledObject_of_some hb).symm
  · simp [hdelisted] at hd

/-- The object that a method is called on, whether it is there already or made for the call. -/
theorem Accounts.called (h : Accounts s) {o : BackendObject}
    (ho : s.objects.object s.objects.node.calledObject = o) :
    o.refs = o.delivered + 1 ∧ (s.objects.node.kind ≠ .arbiter → o.delivered = 0) ∧
      (o.source = true ∨ 0 < o.delivered → o.connected = true) := by
  subst ho
  refine ⟨?_, fun hk => h.plain hk _, ?_⟩
  all_goals
    unfold ChamgeNode.calledObject
    cases hb : s.objects.node.backend
  · simp [h.fresh _ le_rfl, BackendObject.new]
  · exact h.refs _ hb
  · simp [h.fresh _ le_rfl, BackendObject.new]
  · exact fun ho => h.opened _ hb (ho.imp_right Or.inl)

theorem unref_of_unreported {o : BackendObject} (hrefs : o.refs = o.delivered + 1)
    (h : o.delivered = 0) : o.unref.Detached ∧ o.unref.delivered = 0 := by
  have hlast : o.refs ≤ 1 := by omega
  rw [BackendObject.unref, if_pos hlast]
  exact ⟨⟨rfl, rfl⟩, h⟩

theorem unref_of_reported {o : BackendObject} (hrefs : o.refs = o.delivered + 1)
    (h : o.delivered ≠ 0) : o.unref.connected = o.connected := by
  have hmore : ¬ o.refs ≤ 1 := by omega
  rw [BackendObject.unref, if_neg hmore]

/-- The held object is dropped, with all the references that the program has of it. -/
theorem Accounts.drop (h : Accounts s) (hb : s.objects.node.backend = some obj)
    (hkind : t.objects.node.kind = s.objects.node.kind)
    (hbackend : t.objects.node.backend = none)
    (hcreated : t.objects.node.created = s.objects.node.created)
    (hobject : t.objects.object =
      Function.update s.objects.object obj (s.objects.object obj).unref)
    (hunreported : (s.objects.object obj).delivered = 0) : Accounts t := by
  obtain ⟨hdetached, hnone⟩ := unref_of_unreported (h.refs obj hb) hunreported
  have hself : t.objects.object obj = (s.objects.object obj).unref := by
    rw [hobject, Function.update_self]
  have hother : ∀ b, b ≠ obj → t.objects.object b = s.objects.object b := by
    intro b hne
    rw [hobject, Function.update_of_ne hne]
  refine ⟨fun b hge => ?_, fun b hheld => ?_, fun b hheld => ?_, fun hk b => ?_,
    fun b hheld => ?_, fun b _ => ?_, fun _ => hbackend⟩
  · have hlt := h.known obj hb
    rw [hcreated] at hge
    rw [hother b (hlt.trans_le hge).ne']
    exact h.fresh b hge
  · simp [hbackend] at hheld
  · simp [hbackend] at hheld
  · by_cases hne : b = obj
    · rw [hne, hself]
      exact hnone
    · rw [hother b hne]
      exact h.plain (hkind ▸ hk) b
  · simp [hbackend] at hheld
  · by_cases hne : b = obj
    · rw [hne, hself]
      exact hdetached
    · rw [hother b hne]
      apply h.dropped b
      intro heq
      exact hne (Option.some.inj (heq.symm.trans hb))

theorem call_accounts (h : Accounts s)
    (hposs : (methodReached s.objects.node a).all (amqpPossible s.objects.node.kind · out) = true)
    (hp : DelistUnreported s (.call a out)) :
    Accounts ⟨s.objects.act a out, nextDelisted (methodReached s.objects.node a)
      (nodeAction s.objects.node a out.ret).ret s.delisted⟩ := by
  have hstep := objectsStep s.objects a out
  have hdelist := eq_delist_of_reached (n := s.objects.node) (a := a)
  generalize s.objects.act a out = t at hstep ⊢
  generalize methodReached s.objects.node a = method at hstep hposs hdelist ⊢
  cases hstep with
  | quiet hkind hstate hbackend hcreated hobject =>
    exact h.congr hkind hstate hbackend hcreated hobject id
  | enroll hs hkind hstate hbackend hcreated hobject =>
    obtain ⟨hrefs, hplain, hopened⟩ := h.called rfl
    refine h.update hkind hbackend hcreated (congrFun hobject _ |>.trans (Function.update_self ..))
      (fun obj hne => ?_) rfl hrefs (hkind ▸ hplain) fun ho => ?_
    · rw [hobject, Function.update_of_ne hne]
    · simp only [BackendObject.called, Bool.or_eq_true] at ho ⊢
      rcases ho with hsource | hdelivered | hnull
      · exact Or.inl (hopened (Or.inl hsource))
      · exact Or.inl (hopened (Or.inr hdelivered))
      · have hret := hstate hnull
        simp only [Option.all_some, amqpPossible, hret, reduceCtorEq, decide_true, decide_false,
          Bool.true_and, Bool.false_and, Bool.or_false] at hposs
        exact Or.inr hposs
  | served hm hs hb hkind hbackend hcreated hobject =>
    have hcalled := calledObject_of_some hb
    have hnone : s.objects.node.backend ≠ none := hb ▸ Option.some_ne_none _
    have hopen := h.opened _ hb (Or.inr (Or.inr hs))
    have hnext : s.delisted = false := by
      cases hd : s.delisted with
      | false => rfl
      | true => exact absurd (h.delisted hd) hnone
    rw [← hcalled] at hobject hbackend hopen
    refine h.update hkind hbackend (by rw [if_neg hnone, hcreated])
      (congrFun hobject _ |>.trans (Function.update_self ..))
      (fun obj hne => ?_) ?_ ?_ (fun hk => ?_) fun _ => ?_
    · rw [hobject, Function.update_of_ne hne]
    all_goals obtain ⟨hrefs, hplain, -⟩ := h.called rfl
    all_goals rcases hm with rfl | rfl
    · exact hnext
    · exact hnext
    · exact hrefs
    · exact hrefs
    · exact hplain (hkind ▸ hk)
    · exact hplain (hkind ▸ hk)
    · exact hopen
    · exact hopen
  | delist hb hkind hbackend hcreated hobject =>
    have hunreported : ∀ b, s.objects.node.backend = some b →
        (s.objects.object b).delivered = 0 := by
      intro b hb
      obtain rfl := hdelist rfl
      simp only [Option.all_some, amqpPossible, Bool.or_eq_true, Bool.and_eq_true,
        decide_eq_true_eq] at hposs
      rcases hposs with hok | ⟨-, hkind⟩
      · exact hp hok _ hb
      · exact h.plain hkind _
    exact h.drop hb hkind hbackend hcreated hobject (hunreported _ hb)

theorem message_accounts (h : Accounts s) (hsource : (s.objects.object obj).source = true)
    (envelope : AmqpEnvelope) :
    Accounts { s with objects := s.objects.deliver json obj envelope } := by
  have hb : s.objects.node.backend = some obj := by
    by_contra hne
    simp [(h.dropped obj hne).1] at hsource
  have hnone : s.objects.node.backend ≠ none := hb ▸ Option.some_ne_none _
  have hnext : s.delisted = false := by
    cases hd : s.delisted with
    | false => rfl
    | true => exact absurd (h.delisted hd) hnone
  have hrefs := h.refs obj hb
  obtain rfl := calledObject_of_some hb
  refine h.update (t := ⟨s.objects.deliver json _ envelope, s.delisted⟩) rfl hb
    (if_neg hnone).symm (Function.update_self ..)
    (fun b hne => Function.update_of_ne hne ..) hnext ?_ (fun hk => ?_) fun _ => ?_
  · simp only [BackendObject.report, hrefs]
    omega
  · have hk : s.objects.node.kind ≠ .arbiter := hk
    simp only [BackendObject.report, messageEvents, hk, false_and, if_false, h.plain hk]
  · exact h.opened _ hb (Or.inl hsource)

theorem delisted_ok {ret : Option ChamgeReturn} {delisted : Bool} (hret : ret = some .ok) :
    nextDelisted (some .delist) ret delisted = true := by
  simp [nextDelisted, hret]

theorem unreported_of_detached (h : Accounts s)
    (hdetached : FullyDetached ⟨s.objects.act a out,
      nextDelisted (methodReached s.objects.node a)
        (nodeAction s.objects.node a out.ret).ret s.delisted⟩) :
    DelistUnreported s (.call a out) := by
  cases a with
  | enroll | activate | deactivate | fire => trivial
  | delist =>
    intro hok b hb
    by_contra hreported
    obtain ⟨hobject, hcreated⟩ := act_delist hb out
    have hconnected : (s.objects.object b).connected = true :=
      h.opened b hb (Or.inr (Or.inl (Nat.pos_of_ne_zero hreported)))
    have hret : (nodeAction s.objects.node .delist out.ret).ret = some .ok := by
      rw [delist_backed hb, hok]
    rw [methodReached_delist hb] at hdetached
    have hgone := (hdetached (delisted_ok hret) b (hcreated ▸ h.known b hb)).2
    rw [hobject, Function.update_self, unref_of_reported (h.refs b hb) hreported,
      hconnected] at hgone
    exact absurd hgone (by decide)

/-- The state is free of attached objects after every successful delist of a run exactly
when each of these delists finds an object that has reported no registry event. -/
theorem delist_detaches_iff (json : JsonParser) (kind : NodeKind) (uid : Bytes)
    (ls : List DetachmentLabel) :
    (detachment json).Always FullyDetached (.init kind uid) ls ↔
      (detachment json).Along DelistUnreported (.init kind uid) ls := by
  apply Machine.always_iff_along_of (I := Accounts) ?_ ?_ ?_ (accounts_init kind uid)
  · intro s l t h hp hstep
    cases l with
    | call a out =>
      simp only [detachment, Bool.and_eq_true, Option.ite_none_right_eq_some,
        Option.some.injEq] at hstep
      obtain ⟨⟨-, hposs⟩, rfl⟩ := hstep
      exact call_accounts h hposs hp
    | message obj envelope =>
      simp only [detachment, Option.ite_none_right_eq_some, Option.some.injEq] at hstep
      obtain ⟨hsource, rfl⟩ := hstep
      exact message_accounts h hsource envelope
  · intro s h hd obj _
    apply h.dropped obj
    rw [h.delisted hd]
    exact nofun
  · intro s l t h hstep hdetached
    cases l with
    | call a out =>
      simp only [detachment, Bool.and_eq_true, Option.ite_none_right_eq_some,
        Option.some.injEq] at hstep
      obtain ⟨-, rfl⟩ := hstep
      exact unreported_of_detached h hdetached
    | message obj envelope => trivial

/-- An edge's request to enroll, as it is on the wire. -/
def enrollEnvelope : AmqpEnvelope :=
  { channel := 1, properties := requestProperties (cstr "amq.gen-1") (cstr "1"),
    body := requestBody .edge .enroll (cstr "abc-987-123") }

def enrollAndDelist : List DetachmentLabel :=
  [.call (.enroll none) ⟨.ok, true⟩, .call .activate ⟨.ok, false⟩, .message 0 enrollEnvelope,
    .call .delist ⟨.ok, false⟩]

/-- An arbiter that has enrolled one edge: its first backend object outlives the delist, with
its source in the main loop and its consumer on the enroll queue. -/
theorem delist_leaves_consumer :
    ¬ (detachment plainParser).Always FullyDetached (.init .arbiter (cstr "arbiter"))
      enrollAndDelist := by
  intro h
  have hrun : (((detachment plainParser).run (.init .arbiter (cstr "arbiter"))
      enrollAndDelist).map fun t =>
        (t.delisted, t.objects.node.created, (t.objects.object 0).source)) =
      some (true, 1, true) := by decide +kernel
  obtain ⟨t, ht, hleft⟩ := Option.map_eq_some_iff.mp hrun
  simp only [Prod.mk.injEq] at hleft
  obtain ⟨hdelisted, hcreated, hsource⟩ := hleft
  have hgone := h.of_run ht hdelisted 0 (hcreated ▸ Nat.one_pos)
  simp [hgone.1] at hsource

end Chamge
