import Chamge.Lib.JsonText
import Chamge.Registry
import Chamge.UserCommandContract

/-! Where a user command may go: the agent's check of the registry against the target that
the backend reads from the same text. -/

namespace Chamge
open CString JsonGlib

/-- The list that a method's target must be in. -/
def ArbiterAgent.listFor (agent : ArbiterAgent) (method : Option Bytes) : List Bytes :=
  if isEdgeMethod method then agent.edges else agent.hubs

/-- The command names its target and its method, and the target is enrolled for it. -/
def MayPublish (json : JsonParser) (agent : ArbiterAgent) (cmd q : Bytes) : Prop :=
  ∃ members method, json.loadFromData cmd = .ok (some (.object members)) ∧
    StringMember members (cstr "to") q ∧ StringMember members (cstr "method") method ∧
      q ∈ agent.listFor (some method)

/-- Whatever the arbiter's state and the broker's answers, a message that goes out may. -/
def RoutedLawfully (json : JsonParser) (agent : ArbiterAgent) (cmd : Bytes) : Prop :=
  ∀ arbiter link p os r m,
    chamgeArbiterAgentHandleUserCommand json agent arbiter cmd link p os = some r →
      r.published = some m → MayPublish json agent cmd m.routingKey

/-- A command with a target and no method is not checked at all, and one whose method is no
string is checked against the hubs. -/
def SlipsThrough (json : JsonParser) (agent : ArbiterAgent) (cmd : Bytes) : Prop :=
  ∃ members q, json.loadFromData cmd = .ok (some (.object members)) ∧
    StringMember members (cstr "to") q ∧
      (objectGetMember (some members) (cstr "method") = none ∨
        ∃ node, objectGetMember (some members) (cstr "method") = some node ∧
          nodeGetString (some node) = none ∧ q ∈ agent.hubs)

variable {json : JsonParser} {agent : ArbiterAgent} {cmd q : Bytes}

/-! ### What is published -/

theorem closeLink_published (link : LinkOutcomes) (r : RpcResult) :
    (closeLink link r).published = r.published := by
  simp only [closeLink]
  split_ifs
  · rfl
  · rfl
  · cases link.destroy <;> rfl

theorem afterExchange_published (link : LinkOutcomes) (r : RpcResult) :
    (afterExchange link r).published = r.published := by
  unfold afterExchange
  split_ifs
  · rfl
  · exact closeLink_published link r

theorem handleRpcUserCommand_published {args : RpcArgs} {p : RpcPrelude}
    {os : List ConsumeOutcome} {out : Option Bytes} {r : RpcResult} {m : Publication}
    (h : handleRpcUserCommand json args p os out = some r) (hm : r.published = some m) :
    getQueueName json args.request = some m.routingKey := by
  unfold handleRpcUserCommand at h
  split_ifs at h
  · cases h
    cases hm
  cases hto : getQueueName json args.request <;> simp only [hto] at h
  · cases h
    cases hm
  · exact congrArg some (rpcExchange_published h m hm).1.symm

theorem backend_published {settings : UserCommandSettings} {link : LinkOutcomes} {p : RpcPrelude}
    {os : List ConsumeOutcome} {out : Option Bytes} {r : UserCommandResult} {m : Publication}
    (h : chamgeAmqpArbiterBackendUserCommand json settings cmd link p os out = some r)
    (hm : r.published = some m) : getQueueName json cmd = some m.routingKey := by
  simp only [chamgeAmqpArbiterBackendUserCommand] at h
  cases hopen : link.channelOpen with
  | error reply =>
    simp only [hopen] at h
    split_ifs at h <;> cases h <;> cases hm
  | ok u =>
    simp only [hopen] at h
    split_ifs at h
    iterate 3
      · cases h
        cases hm
    · obtain ⟨x, hx, rfl⟩ := Option.map_eq_some_iff.mp h
      rw [afterExchange_published] at hm
      exact handleRpcUserCommand_published hx hm

/-- A message goes out to the target of a command that the agent has let through. -/
theorem handle_published {arbiter : ArbiterNode} {link : LinkOutcomes} {p : RpcPrelude}
    {os : List ConsumeOutcome} {r : HandlerResult} {m : Publication}
    (h : chamgeArbiterAgentHandleUserCommand json agent arbiter cmd link p os = some r)
    (hm : r.published = some m) :
    ∃ root, json.loadFromData cmd = .ok root ∧ refusal agent (nodeGetObject root) = none ∧
      memberString (nodeGetObject root) (cstr "to") = some m.routingKey := by
  unfold chamgeArbiterAgentHandleUserCommand at h
  cases hload : json.loadFromData cmd with
  | error why =>
    simp only [hload] at h
    cases h
    cases hm
  | ok root =>
    simp only [hload] at h
    cases hrefusal : refusal agent (nodeGetObject root) with
    | some response =>
      simp only [hrefusal] at h
      cases h
      cases hm
    | none =>
      simp only [hrefusal] at h
      obtain ⟨x, hx, rfl⟩ := Option.map_eq_some_iff.mp h
      have hpublished : x.published = some m := hm
      unfold chamgeNodeUserCommand at hx
      split_ifs at hx
      · cases hx
        cases hpublished
      have hto : getQueueName json cmd = some m.routingKey := by
        unfold chamgeArbiterBackendUserCommand at hx
        split at hx
        · exact backend_published hx hpublished
        · cases hx
          cases hpublished
        · cases hx
          cases hpublished
      rw [getQueueName, hload] at hto
      exact ⟨root, rfl, hrefusal, hto⟩

/-- With an activated arbiter and a broker that works, such a command does go out. -/
theorem let_through_publishes {root : Option JsonNode} (hload : json.loadFromData cmd = .ok root)
    (hrefusal : refusal agent (nodeGetObject root) = none)
    (hto : memberString (nodeGetObject root) (cstr "to") = some q) :
    ∃ r m, chamgeArbiterAgentHandleUserCommand json agent activeArbiter cmd workingLink
      openPrelude [timedOut] = some r ∧ r.published = some m ∧ m.routingKey = q := by
  have hname : getQueueName json cmd = some q := by
    simp only [getQueueName, hload, hto]
  have hreaches : ReachesWait json agent activeArbiter cmd workingLink openPrelude := by
    refine ⟨⟨root, hload, hrefusal⟩, rfl, ⟨_, rfl, ?_⟩, ⟨rfl, rfl, rfl, rfl⟩, ?_, rfl, ⟨_, rfl⟩,
      rfl, rfl⟩
    · decide
    · rw [hname]
      exact Option.some_ne_none q
  obtain ⟨m, hm⟩ := handle_waits hreaches
  have hrun := hm [timedOut]
  have hloop : waitLoop none openPrelude.correlationId 0 [timedOut] = some .timeout := by decide
  rw [hloop, Option.map_some] at hrun
  have hpublished : (answerWith (closeLink workingLink
      (afterWait amqpGetRpcReplyString none m .timeout))).published = some m :=
    closeLink_published ..
  obtain ⟨root', hload', -, hkey⟩ := handle_published hrun hpublished
  obtain rfl : root = root' := Except.ok.inj (hload.symm.trans hload')
  exact ⟨_, m, hrun, hpublished, Option.some.inj (hkey.symm.trans hto)⟩

/-! ### The check -/

theorem isEnrolled_iff {list : List Bytes} {id : Bytes} : isEnrolled list id ↔ id ∈ list := by
  rw [isEnrolled, Option.isSome_iff_ne_none, ne_eq, findList_eq_none_iff, not_not]

theorem refusal_eq_none_iff {members : JsonObject}
    (hto : memberString (some members) (cstr "to") = some q) :
    refusal agent (some members) = none ↔
      objectGetMember (some members) (cstr "method") = none ∨
        ∃ node, objectGetMember (some members) (cstr "method") = some node ∧
          q ∈ agent.listFor (nodeGetString (some node)) := by
  rw [memberString_eq] at hto
  cases hid : objectGetMember (some members) (cstr "to") with
  | none =>
    rw [hid] at hto
    cases hto
  | some id =>
    rw [hid] at hto
    cases hmethod : objectGetMember (some members) (cstr "method") with
    | none => simp only [refusal, objectHasMember, hmethod, Option.isSome_none,
        Bool.false_eq_true, if_false, true_or]
    | some node =>
      simp only [refusal, objectHasMember, hid, hto, hmethod, Option.isSome_some, if_true,
        Option.any_some, ArbiterAgent.listFor, Option.some.injEq, exists_eq_left', reduceCtorEq,
        false_or]
      by_cases hedge : isEdgeMethod (nodeGetString (some node)) = true
      · rw [if_pos hedge, if_pos hedge, ← isEnrolled_iff]
        split_ifs with hin <;> simp [hin]
      · rw [if_neg hedge, if_neg hedge, ← isEnrolled_iff]
        split_ifs with hin <;> simp [hin]

theorem listFor_none : agent.listFor none = agent.hubs := rfl

/-- The commands go only to enrolled devices of the right kind unless one has a target and
no method, or a hub's target and a method that is no string. -/
theorem routed_lawfully_iff (json : JsonParser) (agent : ArbiterAgent) (cmd : Bytes) :
    RoutedLawfully json agent cmd ↔ ¬ SlipsThrough json agent cmd := by
  constructor
  · rintro hlaw ⟨members, q, hload, hto, hmethod⟩
    have hstring := memberString_eq_some_iff.mpr ⟨members, rfl, hto⟩
    have hrefusal : refusal agent (some members) = none := by
      refine (refusal_eq_none_iff hstring).mpr (hmethod.imp_right ?_)
      rintro ⟨node, hnode, hnone, hq⟩
      refine ⟨node, hnode, ?_⟩
      rw [hnone, listFor_none]
      exact hq
    obtain ⟨r, m, hr, hm, rfl⟩ := let_through_publishes hload hrefusal hstring
    obtain ⟨members', method, hload', -, hstring', -⟩ := hlaw _ _ _ _ r m hr hm
    obtain rfl : members = members' := by
      have heq := hload.symm.trans hload'
      cases heq
      rfl
    have hname := memberString_eq_some_iff.mpr ⟨members, rfl, hstring'⟩
    rw [memberString_eq] at hname
    rcases hmethod with habsent | ⟨node, hnode, hnone, -⟩
    · rw [habsent] at hname
      cases hname
    · rw [hnode, hnone] at hname
      cases hname
  · intro hslips arbiter link p os r m hr hm
    obtain ⟨root, hload, hrefusal, hto⟩ := handle_published hr hm
    obtain ⟨members, rfl, hq⟩ := object_of_memberString hto
    rcases (refusal_eq_none_iff hto).mp hrefusal with habsent | ⟨node, hnode, hlist⟩
    · exact absurd ⟨members, _, hload, hq, Or.inl habsent⟩ hslips
    cases hname : nodeGetString (some node) with
    | none =>
      rw [hname, listFor_none] at hlist
      exact absurd ⟨members, _, hload, hq, Or.inr ⟨node, hnode, hname, hlist⟩⟩ hslips
    | some method =>
      rw [hname] at hlist
      have hmethod : memberString (some members) (cstr "method") = some method := by
        rw [memberString_eq, hnode, hname]
      obtain ⟨_, hmembers, hstring'⟩ := memberString_eq_some_iff.mp hmethod
      cases hmembers
      exact ⟨members, method, hload, hq, hstring', hlist⟩

/-- A command without a method goes to any queue, that of the arbiter's own requests
included. -/
theorem command_without_method_slips :
    ¬ RoutedLawfully plainParser .empty (objectText [(cstr "to", cstr "enroll")]) := by
  intro h
  have hload : plainParser.loadFromData (objectText [(cstr "to", cstr "enroll")]) =
      .ok (some (.object (stringMembers [(cstr "to", cstr "enroll")]))) :=
    plainParser_reads _ (List.cons_ne_nil _ _)
      (List.forall_mem_singleton.mpr ⟨plain_cstr (by decide), plain_cstr (by decide)⟩)
  have hto : memberString (some (stringMembers [(cstr "to", cstr "enroll")])) (cstr "to") =
      some (cstr "enroll") := by decide
  have hrefusal : refusal .empty (some (stringMembers [(cstr "to", cstr "enroll")])) = none := by
    decide
  obtain ⟨r, m, hr, hm, -⟩ := let_through_publishes hload hrefusal hto
  obtain ⟨members, method, hload', -, hmethod, -⟩ := h _ _ _ _ r m hr hm
  cases hload.symm.trans hload'
  have hnone : memberString (some (stringMembers [(cstr "to", cstr "enroll")]))
    (cstr "method") = none := by decide
  rw [memberString_eq_some_iff.mpr ⟨_, rfl, hmethod⟩] at hnone
  cases hnone

end Chamge
