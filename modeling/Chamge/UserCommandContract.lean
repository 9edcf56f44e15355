import Chamge.RpcContract
import Chamge.UserCommand

/-! When the agent's answer to a user command is the device's reply with
`CHAMGE_RETURN_OK`, or an explanation with `CHAMGE_RETURN_FAIL`. -/

namespace Chamge
open CString JsonGlib

def LinkOutcomes.Opens (link : LinkOutcomes) : Prop :=
  link.parseUrl = true ∧ link.socketOpen = true ∧ link.login = .normal ∧
    link.channelOpen = .ok ()

def LinkOutcomes.Closes (link : LinkOutcomes) : Prop :=
  link.channelClose = .normal ∧ link.connectionClose = .normal ∧ link.destroy = .ok ()

/-- The command is let through by every layer and its request is sent and awaited. -/
def ReachesWait (json : JsonParser) (agent : ArbiterAgent) (arbiter : ArbiterNode)
    (userCmd : Bytes) (link : LinkOutcomes) (p : RpcPrelude) : Prop :=
  (∃ root, json.loadFromData userCmd = .ok root ∧ refusal agent (nodeGetObject root) = none) ∧
    arbiter.state = .activated ∧
    (∃ settings, arbiter.backend = some (.amqp settings) ∧ settings.channel ≠ 0) ∧
    link.Opens ∧ getQueueName json userCmd ≠ none ∧ p.Passes

/-- The delivery carries the command's own correlation id. -/
def CarriesId (correlationId : Bytes) (o : ConsumeOutcome) : Prop :=
  o.reply = .normal ∧ o.envelope.properties.correlationIdFlag = true ∧
    o.envelope.properties.correlationId = correlationId

/-- The wait loop comes to `o`: it has discarded all that the trace delivers before. -/
def Consumes (correlationId : Bytes) (t : Trace ConsumeOutcome) (o : ConsumeOutcome) : Prop :=
  ∃ n pre post, t.take n = pre ++ o :: post ∧ ∀ x ∈ pre, waitVerdict correlationId x = .discard

/-- `o` is the reply that the addressed device sent for this command. -/
def DeviceReplied (json : JsonParser) (agent : ArbiterAgent) (arbiter : ArbiterNode)
    (userCmd : Bytes) (link : LinkOutcomes) (p : RpcPrelude) (t : Trace ConsumeOutcome)
    (o : ConsumeOutcome) : Prop :=
  ReachesWait json agent arbiter userCmd link p ∧ Consumes p.correlationId t o ∧
    CarriesId p.correlationId o

/-- One completion, with a response, which is `CHAMGE_RETURN_OK` exactly for the body of
the device's reply. Next to `CHAMGE_RETURN_FAIL` every text that is there is an explanation: the
agent passes on whatever the calls below have left, and only a missing text is filled in. -/
def AnswerContract (replied : ConsumeOutcome → Prop) (r : HandlerResult) : Prop :=
  ∃ ret response, r.completions = [(ret, some response)] ∧ (ret = .ok ∨ ret = .fail) ∧
    (ret = .ok ↔ ∃ o, replied o ∧ response = o.envelope.body)

/-- The command stays short of the wait loop, or waits for ever, or its connection closes
without failure exactly when the loop comes to a reply with the command's own id that a C
string holds in full. -/
def UserCommandKeepsContract (json : JsonParser) (agent : ArbiterAgent)
    (arbiter : ArbiterNode) (userCmd : Bytes) (link : LinkOutcomes) (p : RpcPrelude)
    (t : Trace ConsumeOutcome) : Prop :=
  ReachesWait json agent arbiter userCmd link p → KeepsWaiting none p.correlationId t ∨
    (link.Closes ↔ ∃ o, Consumes p.correlationId t o ∧ CarriesId p.correlationId o ∧
      Clean o.envelope.body)

/-! ### After the exchange -/

theorem closeLink_closes {link : LinkOutcomes} (h : link.Closes) (r : RpcResult) :
    (closeLink link r).ret = r.ret ∧ (closeLink link r).out = r.response := by
  obtain ⟨hch, hconn, hdes⟩ := h
  simp only [closeLink, hch, hconn, hdes, ne_eq, not_true_eq_false, if_false, and_self]

theorem closeLink_fails {link : LinkOutcomes} (h : ¬ link.Closes) (r : RpcResult) :
    (closeLink link r).ret = .fail ∧ (closeLink link r).out = r.response := by
  simp only [closeLink]
  split_ifs with hch hconn
  · exact ⟨rfl, rfl⟩
  · exact ⟨rfl, rfl⟩
  · cases hdes : link.destroy with
    | error why => exact ⟨rfl, rfl⟩
    | ok u => exact absurd ⟨not_not.mp hch, not_not.mp hconn, hdes⟩ h

theorem afterExchange_fail {link : LinkOutcomes} {r : RpcResult} (h : r.ret = .fail) :
    (afterExchange link r).ret = .fail ∧ (afterExchange link r).out = r.response := by
  unfold afterExchange
  split_ifs
  · exact ⟨h, rfl⟩
  by_cases hlink : link.Closes
  · exact h ▸ closeLink_closes hlink r
  · exact closeLink_fails hlink r

theorem afterExchange_ok {link : LinkOutcomes} {r : RpcResult} (h : r.ret = .ok) :
    afterExchange link r = closeLink link r :=
  if_neg fun hne => hne.1 h

theorem failureResponse_ne_nil (errors : List GError) : failureResponse errors ≠ [] := by
  rw [failureResponse, resultBody]
  exact List.append_ne_nil_of_right_ne_nil _ (by decide)

theorem answerWith_fail {r : UserCommandResult} (h : r.ret = .fail) :
    (answerWith r).completions = [(.fail, some (r.out.getD (failureResponse r.errors)))] := by
  have hne : ChamgeReturn.fail ≠ .ok := nofun
  simp only [answerWith, h, if_pos hne]

theorem answerWith_ok {r : UserCommandResult} (h : r.ret = .ok) :
    (answerWith r).completions = [(.ok, r.out)] := by
  simp only [answerWith, h, ne_eq, not_true_eq_false, if_false]

/-! ### The wait loop -/

theorem carriesId_verdict {cid : Bytes} {o : ConsumeOutcome} (h : CarriesId cid o) :
    waitVerdict cid o = .reply o.envelope := by
  obtain ⟨hreply, hflag, hid⟩ := h
  simp only [waitVerdict, hreply, hflag, hid, strncmp_self, ne_eq, not_true_eq_false,
    Bool.true_eq_false, if_false]

theorem Consumes.returns {cid : Bytes} {t : Trace ConsumeOutcome} {o : ConsumeOutcome}
    (h : Consumes cid t o) (hid : CarriesId cid o) :
    t.Returns (waitLoop none cid 0) (.reply o.envelope) := by
  obtain ⟨n, pre, post, hsplit, hpre⟩ := h
  exact returns_reply_iff.mpr ⟨n, pre, o, post, hsplit, hpre, rfl, carriesId_verdict hid⟩

theorem handle_waits {json : JsonParser} {agent : ArbiterAgent} {arbiter : ArbiterNode}
    {userCmd : Bytes} {link : LinkOutcomes} {p : RpcPrelude}
    (h : ReachesWait json agent arbiter userCmd link p) : ∃ m, ∀ os,
    chamgeArbiterAgentHandleUserCommand json agent arbiter userCmd link p os =
      (waitLoop none p.correlationId 0 os).map fun x =>
        answerWith (closeLink link (afterWait amqpGetRpcReplyString none m x)) := by
  obtain ⟨⟨root, hload, hgate⟩, hstate, ⟨settings, hback, hch⟩, ⟨hurl, hsock, hlogin, hopen⟩,
    htarget, hp⟩ := h
  obtain ⟨m, hm⟩ := call_waits .arbiter _
    ⟨settings.channel, userCmd, some settings.exchange, none⟩ none
    ⟨hch, Or.inl rfl⟩ htarget hp
  refine ⟨m, fun os => ?_⟩
  have hcall := hm os
  simp only [RpcCopy.call, RpcCopy.limit, RpcCopy.text] at hcall
  simp only [chamgeArbiterAgentHandleUserCommand, hload, hgate, chamgeNodeUserCommand, hstate,
    ne_eq, not_true_eq_false, if_false, chamgeArbiterBackendUserCommand, hback,
    chamgeAmqpArbiterBackendUserCommand, hurl, hsock, hlogin, hopen, Bool.true_eq_false, hcall,
    Option.map_map]
  apply congrArg (Option.map · (waitLoop none p.correlationId 0 os))
  funext x
  exact congrArg answerWith (afterExchange_ok rfl)

theorem backend_refused {json : JsonParser} {backend : Option ArbiterBackendObject}
    {cmd : Bytes} {link : LinkOutcomes} {p : RpcPrelude}
    (h : ∀ settings, backend = some (.amqp settings) → ¬ (settings.channel ≠ 0 ∧ link.Opens ∧
      getQueueName json cmd ≠ none ∧ p.Passes)) : ∃ r, (∀ os,
    chamgeArbiterBackendUserCommand json backend cmd link p os none = some r) ∧
      r.ret = .fail := by
  rcases backend with _ | (settings | _)
  · exact ⟨_, fun os => rfl, rfl⟩
  · simp only [chamgeArbiterBackendUserCommand, chamgeAmqpArbiterBackendUserCommand]
    split_ifs with hurl hsock hlogin
    · exact ⟨_, fun os => rfl, rfl⟩
    · exact ⟨_, fun os => rfl, rfl⟩
    · exact ⟨_, fun os => rfl, rfl⟩
    cases hopen : link.channelOpen with
    | error r => exact ⟨_, fun os => rfl, rfl⟩
    | ok u =>
      have hlink : link.Opens := ⟨Bool.not_eq_false _ ▸ hurl, Bool.not_eq_false _ ▸ hsock,
        not_not.mp hlogin, hopen⟩
      obtain ⟨r, hr, hret, _⟩ := call_refused .arbiter json
        ⟨settings.channel, cmd, some settings.exchange, none⟩ p none
        fun hwait => h settings rfl ⟨hwait.1.1, hlink, hwait.2⟩
      simp only [RpcCopy.call] at hr
      exact ⟨afterExchange link r, fun os => by simp only [hr os, Option.map_some],
        (afterExchange_fail hret).1⟩
  · exact ⟨_, fun os => rfl, rfl⟩

theorem handle_refused {json : JsonParser} {agent : ArbiterAgent} {arbiter : ArbiterNode}
    {userCmd : Bytes} {link : LinkOutcomes} {p : RpcPrelude}
    (h : ¬ ReachesWait json agent arbiter userCmd link p) : ∃ r response, (∀ os,
    chamgeArbiterAgentHandleUserCommand json agent arbiter userCmd link p os = some r) ∧
      r.completions = [(.fail, some response)] := by
  unfold chamgeArbiterAgentHandleUserCommand
  cases hload : json.loadFromData userCmd with
  | error e => exact ⟨_, _, fun os => rfl, rfl⟩
  | ok root =>
    cases hgate : refusal agent (nodeGetObject root) with
    | some response =>
      simp only [hgate]
      exact ⟨_, response, fun os => rfl, rfl⟩
    | none =>
      simp only [hgate]
      suffices hnode : ∃ r, (∀ os, chamgeNodeUserCommand json arbiter userCmd link p os none =
          some r) ∧ r.ret = .fail by
        obtain ⟨r, hr, hret⟩ := hnode
        exact ⟨answerWith r, _, fun os => by rw [hr os, Option.map_some], answerWith_fail hret⟩
      unfold chamgeNodeUserCommand
      by_cases hstate : arbiter.state = .activated
      · simp only [hstate, ne_eq, not_true_eq_false, if_false]
        exact backend_refused fun settings hback hrest =>
          h ⟨⟨root, hload, hgate⟩, hstate, ⟨settings, hback, hrest.1⟩, hrest.2⟩
      · simp only [hstate, ne_eq, not_false_eq_true, if_true]
        exact ⟨_, fun os => rfl, rfl⟩

/-! ### The contract -/

def waitAnswer (link : LinkOutcomes) (m : Publication) (x : WaitExit) : HandlerResult :=
  answerWith (closeLink link (afterWait amqpGetRpcReplyString none m x))

theorem waitAnswer_closes {link : LinkOutcomes} (h : link.Closes) (m : Publication)
    (x : WaitExit) : (waitAnswer link m x).completions =
      [(.ok, (afterWait amqpGetRpcReplyString none m x).response)] := by
  obtain ⟨hret, hout⟩ := closeLink_closes h (afterWait amqpGetRpcReplyString none m x)
  rw [waitAnswer, answerWith_ok hret, hout]

theorem waitAnswer_fails {link : LinkOutcomes} (h : ¬ link.Closes) (m : Publication)
    (x : WaitExit) : ∃ text, text ≠ [] ∧ (waitAnswer link m x).completions =
      [(.fail, some ((afterWait amqpGetRpcReplyString none m x).response.getD text))] := by
  obtain ⟨hret, hout⟩ := closeLink_fails h (afterWait amqpGetRpcReplyString none m x)
  exact ⟨_, failureResponse_ne_nil _, by rw [waitAnswer, answerWith_fail hret, hout]⟩

/-- What was left of the loop keeps the contract exactly when the connection closes
without failure on the command's own reply and fails to close on anything else. -/
theorem waitAnswer_contract_iff {cid : Bytes} {t : Trace ConsumeOutcome} {link : LinkOutcomes}
    {m : Publication} {x : WaitExit} (hx : t.Returns (waitLoop none cid 0) x) :
    AnswerContract (fun o => Consumes cid t o ∧ CarriesId cid o) (waitAnswer link m x) ↔
      (link.Closes ↔ ∃ o, Consumes cid t o ∧ CarriesId cid o ∧ Clean o.envelope.body) := by
  have hreply : ∀ o, Consumes cid t o → CarriesId cid o → x = .reply o.envelope :=
    fun o ho hid => waitLoop_returns_unique hx (ho.returns hid)
  by_cases hlink : link.Closes
  · simp only [hlink, true_iff]
    rw [AnswerContract, waitAnswer_closes hlink]
    constructor
    · rintro ⟨ret, response, hc, -, hiff⟩
      obtain ⟨hret, hresp⟩ := Prod.mk.inj (List.cons.inj hc).1
      obtain ⟨o, ⟨ho, hid⟩, rfl⟩ := hiff.mp hret.symm
      obtain rfl := hreply o ho hid
      exact ⟨o, ho, hid, (strndup_eq_self_iff _).mp hresp⟩
    · rintro ⟨o, ho, hid, hclean⟩
      obtain rfl := hreply o ho hid
      have hbody : (afterWait amqpGetRpcReplyString none m (.reply o.envelope)).response =
          some o.envelope.body := (strndup_eq_self_iff _).mpr hclean
      rw [hbody]
      exact ⟨.ok, _, rfl, Or.inl rfl, iff_of_true rfl ⟨o, ⟨ho, hid⟩, rfl⟩⟩
  · obtain ⟨text, htext, hc⟩ := waitAnswer_fails hlink m x
    simp only [hlink, false_iff]
    rw [AnswerContract, hc]
    constructor
    · rintro ⟨ret, response, hc', -, hiff⟩ ⟨o, ho, hid, hclean⟩
      obtain ⟨hret, hresp⟩ := Prod.mk.inj (List.cons.inj hc').1
      obtain rfl := hreply o ho hid
      have hbody : (afterWait amqpGetRpcReplyString none m (.reply o.envelope)).response =
          some o.envelope.body := (strndup_eq_self_iff _).mpr hclean
      rw [hbody, Option.getD_some, Option.some.injEq] at hresp
      have hok : ret = .ok := hiff.mpr ⟨o, ⟨ho, hid⟩, hresp.symm⟩
      have hclash := hret.trans hok
      cases hclash
    · intro hno
      refine ⟨.fail, _, rfl, Or.inr rfl, iff_of_false (by simp) ?_⟩
      rintro ⟨o, ⟨ho, hid⟩, hbody⟩
      obtain rfl := hreply o ho hid
      have hresp : (afterWait amqpGetRpcReplyString none m (.reply o.envelope)).response =
        strndup o.envelope.body := rfl
      rw [hresp] at hbody
      cases hdup : strndup o.envelope.body with
      | none =>
        rw [hdup, Option.getD_none, (strndup_eq_none_iff _).mp hdup] at hbody
        exact htext hbody
      | some b =>
        rw [hdup, Option.getD_some] at hbody
        exact hno ⟨o, ho, hid, (strndup_eq_self_iff _).mp (hbody ▸ hdup)⟩

/-- For every command, registry, node and trace: the returns of the handler keep the
answer contract exactly under `UserCommandKeepsContract`. -/
theorem user_command_contract_iff (json : JsonParser) (agent : ArbiterAgent)
    (arbiter : ArbiterNode) (userCmd : Bytes) (link : LinkOutcomes) (p : RpcPrelude)
    (t : Trace ConsumeOutcome) :
    (∀ r, t.Returns (fun os => chamgeArbiterAgentHandleUserCommand json agent arbiter userCmd
        link p os) r →
      AnswerContract (DeviceReplied json agent arbiter userCmd link p t) r) ↔
    UserCommandKeepsContract json agent arbiter userCmd link p t := by
  by_cases hwait : ReachesWait json agent arbiter userCmd link p
  · obtain ⟨m, hm⟩ := handle_waits hwait
    have hreplied : DeviceReplied json agent arbiter userCmd link p t =
        fun o => Consumes p.correlationId t o ∧ CarriesId p.correlationId o := by
      funext o
      apply propext
      exact ⟨And.right, fun h => ⟨hwait, h⟩⟩
    simp only [hm, hreplied, returns_map, UserCommandKeepsContract, hwait, forall_const,
      forall_exists_index, and_imp]
    constructor
    · intro h
      by_cases hk : KeepsWaiting none p.correlationId t
      · exact Or.inl hk
      simp only [keepsWaiting_iff, not_forall, not_not] at hk
      obtain ⟨x, hx⟩ := hk
      exact Or.inr ((waitAnswer_contract_iff hx).mp (h _ x hx rfl))
    · rintro (hk | hclose) r x hx rfl
      · exact absurd hx (keepsWaiting_iff.mp hk x)
      · exact (waitAnswer_contract_iff hx).mpr hclose
  · obtain ⟨r, response, hr, hc⟩ := handle_refused hwait
    refine iff_of_true ?_ fun h => absurd h hwait
    rintro r' ⟨n, hn⟩
    obtain rfl : r = r' := Option.some.inj ((hr _).symm.trans hn)
    exact ⟨.fail, response, hc, Or.inr rfl,
      iff_of_false (by simp) fun ⟨o, ho, _⟩ => hwait ho.1⟩

/-! A command that is let through, sent, and never answered. -/

def streamingStart : Bytes := cstr "\x7b\"method\":\"streamingStart\",\"to\":\"edge-1\"\x7d"

def streamingParser : JsonParser where
  loadFromData body :=
    if body = streamingStart then
      .ok (some (.object [(cstr "method", .string (cstr "streamingStart")),
        (cstr "to", .string (cstr "edge-1"))]))
    else .error []

def silentEdge : ArbiterAgent := ⟨[cstr "edge-1"], []⟩

def activeArbiter : ArbiterNode := ⟨.activated, some (.amqp ⟨1, cstr "amq.direct"⟩)⟩

def workingLink : LinkOutcomes :=
  { parseUrl := true, socketOpen := true, login := .normal, channelOpen := .ok (),
    channelClose := .normal, connectionClose := .normal, destroy := .ok () }

/-- An enrolled edge that does not answer within the time-out: the D-Bus caller gets
`CHAMGE_RETURN_OK` and a `NULL` response. -/
theorem silent_edge_breaks_contract : ¬ ∀ r,
    (Trace.finite [timedOut]).Returns (fun os => chamgeArbiterAgentHandleUserCommand
      streamingParser silentEdge activeArbiter streamingStart workingLink openPrelude os) r →
    AnswerContract (DeviceReplied streamingParser silentEdge activeArbiter streamingStart
      workingLink openPrelude (.finite [timedOut])) r := by
  intro h
  have hrun : (chamgeArbiterAgentHandleUserCommand streamingParser silentEdge activeArbiter
      streamingStart workingLink openPrelude [timedOut]).map HandlerResult.completions =
        some [(.ok, none)] := by decide
  obtain ⟨r, hr, hc⟩ := Option.map_eq_some_iff.mp hrun
  obtain ⟨ret, response, hc', _⟩ := h r ⟨1, hr⟩
  rw [hc] at hc'
  have hclash := (Prod.mk.inj (List.cons.inj hc').1).2
  cases hclash

end Chamge
