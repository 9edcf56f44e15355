import Chamge.RpcRequest

/-! When a request keeps its result contract: `CHAMGE_RETURN_OK` for an accepted reply and
its body, `CHAMGE_RETURN_FAIL` with an error and nothing else for every other end. -/

namespace Chamge
open CString JsonGlib

def RpcCopy.target (copy : RpcCopy) (json : JsonParser) (args : RpcArgs) : Option Bytes :=
  match copy with
  | .edge | .hub => args.queueName
  | .arbiter => getQueueName json args.request

def RpcCopy.limit : RpcCopy → Option ℕ
  | .edge | .hub => some 10
  | .arbiter => none

def RpcCopy.text : RpcCopy → AmqpRpcReply → Bytes
  | .edge | .hub => amqpRpcReplyString
  | .arbiter => amqpGetRpcReplyString

/-- The arguments pass the entry checks. The arbiter's copy has no queue name to check. -/
def RpcCopy.ArgsOk (copy : RpcCopy) (args : RpcArgs) : Prop :=
  args.channel ≠ 0 ∧ (copy = .arbiter ∨ args.queueName ≠ none)

def RpcPrelude.Passes (p : RpcPrelude) : Prop :=
  p.queueCheck = .ok () ∧ (∃ q, p.replyQueue = .ok q) ∧ p.publish = .ok () ∧ p.consume = .ok ()

/-- After deliveries that are discarded, and before the limit, the trace delivers `e` with
a matching correlation id. -/
def Accepts (limit : Option ℕ) (correlationId : Bytes) (t : Trace ConsumeOutcome)
    (e : AmqpEnvelope) : Prop :=
  ∃ n pre o post, t.take n = pre ++ o :: post ∧
    (∀ x ∈ pre, waitVerdict correlationId x = .discard) ∧
    overLimit limit pre.length = false ∧ waitVerdict correlationId o = .reply e

/-- The trace holds only deliveries that are discarded, and not more than the limit. -/
def KeepsWaiting (limit : Option ℕ) (correlationId : Bytes) (t : Trace ConsumeOutcome) :
    Prop :=
  ∀ n, (∀ x ∈ t.take n, waitVerdict correlationId x = .discard) ∧
    overLimit limit (t.take n).length = false

/-! ### The wait loop -/

theorem overLimit_mono {limit : Option ℕ} {m n : ℕ} (h : m ≤ n)
    (hn : overLimit limit n = false) : overLimit limit m = false := by
  cases limit with
  | none => rfl
  | some k =>
    simp only [overLimit, Option.any_some, decide_eq_false_iff_not, not_lt] at hn ⊢
    exact h.trans hn

theorem waitLoop_cons_discard {limit : Option ℕ} {cid : Bytes} {k : ℕ} {o : ConsumeOutcome}
    {os : List ConsumeOutcome} (hk : overLimit limit k = false)
    (ho : waitVerdict cid o = .discard) :
    waitLoop limit cid k (o :: os) = waitLoop limit cid (k + 1) os := by
  simp only [waitLoop, hk, Bool.false_eq_true, if_false, ho, WaitVerdict.exit]

theorem waitLoop_discards {limit : Option ℕ} {cid : Bytes} {pre os : List ConsumeOutcome}
    (hpre : ∀ x ∈ pre, waitVerdict cid x = .discard) {k : ℕ}
    (hk : overLimit limit (k + pre.length) = false) :
    waitLoop limit cid k (pre ++ os) = waitLoop limit cid (k + pre.length) os := by
  induction pre generalizing k with
  | nil => rfl
  | cons o pre ih =>
    have hlen : k + (o :: pre).length = k + 1 + pre.length := by
      simp only [List.length_cons]
      omega
    rw [hlen] at hk ⊢
    -- the counter is within the limit at every pass before the last one
    have hnow : overLimit limit k = false := overLimit_mono (by omega) hk
    have ho : waitVerdict cid o = .discard := hpre o (List.mem_cons_self ..)
    rw [List.cons_append, waitLoop_cons_discard hnow ho]
    exact ih (fun x hx => hpre x (List.mem_cons_of_mem _ hx)) hk

theorem waitLoop_stop {limit : Option ℕ} {cid : Bytes} {k : ℕ} {o : ConsumeOutcome}
    {os : List ConsumeOutcome} {x : WaitExit} (hk : overLimit limit k = false)
    (ho : (waitVerdict cid o).exit = some x) : waitLoop limit cid k (o :: os) = some x := by
  simp only [waitLoop, hk, Bool.false_eq_true, if_false, ho]

theorem waitLoop_eq_none_iff {limit : Option ℕ} {cid : Bytes} {k : ℕ}
    {l : List ConsumeOutcome} : waitLoop limit cid k l = none ↔
      (∀ x ∈ l, waitVerdict cid x = .discard) ∧ overLimit limit (k + l.length) = false := by
  induction l generalizing k with
  | nil => simp [waitLoop]
  | cons o os ih =>
    have hlen : k + (o :: os).length = k + 1 + os.length := by
      simp only [List.length_cons]
      omega
    rw [hlen]
    by_cases hk : overLimit limit k = true
    · have hnot : overLimit limit (k + 1 + os.length) ≠ false := by
        intro h
        have hnow : overLimit limit k = false := overLimit_mono (by omega) h
        have hclash := hnow.symm.trans hk
        cases hclash
      simp only [waitLoop, hk, if_true, reduceCtorEq, hnot, and_false]
    · have hk : overLimit limit k = false := Bool.eq_false_iff.mpr hk
      cases ho : waitVerdict cid o with
      | discard =>
        rw [waitLoop_cons_discard hk ho, ih]
        simp only [List.forall_mem_cons, ho, true_and]
      | timeout | failure | reply =>
        rw [waitLoop_stop (x := _) hk (by rw [ho]; rfl)]
        simp only [reduceCtorEq, List.forall_mem_cons, ho, false_and]

theorem waitLoop_append {limit : Option ℕ} {cid : Bytes} {k : ℕ} {l : List ConsumeOutcome}
    {x : WaitExit} (h : waitLoop limit cid k l = some x) (os : List ConsumeOutcome) :
    waitLoop limit cid k (l ++ os) = some x := by
  induction l generalizing k with
  | nil =>
    have hk : overLimit limit k = true := by
      by_contra hk
      simp only [waitLoop, hk, if_false, reduceCtorEq] at h
    simp only [waitLoop, hk, if_true, Option.some.injEq] at h
    cases os <;> simp only [List.nil_append, waitLoop, hk, if_true, h]
  | cons o l ih =>
    rw [List.cons_append]
    simp only [waitLoop] at h ⊢
    split_ifs at h ⊢
    · exact h
    · cases hv : (waitVerdict cid o).exit with
      | some y => simpa only [hv] using h
      | none =>
        simp only [hv] at h ⊢
        exact ih h

theorem exit_eq_reply_iff {v : WaitVerdict} {e : AmqpEnvelope} :
    v.exit = some (.reply e) ↔ v = .reply e := by
  cases v <;> simp [WaitVerdict.exit]

theorem waitLoop_reply {limit : Option ℕ} {cid : Bytes} {k : ℕ} {l : List ConsumeOutcome}
    {e : AmqpEnvelope} (h : waitLoop limit cid k l = some (.reply e)) :
    ∃ pre o post, l = pre ++ o :: post ∧ (∀ x ∈ pre, waitVerdict cid x = .discard) ∧
      overLimit limit (k + pre.length) = false ∧ waitVerdict cid o = .reply e := by
  induction l generalizing k with
  | nil =>
    simp only [waitLoop] at h
    split_ifs at h
    simp at h
  | cons o os ih =>
    simp only [waitLoop] at h
    split_ifs at h with hk
    · simp at h
    have hk : overLimit limit k = false := Bool.eq_false_iff.mpr hk
    cases hv : (waitVerdict cid o).exit with
    | some y =>
      simp only [hv, Option.some.injEq] at h
      rw [h, exit_eq_reply_iff] at hv
      exact ⟨[], o, os, rfl, fun x hx => absurd hx List.not_mem_nil, hk, hv⟩
    | none =>
      simp only [hv] at h
      have hd : waitVerdict cid o = .discard := by
        cases hw : waitVerdict cid o <;> simp_all [WaitVerdict.exit]
      obtain ⟨pre, o', post, rfl, hpre, hlim, ho'⟩ := ih h
      refine ⟨o :: pre, o', post, rfl, ?_, ?_, ho'⟩
      · rintro x (_ | ⟨_, hx⟩)
        · exact hd
        · exact hpre x hx
      · rw [List.length_cons, show k + (pre.length + 1) = k + 1 + pre.length by omega]
        exact hlim

theorem returns_reply_iff {limit : Option ℕ} {cid : Bytes} {t : Trace ConsumeOutcome}
    {e : AmqpEnvelope} :
    t.Returns (waitLoop limit cid 0) (.reply e) ↔ Accepts limit cid t e := by
  constructor
  · rintro ⟨n, hn⟩
    obtain ⟨pre, o, post, hsplit, hpre, hlim, ho⟩ := waitLoop_reply hn
    exact ⟨n, pre, o, post, hsplit, hpre, by rwa [Nat.zero_add] at hlim, ho⟩
  · rintro ⟨n, pre, o, post, hsplit, hpre, hlim, ho⟩
    refine ⟨n, ?_⟩
    rw [hsplit, waitLoop_discards hpre (by rwa [Nat.zero_add])]
    exact waitLoop_stop (by rwa [Nat.zero_add]) (exit_eq_reply_iff.mpr ho)

theorem keepsWaiting_iff {limit : Option ℕ} {cid : Bytes} {t : Trace ConsumeOutcome} :
    KeepsWaiting limit cid t ↔ ∀ x, ¬ t.Returns (waitLoop limit cid 0) x := by
  constructor
  · rintro h x ⟨n, hn⟩
    have hnone : waitLoop limit cid 0 (t.take n) = none :=
      waitLoop_eq_none_iff.mpr ⟨(h n).1, by rw [Nat.zero_add]; exact (h n).2⟩
    have hclash := hnone.symm.trans hn
    cases hclash
  · intro h n
    cases hw : waitLoop limit cid 0 (t.take n) with
    | some x => exact absurd ⟨n, hw⟩ (h x)
    | none => simpa only [Nat.zero_add] using waitLoop_eq_none_iff.mp hw

theorem waitLoop_returns_unique {limit : Option ℕ} {cid : Bytes} {t : Trace ConsumeOutcome}
    {x y : WaitExit} (hx : t.Returns (waitLoop limit cid 0) x)
    (hy : t.Returns (waitLoop limit cid 0) y) : x = y := by
  refine hx.unique ?_ hy
  rintro l m z hz ⟨rest, rfl⟩
  exact waitLoop_append hz rest

/-! ### The contract -/

/-- The call gets as far as its wait loop, which accepts `e`. -/
def Replied (copy : RpcCopy) (json : JsonParser) (args : RpcArgs) (p : RpcPrelude)
    (t : Trace ConsumeOutcome) (e : AmqpEnvelope) : Prop :=
  copy.ArgsOk args ∧ copy.target json args ≠ none ∧ p.Passes ∧
    Accepts copy.limit p.correlationId t e

structure ResultContract (replied : AmqpEnvelope → Prop) (response : Option Bytes)
    (r : RpcResult) : Prop where
  ok_iff : r.ret = .ok ↔ ∃ e, replied e
  body : ∀ e, replied e → r.response = some e.body
  failed : (¬ ∃ e, replied e) →
    r.ret = .fail ∧ r.response = response ∧ errorSlot r.errors ≠ none

/-- A call that reaches its wait loop is kept waiting or gets a reply that a C string
holds in full; a call that fails before passes its argument checks. -/
def RpcKeepsContract (copy : RpcCopy) (json : JsonParser) (args : RpcArgs) (p : RpcPrelude)
    (t : Trace ConsumeOutcome) : Prop :=
  copy.ArgsOk args ∧ (copy.target json args ≠ none → p.Passes →
    KeepsWaiting copy.limit p.correlationId t ∨
      ∃ e, Accepts copy.limit p.correlationId t e ∧ Clean e.body)

theorem rpcExchange_waits (text : AmqpRpcReply → Bytes) (limit : Option ℕ) (args : RpcArgs)
    (target : Bytes) {p : RpcPrelude} (response : Option Bytes) (hp : p.Passes) :
    ∃ m, ∀ os, rpcExchange text limit args target p os response =
      (waitLoop limit p.correlationId 0 os).map (afterWait text response m) := by
  obtain ⟨hq, ⟨q, hr⟩, hpub, hcon⟩ := hp
  refine ⟨⟨args.exchange.getD [], target, requestProperties q p.correlationId,
    args.request⟩, fun os => ?_⟩
  simp only [rpcExchange, hq, hr, hpub, hcon]

theorem rpcExchange_refused (text : AmqpRpcReply → Bytes) (limit : Option ℕ)
    (args : RpcArgs) (target : Bytes) {p : RpcPrelude} (response : Option Bytes)
    (hp : ¬ p.Passes) :
    ∃ r, (∀ os, rpcExchange text limit args target p os response = some r) ∧
      r.ret = .fail ∧ r.response = response ∧ errorSlot r.errors ≠ none := by
  unfold rpcExchange
  cases hq : p.queueCheck with
  | error r => exact ⟨_, fun os => rfl, rfl, rfl, by simp [errorSlot]⟩
  | ok u =>
    cases hr : p.replyQueue with
    | error r => exact ⟨_, fun os => rfl, rfl, rfl, by simp [errorSlot]⟩
    | ok q =>
      cases hpub : p.publish with
      | error why => exact ⟨_, fun os => rfl, rfl, rfl, by simp [errorSlot]⟩
      | ok u' =>
        cases hcon : p.consume with
        | error r => exact ⟨_, fun os => rfl, rfl, rfl, by simp [errorSlot]⟩
        | ok u'' => exact absurd ⟨hq, ⟨q, hr⟩, hpub, hcon⟩ hp

theorem rpcExchange_published {text : AmqpRpcReply → Bytes} {limit : Option ℕ} {args : RpcArgs}
    {target : Bytes} {p : RpcPrelude} {os : List ConsumeOutcome} {response : Option Bytes}
    {r : RpcResult} (h : rpcExchange text limit args target p os response = some r) :
    ∀ m ∈ r.published, m.routingKey = target ∧ m.body = args.request := by
  unfold rpcExchange at h
  cases hcheck : p.queueCheck <;> simp only [hcheck] at h
  · cases h
    nofun
  cases hreply : p.replyQueue <;> simp only [hreply] at h
  · cases h
    nofun
  cases hpublish : p.publish <;> simp only [hpublish] at h
  · cases h
    nofun
  cases hconsume : p.consume <;> simp only [hconsume] at h
  · cases h
    exact fun m hm => Option.some.inj hm ▸ ⟨rfl, rfl⟩
  · obtain ⟨x, -, rfl⟩ := Option.map_eq_some_iff.mp h
    exact fun m hm => Option.some.inj hm ▸ ⟨rfl, rfl⟩

theorem call_of_argsOk {copy : RpcCopy} {json : JsonParser} {args : RpcArgs} {target : Bytes}
    (hargs : copy.ArgsOk args) (htarget : copy.target json args = some target)
    (p : RpcPrelude) (os : List ConsumeOutcome) (response : Option Bytes) :
    copy.call json args p os response =
      rpcExchange copy.text copy.limit args target p os response := by
  cases copy with
  | edge | hub =>
    simp only [RpcCopy.target] at htarget
    simp only [RpcCopy.call, amqpRpcRequest, if_neg hargs.1, htarget, RpcCopy.text,
      RpcCopy.limit]
  | arbiter =>
    simp only [RpcCopy.target] at htarget
    simp only [RpcCopy.call, handleRpcUserCommand, if_neg hargs.1, htarget, RpcCopy.text,
      RpcCopy.limit]

theorem call_refused (copy : RpcCopy) (json : JsonParser) (args : RpcArgs) (p : RpcPrelude)
    (response : Option Bytes)
    (h : ¬ (copy.ArgsOk args ∧ copy.target json args ≠ none ∧ p.Passes)) :
    ∃ r, (∀ os, copy.call json args p os response = some r) ∧ r.ret = .fail ∧
      r.response = response ∧ (errorSlot r.errors ≠ none ↔ copy.ArgsOk args) := by
  by_cases hargs : copy.ArgsOk args
  · cases htarget : copy.target json args with
    | some target =>
      have hp : ¬ p.Passes := fun hp => h ⟨hargs, by simp [htarget], hp⟩
      obtain ⟨r, hr, hret, hresp, herr⟩ := rpcExchange_refused copy.text copy.limit args target
        response hp
      exact ⟨r, fun os => (call_of_argsOk hargs htarget p os response).trans (hr os), hret,
        hresp, iff_of_true herr hargs⟩
    | none =>
      cases copy with
      | edge | hub =>
        have hname : args.queueName ≠ none := hargs.2.resolve_left (by simp)
        exact absurd htarget hname
      | arbiter =>
        simp only [RpcCopy.target] at htarget
        simp only [RpcCopy.call, handleRpcUserCommand, if_neg hargs.1, htarget]
        exact ⟨_, fun os => rfl, rfl, rfl, iff_of_true (by simp [errorSlot]) hargs⟩
  · refine ⟨⟨.fail, response, [], none⟩, fun os => ?_, rfl, rfl,
      iff_of_false (fun hne => hne rfl) hargs⟩
    by_cases hc : args.channel = 0
    · cases copy <;>
        simp only [RpcCopy.call, amqpRpcRequest, handleRpcUserCommand, hc, if_true]
    · have hcopy : copy ≠ .arbiter := fun e => hargs ⟨hc, Or.inl e⟩
      have hname : args.queueName = none := by
        by_contra hname
        exact hargs ⟨hc, Or.inr hname⟩
      cases copy with
      | edge | hub => simp only [RpcCopy.call, amqpRpcRequest, if_neg hc, hname]
      | arbiter => exact absurd rfl hcopy

theorem call_waits (copy : RpcCopy) (json : JsonParser) (args : RpcArgs) {p : RpcPrelude}
    (response : Option Bytes) (hargs : copy.ArgsOk args)
    (htarget : copy.target json args ≠ none) (hp : p.Passes) :
    ∃ m, ∀ os, copy.call json args p os response =
      (waitLoop copy.limit p.correlationId 0 os).map (afterWait copy.text response m) := by
  obtain ⟨target, htarget⟩ := Option.ne_none_iff_exists'.mp htarget
  obtain ⟨m, hm⟩ := rpcExchange_waits copy.text copy.limit args target response hp
  exact ⟨m, fun os => (call_of_argsOk hargs htarget p os response).trans (hm os)⟩

/-- A call that reaches its wait loop keeps the contract unless the loop is left without
a reply, or with one that the out-parameter cannot hold. -/
theorem waiting_contract_iff {limit : Option ℕ} {cid : Bytes} {t : Trace ConsumeOutcome}
    (text : AmqpRpcReply → Bytes) (response : Option Bytes) (m : Publication) :
    (∀ x, t.Returns (waitLoop limit cid 0) x →
      ResultContract (Accepts limit cid t) response (afterWait text response m x)) ↔
    (KeepsWaiting limit cid t ∨ ∃ e, Accepts limit cid t e ∧ Clean e.body) := by
  constructor
  · intro h
    by_cases hk : KeepsWaiting limit cid t
    · exact Or.inl hk
    simp only [keepsWaiting_iff, not_forall, not_not] at hk
    obtain ⟨x, hx⟩ := hk
    have hc := h x hx
    -- whatever left the loop, the code says `CHAMGE_RETURN_OK`
    obtain ⟨e, he⟩ := hc.ok_iff.mp rfl
    obtain rfl : x = .reply e := waitLoop_returns_unique hx (returns_reply_iff.mpr he)
    have hcopy : strndup e.body = some e.body := hc.body e he
    exact Or.inr ⟨e, he, (strndup_eq_self_iff e.body).mp hcopy⟩
  · rintro (hk | ⟨e, he, hclean⟩) x hx
    · exact absurd hx (keepsWaiting_iff.mp hk x)
    · obtain rfl : x = .reply e := waitLoop_returns_unique hx (returns_reply_iff.mpr he)
      refine ⟨iff_of_true rfl ⟨e, he⟩, fun e' he' => ?_, fun hno => absurd ⟨e, he⟩ hno⟩
      have heq := waitLoop_returns_unique hx (returns_reply_iff.mpr he')
      obtain rfl : e = e' := WaitExit.reply.inj heq
      exact (strndup_eq_self_iff e.body).mpr hclean

theorem returns_map {α β γ : Type*} {p : List α → Option β} {f : β → γ} {t : Trace α}
    {c : γ} : t.Returns (fun l => (p l).map f) c ↔ ∃ b, t.Returns p b ∧ f b = c := by
  simp only [Trace.Returns, Option.map_eq_some_iff]
  exact ⟨fun ⟨n, b, hb, hf⟩ => ⟨b, ⟨n, hb⟩, hf⟩, fun ⟨b, ⟨n, hb⟩, hf⟩ => ⟨n, b, hb, hf⟩⟩

/-- For each copy of the client, every request and every trace: the returns of the call
keep the contract exactly under `RpcKeepsContract`. -/
theorem rpc_contract_iff (copy : RpcCopy) (json : JsonParser) (args : RpcArgs)
    (p : RpcPrelude) (t : Trace ConsumeOutcome) (response : Option Bytes) :
    (∀ r, t.Returns (fun os => copy.call json args p os response) r →
      ResultContract (Replied copy json args p t) response r) ↔
    RpcKeepsContract copy json args p t := by
  by_cases hwait : copy.ArgsOk args ∧ copy.target json args ≠ none ∧ p.Passes
  · obtain ⟨hargs, htarget, hp⟩ := hwait
    obtain ⟨m, hm⟩ := call_waits copy json args response hargs htarget hp
    have hreplied : Replied copy json args p t = Accepts copy.limit p.correlationId t := by
      funext e
      apply propext
      exact ⟨fun h => h.2.2.2, fun h => ⟨hargs, htarget, hp, h⟩⟩
    simp only [hm, hreplied, returns_map, RpcKeepsContract, hargs, htarget, hp, true_and,
      forall_exists_index, and_imp, ne_eq, not_false_eq_true, forall_const]
    rw [← waiting_contract_iff copy.text response m]
    exact ⟨fun h x hx => h _ x hx rfl, fun h r x hx hr => hr ▸ h x hx⟩
  · obtain ⟨r, hr, hret, hresp, herr⟩ := call_refused copy json args p response hwait
    have hno : ¬ ∃ e, Replied copy json args p t e :=
      fun ⟨e, he⟩ => hwait ⟨he.1, he.2.1, he.2.2.1⟩
    have hok : r.ret ≠ .ok := by simp [hret]
    constructor
    · intro h
      have hc := h r ⟨0, hr _⟩
      have hargs : copy.ArgsOk args := herr.mp (hc.failed hno).2.2
      exact ⟨hargs, fun htarget hp => absurd ⟨hargs, htarget, hp⟩ hwait⟩
    · rintro ⟨hargs, _⟩ r' ⟨n, hn⟩
      obtain rfl : r = r' := Option.some.inj ((hr _).symm.trans hn)
      exact ⟨iff_of_false hok hno, fun e he => absurd ⟨e, he⟩ hno,
        fun _ => ⟨hret, hresp, herr.mpr hargs⟩⟩

def activateArgs : RpcArgs :=
  { channel := 1, exchange := some (cstr "amq.direct"), queueName := some (cstr "enroll"),
    request := cstr "\x7b\"method\":\"activate\",\"deviceType\":\"edge\",\"edgeId\":\"e\"\x7d" }

def openPrelude : RpcPrelude :=
  { queueCheck := .ok (), replyQueue := .ok (cstr "amq.gen-1"), publish := .ok (),
    correlationId := cstr "9f86d081884c7d659a2feaa0c55ad015a3bf4f1b2b0b822cd15d6c15b0f00a08",
    consume := .ok () }

def timedOut : ConsumeOutcome :=
  ⟨.libraryException amqpStatusTimeout (cstr "request timed out"), ⟨0, replyProperties none, []⟩⟩

/-- A device whose arbiter is silent: its one `amqp_consume_message` times out, and the call
still returns `CHAMGE_RETURN_OK`. -/
theorem timeout_breaks_contract : ¬ ∀ r,
    (Trace.finite [timedOut]).Returns (fun os =>
      RpcCopy.edge.call ⟨fun _ => .error []⟩ activateArgs openPrelude os none) r →
    ResultContract (Replied .edge ⟨fun _ => .error []⟩ activateArgs openPrelude
      (.finite [timedOut])) none r := by
  intro h
  obtain ⟨e, _, _, _, n, pre, o, post, hsplit, _, _, ho⟩ := (h _ ⟨1, rfl⟩).ok_iff.mp rfl
  have hmem : o ∈ [timedOut] := by
    have : o ∈ (Trace.finite [timedOut]).take n := hsplit ▸ List.mem_append_right _
      (List.mem_cons_self ..)
    exact List.mem_of_mem_take this
  obtain rfl := List.mem_singleton.mp hmem
  have hto : waitVerdict openPrelude.correlationId timedOut = .timeout := by decide
  rw [hto] at ho
  exact WaitVerdict.noConfusion ho

end Chamge
