import Mathlib.Data.List.Perm.Basic
import Chamge.Lib.Machine
import Chamge.Node
import Chamge.Pump

/-! The three message pumps as a whole: which messages they answer, with what, and that their
replies are answered by none of them. -/

namespace Chamge
open CString JsonGlib

/-! ### The pumps -/

/-- `_process_json_message` over the state of the handlers that it calls. -/
abbrev JsonHandler (σ : Type) := Bytes → σ → Bytes × σ

/-- One call of a pump: whether its source stays, whether a message has been taken off the
connection, the body that was dispatched, the reply, and the handlers' state. -/
structure PumpResult (σ : Type) where
  keep : Bool
  consumed : Bool
  dispatched : Option Bytes
  published : Option Publication
  after : σ

/-- The reply goes to the default exchange, with the request's own correlation id. -/
def replyPublication (address : ReplyAddress) (response : Bytes) : Publication :=
  { exchange := [], routingKey := address.replyQueue,
    properties := replyProperties address.correlationId, body := text response }

/-- The part of a pump after the message has been read; `queueCheck` is how the passive
declare of the reply queue ends. -/
def answerEnvelope {σ : Type} (process : JsonHandler σ) (envelope : AmqpEnvelope)
    (queueCheck : Except AmqpRpcReply Unit) (s : σ) : PumpResult σ :=
  match replyAddress envelope with
  | none => ⟨true, true, none, none, s⟩
  | some address =>
    let (response, s') := process envelope.body s
    match queueCheck with
    | .error _ => ⟨true, true, some envelope.body, none, s'⟩
    | .ok () => ⟨true, true, some envelope.body, some (replyPublication address response), s'⟩

/-- The common text of the pumps; `handed` is whether the message is read by the caller. -/
def pumpMessage {σ : Type} (handed : Bool) (process : JsonHandler σ) (activated : Bool)
    (o : ConsumeOutcome) (queueCheck : Except AmqpRpcReply Unit) (s : σ) : PumpResult σ :=
  if activated = false then ⟨false, handed, none, none, s⟩
  else match o.reply with
    | .normal => answerEnvelope process o.envelope queueCheck s
    | .missing | .libraryException .. | .serverException _ => ⟨true, false, none, none, s⟩

def arbiterHandler (json : JsonParser) (self : ChamgeArbiterBackend) :
    JsonHandler ArbiterAgent := fun body agent => arbiterProcessJsonMessage json self body agent

/-- `userCommand` is the handler behind the class's slot, with a state of its own. -/
def deviceHandler {σ : Type} (json : JsonParser) (userCommand : Bytes → σ → Option Bytes × σ) :
    JsonHandler σ := fun body s =>
  (deviceProcessJsonMessage json (fun cmd => (userCommand cmd s).1) body,
    if reachesHandler json body then (userCommand (text body) s).2 else s)

variable {σ : Type}

def arbiterProcessAmqpMessage (json : JsonParser) (self : ChamgeArbiterBackend) :=
  pumpMessage false (arbiterHandler json self)

def hubProcessAmqpMessage (json : JsonParser) (userCommand : Bytes → σ → Option Bytes × σ) :=
  pumpMessage false (deviceHandler json userCommand)

/-- The edge's pump is given the message by the source that watches the connection. -/
def edgeProcessAmqpMessage (json : JsonParser) (userCommand : Bytes → σ → Option Bytes × σ) :=
  pumpMessage true (deviceHandler json userCommand)

/-! ### Requests -/

/-- A body, the JSON content type up to the case of its letters, and a place to reply to. -/
def IsRequest (e : AmqpEnvelope) : Prop :=
  e.body ≠ [] ∧
    (e.properties.contentTypeFlag = true ∧
      e.properties.contentType.length = defaultContentType.length ∧
      e.properties.contentType.map asciiToLower = defaultContentType.map asciiToLower) ∧
    e.properties.replyToFlag = true ∧ Clean e.properties.replyTo

instance (e : AmqpEnvelope) : Decidable (IsRequest e) := inferInstanceAs (Decidable (_ ∧ _))

def echoedId (props : AmqpBasicProperties) : Option Bytes :=
  if props.correlationIdFlag = true ∧ Clean props.correlationId then some props.correlationId
  else none

/-- The answer to a message: persistent JSON for its reply queue, over the default exchange, with
the correlation id that it has sent, and itself without a place to reply to. -/
structure Publication.Answers (reply : Publication) (e : AmqpEnvelope) (response : Bytes) :
    Prop where
  address : reply.exchange = [] ∧ reply.routingKey = e.properties.replyTo
  body : reply.body = text response
  contentType : reply.properties.contentTypeFlag = true ∧
    reply.properties.contentType = defaultContentType
  deliveryMode : reply.properties.deliveryModeFlag = true ∧ reply.properties.deliveryMode = 2
  replyTo : reply.properties.replyToFlag = false ∧ reply.properties.replyTo = []
  correlationId : if e.properties.correlationIdFlag = true ∧ Clean e.properties.correlationId
    then reply.properties.correlationIdFlag = true ∧
      reply.properties.correlationId = e.properties.correlationId
    else reply.properties.correlationIdFlag = false ∧ reply.properties.correlationId = []

/-- A request is dispatched and answered once if its reply queue is there; any other message
leaves no trace. -/
structure PumpAnswers (process : JsonHandler σ) (e : AmqpEnvelope)
    (queueCheck : Except AmqpRpcReply Unit) (s : σ) (r : PumpResult σ) : Prop where
  dispatched_iff : r.dispatched = some e.body ↔ IsRequest e
  answered : IsRequest e → r.after = (process e.body s).2 ∧
    (queueCheck = .ok () → ∃ reply, r.published = some reply ∧
      reply.Answers e (process e.body s).1) ∧
    (queueCheck ≠ .ok () → r.published = none)
  dropped : ¬ IsRequest e → r.dispatched = none ∧ r.published = none ∧ r.after = s

theorem defaultContentType_clean : (0 : UInt8) ∉ defaultContentType := by decide

theorem isJsonContent_iff (props : AmqpBasicProperties) : isJsonContent props = true ↔
    props.contentTypeFlag = true ∧ props.contentType.length = defaultContentType.length ∧
      props.contentType.map asciiToLower = defaultContentType.map asciiToLower := by
  have hlength : strlen defaultContentType = defaultContentType.length := by
    rw [strlen, (text_eq_self_iff _).mpr defaultContentType_clean]
  simp only [isJsonContent, Bool.and_eq_true, decide_eq_true_eq, hlength, and_assoc]
  refine and_congr_right fun _ => ?_
  rw [eq_comm]
  refine and_congr_right fun hlen => ?_
  rw [strncasecmp_eq_zero_iff hlen.symm rfl defaultContentType_clean]
  exact eq_comm

theorem replyAddress_eq (e : AmqpEnvelope) : replyAddress e =
    if IsRequest e then some ⟨e.properties.replyTo, echoedId e.properties⟩ else none := by
  have hcontent := isJsonContent_iff e.properties
  simp only [replyAddress, stringProperty_eq]
  by_cases hbody : e.body = []
  · simp [hbody, IsRequest]
  by_cases hjson : isJsonContent e.properties = true
  · by_cases hreply : e.properties.replyToFlag = true ∧ Clean e.properties.replyTo
    · rw [if_pos (show IsRequest e from ⟨hbody, hcontent.mp hjson, hreply⟩)]
      simp [hbody, hjson, hreply, echoedId]
    · rw [if_neg (show ¬ IsRequest e from fun h => hreply h.2.2)]
      simp [hbody, hjson, hreply]
  · rw [if_neg (show ¬ IsRequest e from fun h => hjson (hcontent.mpr h.2.1))]
    simp [hbody, hjson]

theorem replyPublication_answers (e : AmqpEnvelope) (response : Bytes) :
    (replyPublication ⟨e.properties.replyTo, echoedId e.properties⟩ response).Answers e
      response := by
  refine ⟨⟨rfl, rfl⟩, rfl, ⟨rfl, rfl⟩, ⟨rfl, rfl⟩, ⟨rfl, rfl⟩, ?_⟩
  simp only [replyPublication, replyProperties, echoedId]
  split_ifs
  · exact ⟨rfl, rfl⟩
  · exact ⟨rfl, rfl⟩

theorem answerEnvelope_answers (process : JsonHandler σ) (e : AmqpEnvelope)
    (queueCheck : Except AmqpRpcReply Unit) (s : σ) :
    PumpAnswers process e queueCheck s (answerEnvelope process e queueCheck s) := by
  unfold answerEnvelope
  rw [replyAddress_eq]
  by_cases h : IsRequest e
  · rw [if_pos h]
    cases queueCheck with
    | error r => exact ⟨by simp [h], fun _ => ⟨rfl, by simp, fun _ => rfl⟩, fun hno => absurd h hno⟩
    | ok u =>
      have hreply := replyPublication_answers e (process e.body s).1
      exact ⟨by simp [h], fun _ => ⟨rfl, fun _ => ⟨_, rfl, hreply⟩, by simp⟩,
        fun hno => absurd h hno⟩
  · rw [if_neg h]
    exact ⟨by simp [h], fun hyes => absurd hyes h, fun _ => ⟨rfl, rfl, rfl⟩⟩

/-- A reply names no place to reply to. -/
theorem not_isRequest_of_reply {e : AmqpEnvelope} {correlationId : Option Bytes}
    (h : e.properties = replyProperties correlationId) : ¬ IsRequest e := by
  intro hrequest
  have hflag := hrequest.2.2.1
  rw [h] at hflag
  cases hflag

theorem pumpMessage_published {handed activated : Bool} {process : JsonHandler σ}
    {e : AmqpEnvelope} {queueCheck : Except AmqpRpcReply Unit} {s : σ} {reply : Publication}
    (h : (pumpMessage handed process activated ⟨.normal, e⟩ queueCheck s).published =
      some reply) :
    (pumpMessage handed process activated ⟨.normal, e⟩ queueCheck s).consumed = true ∧
      IsRequest e ∧ ∃ correlationId, reply.properties = replyProperties correlationId := by
  cases activated with
  | false => cases h
  | true =>
    have hanswers := answerEnvelope_answers process e queueCheck s
    simp only [pumpMessage, Bool.true_eq_false, if_false] at h ⊢
    have hrequest : IsRequest e := by
      by_contra hno
      cases h.symm.trans (hanswers.dropped hno).2.1
    have hcheck : queueCheck = .ok () := by
      by_contra hno
      cases h.symm.trans ((hanswers.answered hrequest).2.2 hno)
    -- what is left is the one branch that publishes
    rw [answerEnvelope, replyAddress_eq, if_pos hrequest, hcheck] at h ⊢
    exact ⟨rfl, hrequest, echoedId e.properties, Option.some.inj h ▸ rfl⟩

/-! ### Replies fed back -/

/-- The states behind the pumps, the messages that are on their way, each with the injected
message that it goes back to, and the replies so far. -/
structure PumpNet (σ : Type) where
  agent : ArbiterAgent
  hub : σ
  edge : σ
  pending : List (ℕ × AmqpEnvelope)
  replies : List (ℕ × Publication)

/-- The message at `index` comes to a pump. -/
structure PumpCall where
  pump : NodeKind
  index : ℕ
  activated : Bool
  queueCheck : Except AmqpRpcReply Unit

/-- What a call takes from and puts to the messages on their way. -/
def PumpNet.settle {τ : Type} (s : PumpNet σ) (index : ℕ) (m : ℕ × AmqpEnvelope)
    (r : PumpResult τ) : PumpNet σ :=
  let left := if r.consumed then s.pending.eraseIdx index else s.pending
  match r.published with
  | none => { s with pending := left }
  | some reply =>
    { s with
      pending := left ++ [(m.1, ⟨m.2.channel, reply.properties, reply.body⟩)]
      replies := s.replies ++ [(m.1, reply)] }

def pumpNet (json : JsonParser) (self : ChamgeArbiterBackend)
    (hubCommand edgeCommand : Bytes → σ → Option Bytes × σ) : Machine (PumpNet σ) PumpCall where
  step s call := s.pending[call.index]?.map fun m =>
    match call.pump with
    | .arbiter =>
      let r := arbiterProcessAmqpMessage json self call.activated ⟨.normal, m.2⟩ call.queueCheck
        s.agent
      { s.settle call.index m r with agent := r.after }
    | .hub =>
      let r := hubProcessAmqpMessage json hubCommand call.activated ⟨.normal, m.2⟩
        call.queueCheck s.hub
      { s.settle call.index m r with hub := r.after }
    | .edge =>
      let r := edgeProcessAmqpMessage json edgeCommand call.activated ⟨.normal, m.2⟩
        call.queueCheck s.edge
      { s.settle call.index m r with edge := r.after }

def PumpNet.inject (agent : ArbiterAgent) (hub edge : σ) (ms : List AmqpEnvelope) : PumpNet σ :=
  { agent, hub, edge, pending := ms.zipIdx.map Prod.swap, replies := [] }

/-- The injected messages that have been answered or may still be. -/
def PumpNet.origins (s : PumpNet σ) : List ℕ :=
  s.replies.map Prod.fst ++ (s.pending.filter fun m => IsRequest m.2).map Prod.fst

theorem settle_origins {τ : Type} {s : PumpNet σ} {index : ℕ} {m : ℕ × AmqpEnvelope}
    {r : PumpResult τ} (hm : s.pending[index]? = some m)
    (hr : ∀ reply, r.published = some reply → r.consumed = true ∧ IsRequest m.2 ∧
      ∃ correlationId, reply.properties = replyProperties correlationId) :
    List.Subperm (s.settle index m r).origins s.origins := by
  unfold PumpNet.settle
  cases hpublished : r.published with
  | none =>
    have hleft : List.Sublist (if r.consumed then s.pending.eraseIdx index else s.pending)
        s.pending := by
      split_ifs
      · exact List.eraseIdx_sublist ..
      · exact List.Sublist.refl _
    exact (((hleft.filter _).map _).append_left _).subperm
  | some reply =>
    obtain ⟨hconsumed, hrequest, correlationId, hprops⟩ := hr reply hpublished
    have hback : ¬ IsRequest ⟨m.2.channel, reply.properties, reply.body⟩ :=
      not_isRequest_of_reply hprops
    obtain ⟨hindex, hget⟩ := List.getElem?_eq_some_iff.mp hm
    have hperm : List.Perm (m :: s.pending.eraseIdx index) s.pending :=
      hget ▸ List.getElem_cons_eraseIdx_perm hindex
    have hfilter := ((hperm.filter fun m => IsRequest m.2).map Prod.fst).append_left
      (s.replies.map Prod.fst)
    simp only [List.filter_cons, hrequest, decide_true, if_true, List.map_cons] at hfilter
    apply List.Perm.subperm
    simpa [PumpNet.origins, hconsumed, hback, List.filter_append] using hfilter

theorem inject_origins (agent : ArbiterAgent) (hub edge : σ) (ms : List AmqpEnvelope) :
    List.Sublist (PumpNet.inject agent hub edge ms).origins (List.range ms.length) := by
  have hall : (ms.zipIdx.map Prod.swap).map Prod.fst = List.range ms.length := by
    rw [List.map_map]
    exact List.zipIdx_map_snd 0 ms ▸ List.range_eq_range'.symm ▸ rfl
  rw [← hall, PumpNet.origins]
  exact List.filter_sublist.map _

theorem pumpNet_origins {json : JsonParser} {self : ChamgeArbiterBackend}
    {hubCommand edgeCommand : Bytes → σ → Option Bytes × σ} {s t : PumpNet σ} {call : PumpCall}
    (h : (pumpNet json self hubCommand edgeCommand).step s call = some t) :
    List.Subperm t.origins s.origins := by
  obtain ⟨m, hm, rfl⟩ := Option.map_eq_some_iff.mp h
  cases hpump : call.pump with
  | arbiter | hub | edge =>
    exact settle_origins hm fun reply hreply => pumpMessage_published hreply

/-- Over any run each injected message is answered at most once, and nothing else is. -/
theorem run_replies_nodup {json : JsonParser} {self : ChamgeArbiterBackend}
    {hubCommand edgeCommand : Bytes → σ → Option Bytes × σ} {agent : ArbiterAgent} {hub edge : σ}
    {ms : List AmqpEnvelope} {calls : List PumpCall} {t : PumpNet σ}
    (h : (pumpNet json self hubCommand edgeCommand).run (.inject agent hub edge ms) calls =
      some t) : (t.replies.map Prod.fst).Nodup ∧ ∀ k ∈ t.replies.map Prod.fst, k < ms.length := by
  have hsubperm : List.Subperm t.origins (List.range ms.length) := by
    apply Machine.Reachable.invariant (I := fun s => List.Subperm s.origins (List.range ms.length))
      _ (inject_origins agent hub edge ms).subperm ⟨calls, h⟩
    exact fun s call u hs hstep => (pumpNet_origins hstep).trans hs
  obtain ⟨l, hperm, hsub⟩ := hsubperm
  have hnodup : t.origins.Nodup := hperm.nodup_iff.mp (hsub.nodup List.nodup_range)
  refine ⟨(List.nodup_append.mp hnodup).1, fun k hk => ?_⟩
  have hmem : k ∈ t.origins := List.mem_append_left _ hk
  exact List.mem_range.mp (hsub.subset (hperm.mem_iff.mpr hmem))

/-- What the three pumps promise together. -/
structure AnswersOnce (json : JsonParser) (self : ChamgeArbiterBackend)
    (hubCommand edgeCommand : Bytes → σ → Option Bytes × σ) : Prop where
  arbiter : ∀ e queueCheck agent, PumpAnswers (arbiterHandler json self) e queueCheck agent
    (arbiterProcessAmqpMessage json self true ⟨.normal, e⟩ queueCheck agent)
  hub : ∀ e queueCheck s, PumpAnswers (deviceHandler json hubCommand) e queueCheck s
    (hubProcessAmqpMessage json hubCommand true ⟨.normal, e⟩ queueCheck s)
  edge : ∀ e queueCheck s, PumpAnswers (deviceHandler json edgeCommand) e queueCheck s
    (edgeProcessAmqpMessage json edgeCommand true ⟨.normal, e⟩ queueCheck s)
  replies : ∀ address response (e : AmqpEnvelope) queueCheck agent s,
    e.properties = (replyPublication address response).properties →
    (arbiterProcessAmqpMessage json self true ⟨.normal, e⟩ queueCheck agent).dispatched = none ∧
    (hubProcessAmqpMessage json hubCommand true ⟨.normal, e⟩ queueCheck s).dispatched = none ∧
    (edgeProcessAmqpMessage json edgeCommand true ⟨.normal, e⟩ queueCheck s).dispatched = none
  once : ∀ agent hub edge ms calls t,
    (pumpNet json self hubCommand edgeCommand).run (.inject agent hub edge ms) calls = some t →
      (t.replies.map Prod.fst).Nodup ∧ ∀ k ∈ t.replies.map Prod.fst, k < ms.length

/-- The pumps answer the requests, each once, and nothing else. -/
theorem pumps_answer_requests (json : JsonParser) (self : ChamgeArbiterBackend)
    (hubCommand edgeCommand : Bytes → σ → Option Bytes × σ) :
    AnswersOnce json self hubCommand edgeCommand := by
  have hanswers {τ : Type} (handed : Bool) (process : JsonHandler τ) (e : AmqpEnvelope)
      (queueCheck : Except AmqpRpcReply Unit) (s : τ) : PumpAnswers process e queueCheck s
        (pumpMessage handed process true ⟨.normal, e⟩ queueCheck s) :=
    answerEnvelope_answers process e queueCheck s
  constructor
  · exact fun e queueCheck agent => hanswers false _ e queueCheck agent
  · exact fun e queueCheck s => hanswers false _ e queueCheck s
  · exact fun e queueCheck s => hanswers true _ e queueCheck s
  · intro address response e queueCheck agent s he
    have hreply : ¬ IsRequest e := not_isRequest_of_reply he
    have harbiter := (hanswers false (arbiterHandler json self) e queueCheck agent).dropped hreply
    have hhub := (hanswers false (deviceHandler json hubCommand) e queueCheck s).dropped hreply
    have hedge := (hanswers true (deviceHandler json edgeCommand) e queueCheck s).dropped hreply
    exact ⟨harbiter.1, hhub.1, hedge.1⟩
  · intro agent hub edge ms calls t h
    exact run_replies_nodup h

end Chamge
