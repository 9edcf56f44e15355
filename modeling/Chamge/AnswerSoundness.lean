import Chamge.Lib.JsonPaste
import Chamge.Lib.JsonReader
import Chamge.RegistryEvents
import Chamge.RequestBody

/-! The arbiter pastes a method or a device type that it does not know into its answer. A
device is misled exactly when such a text ends the string it stands in and brings a result of
its own. -/

namespace Chamge
open CString JsonGlib

variable {json : JsonParser} {type : DeviceType} {method body uid shouldbe : Bytes}
  {agent : ArbiterAgent}

/-- A device takes the answer for "enrolled" or "delisted" exactly when the body has raised an
event of that kind. -/
def AnswerSound (json : JsonParser) (body : Bytes) (agent : ArbiterAgent) : Prop :=
  let r := (arbiterProcessJsonMessage json amqpArbiterBackend body agent).1
  ∀ type : DeviceType,
    (type.validate json (some r) (cstr "enrolled") = some .ok ↔
      raised json .edgeEnrolled body ≠ [] ∨ raised json .hubEnrolled body ≠ []) ∧
    (type.validate json (some r) (cstr "delisted") = some .ok ↔
      raised json .edgeDelisted body ≠ [] ∨ raised json .hubDelisted body ≠ [])

/-- A text of the request that the answer repeats, with what stands before and after it. -/
inductive Pasted (json : JsonParser) (body : Bytes) : String → Bytes → String → Prop
  | method {type : DeviceType} {method uid : Bytes}
    (hasks : Asks json type.name type.idKey method body uid)
    (hunknown : ∀ m : BackendMethod, method ≠ m.name) :
    Pasted json body "method(" method ") is not supported"
  | deviceType {members : JsonObject} {deviceType method : Bytes}
    (hload : json.loadFromData body = .ok (some (.object members)))
    (htype : StringMember members (cstr "deviceType") deviceType)
    (hmethod : StringMember members (cstr "method") method)
    (hunknown : ∀ type : DeviceType, deviceType ≠ type.name) :
    Pasted json body "unknown device type (" deviceType ")"

/-- The pasted text ends its string, and the members that it adds end in this result. -/
def Forges (json : JsonParser) (body shouldbe : Bytes) : Prop :=
  ∃ before pasted after s members, Pasted json body before (utf8 pasted) after ∧
    BreaksOut pasted after.toList s members ∧ StringMember members (cstr "result") shouldbe

/-! ### The answers -/

theorem methodBranch_known (h : DeviceHandlers) (m : BackendMethod) (uid : Bytes)
    (agent : ArbiterAgent) : (methodBranch h m.name uid agent).1 = resultBody m.shouldbe := by
  cases m <;> rfl

theorem methodBranch_unknown (h : DeviceHandlers) (hunknown : ∀ m : BackendMethod, method ≠ m.name)
    (uid : Bytes) (agent : ArbiterAgent) : (methodBranch h method uid agent).1 =
      resultBody (cstr "method(" ++ method ++ cstr ") is not supported") := by
  have henroll : method ≠ cstr "enroll" := hunknown .enroll
  have hactivate : method ≠ cstr "activate" := hunknown .activate
  have hdeactivate : method ≠ cstr "deactivate" := hunknown .deactivate
  have hdelist : method ≠ cstr "delist" := hunknown .delist
  rw [methodBranch, if_neg henroll, if_neg hactivate, if_neg hdeactivate, if_neg hdelist]

theorem process_asked (hasks : Asks json type.name type.idKey method body uid)
    (self : ChamgeArbiterBackend) (agent : ArbiterAgent) :
    ∃ h, arbiterProcessJsonMessage json self body agent = methodBranch h method uid agent := by
  cases type with
  | edge => exact ⟨_, process_edge hasks agent⟩
  | hub => exact ⟨_, process_hub hasks agent⟩

theorem process_pasted {before after : String} {pasted : Bytes}
    (h : Pasted json body before pasted after) (self : ChamgeArbiterBackend)
    (agent : ArbiterAgent) : (arbiterProcessJsonMessage json self body agent).1 =
      resultBody (cstr before ++ pasted ++ cstr after) := by
  cases h with
  | method hasks hunknown =>
    obtain ⟨h, hprocess⟩ := process_asked hasks self agent
    rw [hprocess, methodBranch_unknown h hunknown]
  | deviceType hload htype hmethod hunknown =>
    have htype := memberString_eq_some_iff.mpr ⟨_, rfl, htype⟩
    have hmethod := memberString_eq_some_iff.mpr ⟨_, rfl, hmethod⟩
    have hedge : _ ≠ cstr "edge" := hunknown .edge
    have hhub : _ ≠ cstr "hub" := hunknown .hub
    simp only [arbiterProcessJsonMessage, hload, nodeGetObject, htype, hmethod, if_neg hedge,
      if_neg hhub]

theorem deviceType_of_asks {members : JsonObject} {deviceType : Bytes}
    (hasks : Asks json type.name type.idKey method body uid)
    (hload : json.loadFromData body = .ok (some (.object members)))
    (htype : StringMember members (cstr "deviceType") deviceType) : deviceType = type.name := by
  obtain ⟨root, hload', htype', -, -⟩ := asks_iff.mp hasks
  cases hload.symm.trans hload'
  have hmember := memberString_eq_some_iff.mpr ⟨members, rfl, htype⟩
  exact Option.some.inj (hmember.symm.trans htype')

theorem Pasted.not_asks {before after : String} {pasted : Bytes}
    (h : Pasted json body before pasted after) (type : DeviceType) (m : BackendMethod)
    (uid : Bytes) : ¬ Asks json type.name type.idKey m.name body uid := by
  intro hknown
  cases h with
  | method hasks hunknown => exact hunknown m (hasks.unique hknown).2.1
  | deviceType hload htype _ hunknown => exact hunknown type (deviceType_of_asks hknown hload htype)

/-- An answer grants what was asked for, repeats a text of the request, or is one of the
fixed refusals. -/
inductive Answer (json : JsonParser) (body : Bytes) : Bytes → Prop
  | granted {type : DeviceType} {m : BackendMethod} {uid : Bytes}
    (hasks : Asks json type.name type.idKey m.name body uid) :
    Answer json body (resultBody m.shouldbe)
  | pasted {before after : String} {pasted : Bytes} (h : Pasted json body before pasted after) :
    Answer json body (resultBody (cstr before ++ pasted ++ cstr after))
  | refused {text : Bytes} (hplain : Plain text) (htext : ∀ m : BackendMethod, text ≠ m.shouldbe)
    (hasks : ∀ (type : DeviceType) (m : BackendMethod) (uid : Bytes),
      ¬ Asks json type.name type.idKey m.name body uid) :
    Answer json body (resultBody text)

theorem answer (json : JsonParser) (self : ChamgeArbiterBackend) (body : Bytes)
    (agent : ArbiterAgent) :
    Answer json body (arbiterProcessJsonMessage json self body agent).1 := by
  by_cases hasks : ∃ (type : DeviceType) (method uid : Bytes),
      Asks json type.name type.idKey method body uid
  · obtain ⟨type, method, uid, hasks⟩ := hasks
    by_cases hknown : ∃ m : BackendMethod, method = m.name
    · obtain ⟨m, rfl⟩ := hknown
      obtain ⟨h, hprocess⟩ := process_asked hasks self agent
      rw [hprocess, methodBranch_known]
      exact .granted hasks
    · have hpasted := Pasted.method hasks fun m hm => hknown ⟨m, hm⟩
      rw [process_pasted hpasted]
      exact .pasted hpasted
  · simp only [not_exists] at hasks
    have hrefused (text : String) (hplain : Plain (cstr text))
        (htext : ∀ m : BackendMethod, cstr text ≠ m.shouldbe) :
        Answer json body (resultBody (cstr text)) :=
      .refused hplain htext fun type m uid => hasks type m.name uid
    unfold arbiterProcessJsonMessage
    cases hload : json.loadFromData body with
    | error e => exact hrefused _ (plain_cstr (by decide)) fun m => by cases m <;> decide
    | ok root =>
      simp only
      cases htype : memberString (nodeGetObject root) (cstr "deviceType") with
      | none => exact hrefused _ (plain_cstr (by decide)) fun m => by cases m <;> decide
      | some deviceType =>
        cases hmethod : memberString (nodeGetObject root) (cstr "method") with
        | none => exact hrefused _ (plain_cstr (by decide)) fun m => by cases m <;> decide
        | some method =>
          have hid (type : DeviceType) (h : deviceType = type.name) :
              memberString (nodeGetObject root) type.idKey = none := by
            subst h
            cases huid : memberString (nodeGetObject root) type.idKey with
            | none => rfl
            | some uid =>
              exact absurd (asks_iff.mpr ⟨root, hload, htype, huid, hmethod⟩) (hasks _ _ _)
          simp only
          split_ifs with hedge hhub
          · have hnone : memberString (nodeGetObject root) (cstr "edgeId") = none :=
              hid .edge hedge
            simp only [deviceBranch, hnone]
            exact hrefused "edgeId does not exist" (plain_cstr (by decide))
              fun m => by cases m <;> decide
          · have hnone : memberString (nodeGetObject root) (cstr "hubId") = none := hid .hub hhub
            simp only [deviceBranch, hnone]
            exact hrefused "hubId does not exist" (plain_cstr (by decide))
              fun m => by cases m <;> decide
          · obtain ⟨members, rfl, hdevice⟩ := object_of_memberString htype
            obtain ⟨_, hmembers, hname⟩ := memberString_eq_some_iff.mp hmethod
            obtain rfl := Option.some.inj hmembers
            refine .pasted (.deviceType hload hdevice hname fun type h => ?_)
            cases type with
            | edge => exact hedge h
            | hub => exact hhub h

/-! ### What the device makes of them -/

theorem validateResponse_ok_iff {response : Bytes} :
    validateResponse json response shouldbe = .ok ↔
      ∃ members, json.loadFromData response = .ok (some (.object members)) ∧
        StringMember members (cstr "result") shouldbe := by
  unfold validateResponse
  constructor
  · intro h
    cases hload : json.loadFromData response with
    | error e =>
      rw [hload] at h
      cases h
    | ok root =>
      rw [hload] at h
      simp only at h
      split_ifs at h with hresult
      obtain ⟨members, rfl, hmember⟩ := object_of_memberString hresult
      exact ⟨members, rfl, hmember⟩
  · rintro ⟨members, hload, hmember⟩
    have hresult := memberString_eq_some_iff.mpr ⟨members, rfl, hmember⟩
    simp only [hload, nodeGetObject, hresult, if_true]

theorem validate_plain_iff (hjson : ReadsPlain json) {text : Bytes} (htext : Plain text) :
    validateResponse json (resultBody text) shouldbe = .ok ↔ text = shouldbe := by
  have hload := hjson [(cstr "result", text)] (List.cons_ne_nil _ _)
    (List.forall_mem_singleton.mpr ⟨plain_cstr (by decide), htext⟩)
  have hresult : memberString (some (stringMembers [(cstr "result", text)])) (cstr "result") =
      some text := memberString_of_mem (by simp) (by simp)
  simp [validateResponse, resultBody_eq, hload, nodeGetObject, hresult]

theorem resultBody_utf8 {result before after pasted : List Char}
    (hresult : cstr "result" = utf8 result) :
    resultBody (utf8 before ++ utf8 pasted ++ utf8 after) = utf8 ('{' :: (quoted result ++
      ':' :: quoted (before ++ (pasted ++ after)) ++ ['}'])) := by
  rw [resultBody_eq, hresult, List.append_assoc, ← utf8_append, ← utf8_append]
  exact objectText_utf8 (memberText_utf8 _ _)

/-- Around a pasted text: a letter that no result begins with, and a parenthesis. -/
structure Around (before after : String) (shouldbe : Bytes) : Prop where
  unescaped : ∀ c ∈ before.toList, unescaped c
  parenthesis : Parenthesis after.toList
  other : ∀ s, nodeText (before.toList ++ s) ≠ shouldbe

theorem validate_pasted_iff (hjson : Rfc8259 json) {before after : String} {pasted : List Char}
    (h : Around before after shouldbe) :
    validateResponse json (resultBody (cstr before ++ utf8 pasted ++ cstr after)) shouldbe = .ok ↔
      ∃ s members, BreaksOut pasted after.toList s members ∧
        StringMember members (cstr "result") shouldbe := by
  obtain ⟨result, hresult, hplain⟩ := (plain_cstr (t := "result") (by decide)).exists_utf8
  rw [validateResponse_ok_iff, cstr_eq_utf8 before, cstr_eq_utf8 after, resultBody_utf8 hresult]
  simp only [loadFromData_braces_iff hjson]
  constructor
  · rintro ⟨members, ⟨_, hmembers, hlist⟩, hmember⟩
    obtain rfl := JsonNode.object.inj hmembers
    rcases hlist with hlist | ⟨-, rfl⟩
    · rcases (memberList_pasted_iff hplain h.unescaped h.parenthesis).mp hlist with
        ⟨s, -, rfl⟩ | ⟨s, rest, hbreaks, rfl⟩
      · rcases stringMember_cons_iff.mp hmember with hnil | ⟨hclash, -⟩
        · exact absurd hnil not_stringMember_nil
        · exact absurd (JsonNode.string.inj (Prod.mk.inj hclash).2) (h.other s)
      · rcases stringMember_cons_iff.mp hmember with hrest | ⟨hclash, -⟩
        · exact ⟨s, rest, hbreaks, hrest⟩
        · exact absurd (JsonNode.string.inj (Prod.mk.inj hclash).2) (h.other s)
    · exact absurd hmember not_stringMember_nil
  · rintro ⟨s, members, hbreaks, hmember⟩
    have hlist := (memberList_pasted_iff hplain h.unescaped h.parenthesis).mpr
      (Or.inr ⟨s, members, hbreaks, rfl⟩)
    exact ⟨_, ⟨_, rfl, Or.inl hlist⟩, stringMember_cons_iff.mpr (Or.inl hmember)⟩

theorem shouldbe_utf8 (m : BackendMethod) :
    ∃ d t, m.shouldbe = utf8 (d :: t) ∧ 'm' ≠ d ∧ 'u' ≠ d := by
  cases m <;> exact ⟨_, _, cstr_eq_utf8 _, by decide, by decide⟩

theorem Pasted.around {before after : String} {pasted : Bytes}
    (h : Pasted json body before pasted after) (m : BackendMethod) :
    Around before after m.shouldbe := by
  obtain ⟨d, t, hshouldbe, hm, hu⟩ := shouldbe_utf8 m
  cases h with
  | method =>
    have hbefore : "method(".toList.all unescaped = true := by decide
    refine ⟨List.all_eq_true.mp hbefore, ⟨⟨_, rfl⟩, by decide⟩, fun s => ?_⟩
    rw [hshouldbe]
    exact nodeText_cons_ne (by decide) hm
  | deviceType =>
    have hbefore : "unknown device type (".toList.all unescaped = true := by decide
    refine ⟨List.all_eq_true.mp hbefore, ⟨⟨_, rfl⟩, by decide⟩, fun s => ?_⟩
    rw [hshouldbe]
    exact nodeText_cons_ne (by decide) hu

theorem Pasted.exists_utf8 (hjson : Rfc8259 json) {before after : String} {pasted : Bytes}
    (h : Pasted json body before pasted after) : ∃ t, pasted = utf8 t := by
  cases h with
  | method hasks =>
    obtain ⟨members, hload, -, -, hmethod⟩ := hasks
    exact hjson.exists_utf8 hload hmethod
  | deviceType hload htype => exact hjson.exists_utf8 hload htype

/-- The answer is taken for this result where the request asks for it, and where it forges
it. -/
theorem validate_answer_iff (hjson : Rfc8259 json) (body : Bytes) (agent : ArbiterAgent)
    (m : BackendMethod) :
    validateResponse json (arbiterProcessJsonMessage json amqpArbiterBackend body agent).1
        m.shouldbe = .ok ↔
      (∃ (type : DeviceType) (uid : Bytes), Asks json type.name type.idKey m.name body uid) ∨
        Forges json body m.shouldbe := by
  constructor
  · intro h
    have hanswer := answer json amqpArbiterBackend body agent
    generalize (arbiterProcessJsonMessage json amqpArbiterBackend body agent).1 = r at h hanswer
    cases hanswer with
    | @granted type m' uid hasks =>
      obtain rfl := shouldbe_inj.mp ((validate_plain_iff hjson.readsPlain (plain_shouldbe m')).mp h)
      exact Or.inl ⟨type, uid, hasks⟩
    | @pasted before after pasted hpasted =>
      obtain ⟨t, rfl⟩ := hpasted.exists_utf8 hjson
      obtain ⟨s, members, hbreaks, hmember⟩ := (validate_pasted_iff hjson (hpasted.around m)).mp h
      exact Or.inr ⟨before, t, after, s, members, hpasted, hbreaks, hmember⟩
    | refused hrefused htext =>
      exact absurd ((validate_plain_iff hjson.readsPlain hrefused).mp h) (htext m)
  · rintro (⟨type, uid, hasks⟩ | ⟨before, t, after, s, members, hpasted, hbreaks, hmember⟩)
    · obtain ⟨handlers, hprocess⟩ := process_asked hasks amqpArbiterBackend agent
      rw [hprocess, methodBranch_known]
      exact (validate_plain_iff hjson.readsPlain (plain_shouldbe m)).mpr rfl
    · rw [process_pasted hpasted]
      exact (validate_pasted_iff hjson (hpasted.around m)).mpr ⟨s, members, hbreaks, hmember⟩

/-! ### The events -/

theorem raised_ne_nil_iff {signal : ArbiterSignal} :
    raised json signal body ≠ [] ↔
      ∃ uid, Asks json signal.type.name signal.type.idKey signal.method.name body uid := by
  constructor
  · intro h
    by_cases hasks : ∃ method uid, Asks json signal.type.name signal.type.idKey method body uid
    · obtain ⟨method, uid, hasks⟩ := hasks
      rw [raised_of_asks hasks] at h
      split_ifs at h with hmethod
      · exact ⟨uid, hmethod.2 ▸ hasks⟩
      · exact absurd rfl h
    · exact absurd (raised_eq_nil fun method uid hm => hasks ⟨method, uid, hm⟩) h
  · rintro ⟨uid, hasks⟩
    rw [raised_of_asks hasks, if_pos ⟨rfl, rfl⟩]
    exact List.cons_ne_nil _ _

theorem raised_iff_asked {m : BackendMethod} {edge hub : ArbiterSignal}
    (hedge : edge.type = .edge ∧ edge.method = m) (hhub : hub.type = .hub ∧ hub.method = m) :
    raised json edge body ≠ [] ∨ raised json hub body ≠ [] ↔
      ∃ (type : DeviceType) (uid : Bytes), Asks json type.name type.idKey m.name body uid := by
  rw [raised_ne_nil_iff, raised_ne_nil_iff, hedge.1, hedge.2, hhub.1, hhub.2]
  constructor
  · rintro (⟨uid, hasks⟩ | ⟨uid, hasks⟩)
    · exact ⟨.edge, uid, hasks⟩
    · exact ⟨.hub, uid, hasks⟩
  · rintro ⟨type, uid, hasks⟩
    cases type with
    | edge => exact Or.inl ⟨uid, hasks⟩
    | hub => exact Or.inr ⟨uid, hasks⟩

theorem validate_some_iff {r : Bytes} :
    type.validate json (some r) shouldbe = some .ok ↔ validateResponse json r shouldbe = .ok := by
  cases type <;> exact Option.some_inj

theorem method_sound_iff (hjson : Rfc8259 json) (body : Bytes) (agent : ArbiterAgent)
    {m : BackendMethod} (edge hub : ArbiterSignal) (hedge : edge.type = .edge ∧ edge.method = m)
    (hhub : hub.type = .hub ∧ hub.method = m) :
    (∀ type : DeviceType, type.validate json
        (some (arbiterProcessJsonMessage json amqpArbiterBackend body agent).1) m.shouldbe =
        some .ok ↔ raised json edge body ≠ [] ∨ raised json hub body ≠ []) ↔
      ¬ Forges json body m.shouldbe := by
  simp only [validate_some_iff, validate_answer_iff hjson, raised_iff_asked hedge hhub]
  constructor
  · intro h hforges
    obtain ⟨type, uid, hasks⟩ := (h .edge).mp (Or.inr hforges)
    obtain ⟨before, t, after, s, members, hpasted, -⟩ := hforges
    exact hpasted.not_asks type m uid hasks
  · exact fun h _ => or_iff_left h

/-- The success answers are sound exactly when no text that the answer repeats forges one. -/
theorem answer_sound_iff (hjson : Rfc8259 json) (body : Bytes) (agent : ArbiterAgent) :
    AnswerSound json body agent ↔
      ¬ (Forges json body (cstr "enrolled") ∨ Forges json body (cstr "delisted")) := by
  have henrolled := method_sound_iff hjson body agent .edgeEnrolled .hubEnrolled ⟨rfl, rfl⟩
    ⟨rfl, rfl⟩
  have hdelisted := method_sound_iff hjson body agent .edgeDelisted .hubDelisted ⟨rfl, rfl⟩
    ⟨rfl, rfl⟩
  rw [not_or, AnswerSound, forall_and]
  exact and_congr henrolled hdelisted

theorem enroll_answer_sound :
    AnswerSound rfcParser (requestBody .edge .enroll (cstr "5d41402abc4b2a76")) .empty := by
  have hasks := asks_requestBody rfcParser_rfc8259.readsPlain
    (plain_cstr (t := "5d41402abc4b2a76") (by decide)) .edge .enroll
  apply (answer_sound_iff rfcParser_rfc8259 _ _).mpr
  rintro (⟨before, t, after, s, members, hpasted, -⟩ | ⟨before, t, after, s, members, hpasted, -⟩)
  all_goals exact hpasted.not_asks .edge .enroll _ hasks

/-- The method ends its string in the answer and goes on with a result. -/
def forgingBody : Bytes :=
  cstr "\x7b\"deviceType\":\"edge\",\"edgeId\":\"e\",\"method\":\"" ++
    cstr "x\\\",\\\"result\\\":\\\"enrolled\\\",\\\"y\\\":\\\"z\"\x7d"

/-- A device takes itself for enrolled, and the agent has not heard of it. -/
theorem forged_answer_accepted :
    Rfc8259 rfcParser ∧ ¬ AnswerSound rfcParser forgingBody .empty := by
  refine ⟨rfcParser_rfc8259, fun h => ?_⟩
  have haccepted : DeviceType.edge.validate rfcParser
      (some (arbiterProcessJsonMessage rfcParser amqpArbiterBackend forgingBody .empty).1)
      (cstr "enrolled") = some .ok := by
    decide +kernel
  have hedge : raised rfcParser .edgeEnrolled forgingBody = [] := by decide +kernel
  have hhub : raised rfcParser .hubEnrolled forgingBody = [] := by decide +kernel
  rcases (h .edge).1.mp haccepted with hraised | hraised
  · exact hraised hedge
  · exact hraised hhub

end Chamge
