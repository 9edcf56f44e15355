import Chamge.AnswerSoundness
import Chamge.UserCommandContract

/-! Whether the texts that the program composes itself are JSON. All of them put a string
between `{"result":"` and `"}`, and nobody escapes it. -/

namespace Chamge
open CString JsonGlib

variable {json : JsonParser} {response : Bytes} {reported : Bytes → Prop}

/-- An object with the one member `result`, whose string holds what is reported. -/
def ValidAnswer (response : Bytes) (reported : Bytes → Prop) : Prop :=
  ∃ t v, response = utf8 t ∧ JsonText t (.object [(cstr "result", .string v)]) ∧
    ∀ o, reported o → o <:+: v

/-- What makes the arbiter's backend or the agent answer. -/
inductive AnswerInput
  | request (self : ChamgeArbiterBackend) (body : Bytes) (agent : ArbiterAgent)
  | command (agent : ArbiterAgent) (arbiter : ArbiterNode) (userCmd : Bytes)
    (link : LinkOutcomes) (p : RpcPrelude) (outcomes : List ConsumeOutcome)

/-- The command is passed on, and this is what comes back from the node. -/
def PassedOn (json : JsonParser) (agent : ArbiterAgent) (arbiter : ArbiterNode)
    (userCmd : Bytes) (link : LinkOutcomes) (p : RpcPrelude) (outcomes : List ConsumeOutcome)
    (r : UserCommandResult) : Prop :=
  (∃ root, json.loadFromData userCmd = .ok root ∧ refusal agent (nodeGetObject root) = none) ∧
    chamgeNodeUserCommand json arbiter userCmd link p outcomes none = some r

/-- The answer is the program's own, and not what a device has replied. -/
def AnswerInput.Composes (json : JsonParser) : AnswerInput → Bytes → Prop
  | .request self body agent, response =>
    response = (arbiterProcessJsonMessage json self body agent).1
  | .command agent arbiter userCmd link p outcomes, response =>
    (∀ r, PassedOn json agent arbiter userCmd link p outcomes r → r.ret ≠ .ok ∧ r.out = none) ∧
      ∃ result ret,
        chamgeArbiterAgentHandleUserCommand json agent arbiter userCmd link p outcomes =
            some result ∧ result.completions = [(ret, some response)]

/-- The method or device type that the arbiter does not know, the id that is not enrolled,
or the message of the error. -/
inductive AnswerInput.Reports (json : JsonParser) : AnswerInput → Bytes → Prop
  | unknown {self : ChamgeArbiterBackend} {body : Bytes} {agent : ArbiterAgent}
    {before after : String} {o : Bytes} (h : Pasted json body before o after) :
    Reports json (.request self body agent) o
  | notEnrolled {agent : ArbiterAgent} {arbiter : ArbiterNode} {userCmd : Bytes}
    {link : LinkOutcomes} {p : RpcPrelude} {outcomes : List ConsumeOutcome}
    {root : Option JsonNode} {response o : Bytes} (hload : json.loadFromData userCmd = .ok root)
    (hrefusal : refusal agent (nodeGetObject root) = some response)
    (hto : memberString (nodeGetObject root) (cstr "to") = some o) :
    Reports json (.command agent arbiter userCmd link p outcomes) o
  | failure {agent : ArbiterAgent} {arbiter : ArbiterNode} {userCmd : Bytes}
    {link : LinkOutcomes} {p : RpcPrelude} {outcomes : List ConsumeOutcome}
    {r : UserCommandResult} {e : GError}
    (hpassed : PassedOn json agent arbiter userCmd link p outcomes r) (hret : r.ret ≠ .ok)
    (hout : r.out = none) (herror : errorSlot r.errors = some e) :
    Reports json (.command agent arbiter userCmd link p outcomes) e.message

/-! ### The text of an answer -/

theorem jsonText_resultBody_iff {x v : Bytes} :
    (∃ t, resultBody x = utf8 t ∧ JsonText t (.object [(cstr "result", .string v)])) ↔
      ∃ raw s, x = utf8 raw ∧ StringText raw s ∧ v = nodeText s := by
  obtain ⟨result, hresult, hplain⟩ := (plain_cstr (t := "result") (by decide)).exists_utf8
  have hbody (raw : List Char) : resultBody (utf8 raw) =
      utf8 ('{' :: (quoted result ++ ':' :: quoted raw ++ ['}'])) := by
    rw [resultBody_eq, hresult]
    exact objectText_utf8 (memberText_utf8 _ _)
  constructor
  · rintro ⟨t, ht, htext⟩
    have hascii : ("\"\x7d".toList.all fun c => c.toNat < 128) = true := by decide
    have hraw : ∃ raw, x = utf8 raw := by
      rw [resultBody, cstr_eq_utf8, cstr_eq_utf8, List.append_assoc] at ht
      obtain ⟨u, -, hrest⟩ := utf8_prefix ht
      obtain ⟨raw, -, hx⟩ := utf8_suffix
        (fun c hc => of_decide_eq_true (List.all_eq_true.mp hascii c hc)) hrest
      exact ⟨raw, hx⟩
    obtain ⟨raw, rfl⟩ := hraw
    rw [hbody] at ht
    rw [← utf8_injective ht, jsonText_braces_iff, hresult] at htext
    obtain ⟨members, hmembers, hlist⟩ := htext
    obtain rfl := JsonNode.object.inj hmembers
    rcases hlist with hlist | ⟨-, hnil⟩
    · obtain ⟨s, hs, hv⟩ := (memberList_one_iff hplain).mp hlist
      exact ⟨raw, s, rfl, hs, hv⟩
    · exact absurd hnil (List.cons_ne_nil _ _)
  · rintro ⟨raw, s, rfl, hs, rfl⟩
    have hlist := (memberList_one_iff hplain).mpr ⟨s, hs, rfl⟩
    exact ⟨_, hbody raw, hresult ▸ jsonText_braces_iff.mpr ⟨_, rfl, Or.inl hlist⟩⟩

/-- Around what is reported: nothing that a string would have to escape, and no mark. -/
def neutral (s : String) : Bool :=
  s.toList.all fun c => unescaped c && !isMark c && decide (c.toNat < 128)

theorem neutral_mem {s : String} (h : neutral s = true) {c : Char} (hc : c ∈ s.toList) :
    unescaped c = true ∧ isMark c = false ∧ c.toNat < 128 := by
  have hall := List.all_eq_true.mp h c hc
  simpa only [Bool.and_eq_true, Bool.not_eq_true', decide_eq_true_eq, and_assoc] using hall

theorem plain_of_neutral {s : String} (h : neutral s = true) : Plain (cstr s) := by
  rw [cstr_eq_utf8]
  exact plain_utf8_iff.mpr fun c hc => (neutral_mem h hc).1

theorem countP_neutral {s : String} (h : neutral s = true) :
    (cstr s).countP isMarkByte = 0 := by
  rw [cstr_eq_utf8, countP_utf8, List.countP_eq_zero]
  exact fun c hc => Bool.eq_false_iff.mp (neutral_mem h hc).2.1

theorem plain_append {s t : Bytes} (hs : Plain s) (ht : Plain t) : Plain (s ++ t) := by
  obtain ⟨u, rfl, hu⟩ := hs.exists_utf8
  obtain ⟨w, rfl, hw⟩ := ht.exists_utf8
  rw [← utf8_append]
  exact plain_utf8_iff.mpr (List.forall_mem_append.mpr ⟨hu, hw⟩)

/-- A valid answer has what it reports as it is in its text, so there is nothing to escape
in it. -/
theorem plain_of_validAnswer {before after : String} {o : Bytes} (hbefore : neutral before)
    (hafter : neutral after) (ho : reported o)
    (h : ValidAnswer (resultBody (cstr before ++ o ++ cstr after)) reported) : Plain o := by
  obtain ⟨t, v, ht, htext, hreported⟩ := h
  obtain ⟨raw, s, hraw, hs, rfl⟩ := jsonText_resultBody_iff.mp ⟨t, ht, htext⟩
  have hcount : raw.countP isMark = o.countP isMarkByte := by
    rw [← countP_utf8, ← hraw, List.countP_append, List.countP_append, countP_neutral hbefore,
      countP_neutral hafter, Nat.zero_add, Nat.add_zero]
  have hmarks : raw.countP isMark ≤ (nodeText s).countP isMarkByte := by
    rw [hcount]
    exact (hreported o ho).sublist.countP_le
  have hplain := hs.of_marks hmarks
  rw [cstr_eq_utf8, cstr_eq_utf8, List.append_assoc] at hraw
  obtain ⟨rest, rfl, hrest⟩ := utf8_prefix hraw
  obtain ⟨u, rfl, rfl⟩ := utf8_suffix (fun c hc => (neutral_mem hafter hc).2.2) hrest
  exact plain_utf8_iff.mpr fun c hc => hplain c (by simp [hc])

theorem validAnswer_of_plain {x : Bytes} (hx : Plain x) (h : ∀ o, reported o → o <:+: x) :
    ValidAnswer (resultBody x) reported := by
  obtain ⟨raw, rfl, hraw⟩ := hx.exists_utf8
  have htext := jsonText_resultBody_iff.mpr ⟨raw, raw, rfl, stringText_self hraw, rfl⟩
  obtain ⟨t, ht, htext⟩ := htext
  rw [nodeText_of_unescaped hraw] at htext
  exact ⟨t, _, ht, htext, h⟩

/-- A fixed text, or the one string reported between two fixed texts. -/
inductive Template (reported : Bytes → Prop) : Bytes → Prop
  | fixed {text : Bytes} (hplain : Plain text) (hnone : ∀ o, ¬ reported o) :
    Template reported (resultBody text)
  | around {before after : String} {o : Bytes} (hbefore : neutral before)
    (hafter : neutral after) (ho : reported o) (honly : ∀ o', reported o' → o' = o) :
    Template reported (resultBody (cstr before ++ o ++ cstr after))

theorem Template.ending {before : String} {o : Bytes} (hbefore : neutral before)
    (ho : reported o) (honly : ∀ o', reported o' → o' = o) :
    Template reported (resultBody (cstr before ++ o)) := by
  have htext := Template.around hbefore (show neutral "" by decide) ho honly
  have hnil : cstr "" = [] := rfl
  rwa [hnil, List.append_nil] at htext

theorem Template.valid_iff (h : Template reported response) :
    ValidAnswer response reported ↔ ∀ o, reported o → Plain o := by
  cases h with
  | fixed hplain hnone =>
    have hvalid := validAnswer_of_plain hplain fun o ho => absurd ho (hnone o)
    exact iff_of_true hvalid fun o ho => absurd ho (hnone o)
  | @around before after o hbefore hafter ho honly =>
    constructor
    · intro hvalid o' ho'
      rw [honly o' ho']
      exact plain_of_validAnswer hbefore hafter ho hvalid
    · intro hplain
      have htext := plain_append (plain_append (plain_of_neutral hbefore) (hplain o ho))
        (plain_of_neutral hafter)
      refine validAnswer_of_plain htext fun o' ho' => ?_
      rw [honly o' ho']
      exact ⟨cstr before, cstr after, rfl⟩

/-! ### The arbiter's answers -/

theorem Pasted.neutral {body o : Bytes} {before after : String}
    (h : Pasted json body before o after) : neutral before ∧ Chamge.neutral after := by
  cases h <;> exact ⟨by decide, by decide⟩

theorem Pasted.unique {body o o' : Bytes} {before before' after after' : String}
    (h : Pasted json body before o after) (h' : Pasted json body before' o' after') : o' = o := by
  cases h with
  | method hasks hunknown =>
    cases h' with
    | method hasks' => exact (hasks.unique hasks').2.1.symm
    | deviceType hload htype _ hother =>
      have hname := deviceType_of_asks hasks hload htype
      exact absurd hname (hother _)
  | deviceType hload htype _ hother =>
    cases h' with
    | method hasks =>
      have hname := deviceType_of_asks hasks hload htype
      exact absurd hname (hother _)
    | deviceType hload' htype' =>
      cases hload.symm.trans hload'
      have heq := (memberString_eq_some_iff.mpr ⟨_, rfl, htype⟩).symm.trans
        (memberString_eq_some_iff.mpr ⟨_, rfl, htype'⟩)
      exact (Option.some.inj heq).symm

theorem request_template (json : JsonParser) (self : ChamgeArbiterBackend) (body : Bytes)
    (agent : ArbiterAgent) : Template ((AnswerInput.request self body agent).Reports json)
      (arbiterProcessJsonMessage json self body agent).1 := by
  by_cases hpasted : ∃ before o after, Pasted json body before o after
  · obtain ⟨before, o, after, hpasted⟩ := hpasted
    rw [process_pasted hpasted]
    refine .around hpasted.neutral.1 hpasted.neutral.2 (.unknown hpasted) fun o' ho' => ?_
    cases ho' with
    | unknown hpasted' => exact hpasted.unique hpasted'
  · have hnone (o : Bytes) : ¬ (AnswerInput.request self body agent).Reports json o := by
      intro ho
      cases ho with
      | unknown h => exact hpasted ⟨_, _, _, h⟩
    have hanswer := answer json self body agent
    generalize (arbiterProcessJsonMessage json self body agent).1 = response at hanswer
    cases hanswer with
    | granted => exact .fixed (plain_shouldbe _) hnone
    | pasted h => exact absurd ⟨_, _, _, h⟩ hpasted
    | refused hplain => exact .fixed hplain hnone

/-! ### The agent's answers -/

theorem refusal_eq {agent : ArbiterAgent} {object : Option JsonObject}
    (h : refusal agent object = some response) : ∃ before : String, neutral before ∧
      response = resultBody (cstr before ++ printed (memberString object (cstr "to"))) := by
  simp only [refusal] at h
  simp only [memberString_eq]
  split_ifs at h
  · exact ⟨"no edge is enrolled with edge id ", by decide, (Option.some.inj h).symm⟩
  · exact ⟨"no hub is enrolled with hub id ", by decide, (Option.some.inj h).symm⟩

section command

variable {agent : ArbiterAgent} {arbiter : ArbiterNode} {userCmd : Bytes} {link : LinkOutcomes}
  {p : RpcPrelude} {outcomes : List ConsumeOutcome} {root : Option JsonNode}

theorem reports_unparsed {e o : Bytes} (hload : json.loadFromData userCmd = .error e) :
    ¬ (AnswerInput.command agent arbiter userCmd link p outcomes).Reports json o := by
  intro ho
  cases ho with
  | notEnrolled hload' => cases hload.symm.trans hload'
  | failure hpassed =>
    obtain ⟨⟨root, hload', -⟩, -⟩ := hpassed
    cases hload.symm.trans hload'

theorem reports_refused_iff {o : Bytes} (hload : json.loadFromData userCmd = .ok root)
    (hrefusal : refusal agent (nodeGetObject root) = some response) :
    (AnswerInput.command agent arbiter userCmd link p outcomes).Reports json o ↔
      memberString (nodeGetObject root) (cstr "to") = some o := by
  constructor
  · intro ho
    cases ho with
    | notEnrolled hload' _ hto =>
      cases hload.symm.trans hload'
      exact hto
    | failure hpassed =>
      obtain ⟨⟨root', hload', hpass⟩, -⟩ := hpassed
      cases hload.symm.trans hload'
      cases hrefusal.symm.trans hpass
  · exact .notEnrolled hload hrefusal

theorem reports_passedOn_iff {r : UserCommandResult} {o : Bytes}
    (hpassed : PassedOn json agent arbiter userCmd link p outcomes r) (hret : r.ret ≠ .ok)
    (hout : r.out = none) :
    (AnswerInput.command agent arbiter userCmd link p outcomes).Reports json o ↔
      (errorSlot r.errors).map GError.message = some o := by
  obtain ⟨⟨root, hload, hpass⟩, hr⟩ := id hpassed
  constructor
  · intro ho
    cases ho with
    | notEnrolled hload' hrefusal =>
      cases hload.symm.trans hload'
      cases hpass.symm.trans hrefusal
    | failure hpassed' _ _ herror =>
      cases hr.symm.trans hpassed'.2
      rw [herror, Option.map_some]
  · intro herror
    obtain ⟨e, he, rfl⟩ := Option.map_eq_some_iff.mp herror
    exact .failure hpassed hret hout he

theorem refused_template (hload : json.loadFromData userCmd = .ok root)
    (hrefusal : refusal agent (nodeGetObject root) = some response) :
    Template ((AnswerInput.command agent arbiter userCmd link p outcomes).Reports json)
      response := by
  obtain ⟨before, hbefore, rfl⟩ := refusal_eq hrefusal
  have hreports (o : Bytes) :
      (AnswerInput.command agent arbiter userCmd link p outcomes).Reports json o ↔ _ :=
    reports_refused_iff hload hrefusal
  cases hto : memberString (nodeGetObject root) (cstr "to") with
  | none =>
    simp only [hto] at hreports
    refine .fixed (plain_append (plain_of_neutral hbefore) (plain_cstr (by decide))) fun o ho => ?_
    cases (hreports o).mp ho
  | some id =>
    simp only [hto] at hreports
    exact .ending hbefore ((hreports id).mpr rfl) fun o ho =>
      (Option.some.inj ((hreports o).mp ho)).symm

theorem failure_template {r : UserCommandResult}
    (hpassed : PassedOn json agent arbiter userCmd link p outcomes r) (hret : r.ret ≠ .ok)
    (hout : r.out = none) :
    Template ((AnswerInput.command agent arbiter userCmd link p outcomes).Reports json)
      (failureResponse r.errors) := by
  have hreports (o : Bytes) := reports_passedOn_iff (o := o) hpassed hret hout
  unfold failureResponse
  cases herror : (errorSlot r.errors).map GError.message with
  | none =>
    simp only [herror] at hreports
    refine .fixed (plain_cstr (by decide)) fun o ho => ?_
    cases (hreports o).mp ho
  | some message =>
    simp only [herror] at hreports
    exact Template.ending (show neutral "" by decide) ((hreports message).mpr rfl) fun o ho =>
      (Option.some.inj ((hreports o).mp ho)).symm

theorem command_template
    (h : (AnswerInput.command agent arbiter userCmd link p outcomes).Composes json response) :
    Template ((AnswerInput.command agent arbiter userCmd link p outcomes).Reports json)
      response := by
  obtain ⟨hown, result, ret, hresult, hcompletions⟩ := h
  unfold chamgeArbiterAgentHandleUserCommand at hresult
  cases hload : json.loadFromData userCmd with
  | error e =>
    simp only [hload] at hresult
    cases hresult
    cases hcompletions
    exact .fixed (plain_cstr (by decide)) fun o => reports_unparsed hload
  | ok root =>
    simp only [hload] at hresult
    cases hrefusal : refusal agent (nodeGetObject root) with
    | some text =>
      simp only [hrefusal] at hresult
      cases hresult
      cases hcompletions
      exact refused_template hload hrefusal
    | none =>
      simp only [hrefusal] at hresult
      obtain ⟨r, hr, rfl⟩ := Option.map_eq_some_iff.mp hresult
      have hpassed : PassedOn json agent arbiter userCmd link p outcomes r :=
        ⟨⟨root, hload, hrefusal⟩, hr⟩
      obtain ⟨hret, hout⟩ := hown r hpassed
      simp only [answerWith, if_pos hret, hout, Option.getD_none] at hcompletions
      cases hcompletions
      exact failure_template hpassed hret hout

end command

theorem template (i : AnswerInput) (h : i.Composes json response) :
    Template (i.Reports json) response := by
  cases i with
  | request self body agent =>
    have hresponse : response = _ := h
    exact hresponse ▸ request_template json self body agent
  | command => exact command_template h

/-- What is reported is reported in an answer. -/
theorem exists_composed {i : AnswerInput} {o : Bytes} (h : i.Reports json o) :
    ∃ response, i.Composes json response := by
  cases h with
  | unknown => exact ⟨_, rfl⟩
  | @notEnrolled agent arbiter userCmd link p outcomes root response o hload hrefusal hto =>
    refine ⟨response, fun r hpassed => ?_, ⟨[(.fail, some response)], none, []⟩, .fail, ?_, rfl⟩
    · obtain ⟨⟨root', hload', hpass⟩, -⟩ := hpassed
      cases hload.symm.trans hload'
      cases hrefusal.symm.trans hpass
    · simp only [chamgeArbiterAgentHandleUserCommand, hload, hrefusal]
  | @failure agent arbiter userCmd link p outcomes r e hpassed hret hout herror =>
    refine ⟨failureResponse r.errors, fun r' hpassed' => ?_, answerWith r, r.ret, ?_, ?_⟩
    · cases hpassed.2.symm.trans hpassed'.2
      exact ⟨hret, hout⟩
    · obtain ⟨⟨root, hload, hpass⟩, hr⟩ := hpassed
      simp only [chamgeArbiterAgentHandleUserCommand, hload, hpass, hr, Option.map_some]
    · simp only [answerWith, if_pos hret, hout, Option.getD_none]

/-- Every answer that the program composes is valid exactly when what it reports has nothing
to escape. -/
theorem composed_answers_valid_iff (json : JsonParser) (i : AnswerInput) :
    (∀ response, i.Composes json response → ValidAnswer response (i.Reports json)) ↔
      ∀ o, i.Reports json o → Plain o := by
  constructor
  · intro hvalid o ho
    obtain ⟨response, hresponse⟩ := exists_composed ho
    exact (template i hresponse).valid_iff.mp (hvalid response hresponse) o ho
  · exact fun hplain response hresponse => (template i hresponse).valid_iff.mpr hplain

/-! A command of no device. -/

def emptyCommand : Bytes := cstr "\x7b\x7d"

/-- The message of the error has quotation marks of its own. -/
theorem quoted_error_breaks_answer : ¬ ∀ response,
    (AnswerInput.command silentEdge activeArbiter emptyCommand workingLink openPrelude
      []).Composes rfcParser response →
    ValidAnswer response ((AnswerInput.command silentEdge activeArbiter emptyCommand workingLink
      openPrelude []).Reports rfcParser) := by
  intro h
  have hload : rfcParser.loadFromData emptyCommand = .ok (some (.object [])) := by
    rw [emptyCommand, cstr_eq_utf8]
    exact (loadFromData_braces_iff rfcParser_rfc8259).mpr ⟨[], rfl, Or.inr ⟨ws_nil, rfl⟩⟩
  have hcall : (chamgeNodeUserCommand rfcParser activeArbiter emptyCommand workingLink
      openPrelude [] none).map (fun r => (r.ret, r.out, errorSlot r.errors)) =
        some (.fail, none, some (backendError .missingParameter
          (cstr "json parsing failure to get \"to\""))) := by
    decide +kernel
  obtain ⟨r, hr, hresult⟩ := Option.map_eq_some_iff.mp hcall
  obtain ⟨hret, hresult⟩ := Prod.mk.inj hresult
  obtain ⟨hout, herror⟩ := Prod.mk.inj hresult
  have hpassed : PassedOn rfcParser silentEdge activeArbiter emptyCommand workingLink openPrelude
      [] r := ⟨⟨_, hload, rfl⟩, hr⟩
  have hne : r.ret ≠ .ok := by
    rw [hret]
    decide
  have hreports := AnswerInput.Reports.failure hpassed hne hout herror
  obtain ⟨response, hresponse⟩ := exists_composed hreports
  have hplain := (template _ hresponse).valid_iff.mp (h response hresponse) _ hreports
  exact absurd (by decide) hplain.noQuote

end Chamge
