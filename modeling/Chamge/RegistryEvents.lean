import Chamge.Device
import Chamge.Registry

/-! The registry events that a request body raises, as the closures of the arbiter's
backend see them. -/

namespace Chamge
open CString JsonGlib

def ArbiterSignal.type : ArbiterSignal → DeviceType
  | edgeEnrolled | edgeDelisted => .edge
  | hubEnrolled | hubDelisted => .hub

def ArbiterSignal.method : ArbiterSignal → BackendMethod
  | edgeEnrolled | hubEnrolled => .enroll
  | edgeDelisted | hubDelisted => .delist

/-- It notes a uid at the end of the first list. -/
def noteUid : EnrollCallback := fun uid agent => { agent with edges := agent.edges ++ [uid] }

/-- A backend with the approval of the AMQP class, whose one closure notes the uids. -/
def recorder (signal : ArbiterSignal) : ChamgeArbiterBackend :=
  let closure (s : ArbiterSignal) : Option EnrollCallback :=
    if s = signal then some noteUid else none
  { approve := true, edgeEnrolled := closure .edgeEnrolled, edgeDelisted := closure .edgeDelisted,
    hubEnrolled := closure .hubEnrolled, hubDelisted := closure .hubDelisted }

/-- The uids that the closure of `signal` is invoked with while `body` is processed. -/
def raised (json : JsonParser) (signal : ArbiterSignal) (body : Bytes) : List Bytes :=
  (arbiterProcessJsonMessage json (recorder signal) body .empty).2.edges

/-- The events of all four kinds. -/
def raisedCount (json : JsonParser) (body : Bytes) : ℕ :=
  (raised json .edgeEnrolled body).length + (raised json .edgeDelisted body).length +
    (raised json .hubEnrolled body).length + (raised json .hubDelisted body).length

variable {json : JsonParser} {type : DeviceType} {signal : ArbiterSignal} {m body uid : Bytes}

theorem recorder_edge (signal : ArbiterSignal) (uid : Bytes) (agent : ArbiterAgent) :
    (edgeHandlers (recorder signal)).enroll uid agent =
        (if signal = .edgeEnrolled then noteUid uid agent else agent) ∧
      (edgeHandlers (recorder signal)).delist uid agent =
        if signal = .edgeDelisted then noteUid uid agent else agent := by
  cases signal <;> exact ⟨rfl, rfl⟩

theorem recorder_hub (signal : ArbiterSignal) (uid : Bytes) (agent : ArbiterAgent) :
    (hubHandlers (recorder signal)).enroll uid agent =
        (if signal = .hubEnrolled then noteUid uid agent else agent) ∧
      (hubHandlers (recorder signal)).delist uid agent =
        if signal = .hubDelisted then noteUid uid agent else agent := by
  cases signal <;> exact ⟨rfl, rfl⟩

/-- What the two branches of a device type leave, where `enrolled` and `delisted` tell which
of them has the closure. -/
theorem recorded_edges {enrolled delisted expected : Prop} [Decidable enrolled]
    [Decidable delisted] [Decidable expected]
    (h : expected ↔ enrolled ∧ m = cstr "enroll" ∨ delisted ∧ m = cstr "delist") :
    (if m = cstr "enroll" then (if enrolled then noteUid uid .empty else .empty)
      else if m = cstr "delist" then (if delisted then noteUid uid .empty else .empty)
      else ArbiterAgent.empty).edges = if expected then [uid] else [] := by
  have hne : cstr "enroll" ≠ cstr "delist" := by decide
  by_cases he : m = cstr "enroll"
  · simp only [he, hne, and_true, and_false, or_false] at h
    rw [if_pos he]
    split_ifs <;> tauto
  by_cases hd : m = cstr "delist"
  · simp only [hd, hne.symm, and_true, and_false, false_or] at h
    rw [if_neg he, if_pos hd]
    split_ifs <;> tauto
  · simp only [he, hd, and_false, or_false] at h
    rw [if_neg he, if_neg hd, if_neg h.mp]
    rfl

theorem raised_of_asks (h : Asks json type.name type.idKey m body uid) :
    raised json signal body =
      if signal.type = type ∧ signal.method.name = m then [uid] else [] := by
  have henroll : BackendMethod.enroll.name = cstr "enroll" := rfl
  have hdelist : BackendMethod.delist.name = cstr "delist" := rfl
  cases type with
  | edge =>
    obtain ⟨he, hd⟩ := recorder_edge signal uid .empty
    rw [raised, process_edge h, methodBranch_agent _ _ _ _ rfl rfl, he, hd]
    apply recorded_edges
    cases signal <;>
      simp [ArbiterSignal.type, ArbiterSignal.method, henroll, hdelist, eq_comm]
  | hub =>
    obtain ⟨he, hd⟩ := recorder_hub signal uid .empty
    rw [raised, process_hub h, methodBranch_agent _ _ _ _ rfl rfl, he, hd]
    apply recorded_edges
    cases signal <;>
      simp [ArbiterSignal.type, ArbiterSignal.method, henroll, hdelist, eq_comm]

/-- A body that asks for nothing that the arbiter knows raises no event. -/
theorem raised_eq_nil
    (h : ∀ m uid, ¬ Asks json signal.type.name signal.type.idKey m body uid) :
    raised json signal body = [] := by
  by_cases hedge : ∃ m uid, Asks json DeviceType.edge.name DeviceType.edge.idKey m body uid
  · obtain ⟨m, uid, hasks⟩ := hedge
    rw [raised_of_asks hasks, if_neg]
    rintro ⟨htype, -⟩
    exact h m uid (htype ▸ hasks)
  by_cases hhub : ∃ m uid, Asks json DeviceType.hub.name DeviceType.hub.idKey m body uid
  · obtain ⟨m, uid, hasks⟩ := hhub
    rw [raised_of_asks hasks, if_neg]
    rintro ⟨htype, -⟩
    exact h m uid (htype ▸ hasks)
  rw [raised, process_other (fun m uid hm => hedge ⟨m, uid, hm⟩) fun m uid hm =>
    hhub ⟨m, uid, hm⟩]
  rfl

end Chamge
