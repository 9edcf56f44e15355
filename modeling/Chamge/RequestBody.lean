import Chamge.Device
import Chamge.Lib.JsonText
import Chamge.Registry

/-! What a device's request asks for, and how the arbiter answers it. -/

namespace Chamge
open CString JsonGlib

variable {json : JsonParser} {type : DeviceType} {m : BackendMethod} {uid : Bytes}

theorem name_inj {m m' : BackendMethod} : m.name = m'.name ↔ m = m' := by
  constructor
  · cases m <;> cases m' <;> intro h <;> first | rfl | exact absurd h (by decide)
  · rintro rfl
    rfl

theorem shouldbe_inj {m m' : BackendMethod} : m.shouldbe = m'.shouldbe ↔ m = m' := by
  constructor
  · cases m <;> cases m' <;> intro h <;> first | rfl | exact absurd h (by decide)
  · rintro rfl
    rfl

theorem plain_methodName (m : BackendMethod) : Plain m.name := by
  cases m <;> exact plain_cstr (by decide)

theorem plain_typeName (type : DeviceType) : Plain type.name := by
  cases type <;> exact plain_cstr (by decide)

theorem plain_idKey (type : DeviceType) : Plain type.idKey := by
  cases type <;> exact plain_cstr (by decide)

theorem plain_shouldbe (m : BackendMethod) : Plain m.shouldbe := by
  cases m <;> exact plain_cstr (by decide)

theorem requestBody_eq (type : DeviceType) (m : BackendMethod) (uid : Bytes) :
    requestBody type m uid = objectText [(cstr "method", m.name),
      (cstr "deviceType", type.name), (type.idKey, uid)] := by
  have hopen : cstr "\x7b\"method\":\"" = [123, 34] ++ cstr "method" ++ [34, 58, 34] := by decide
  have htype : cstr "\",\"deviceType\":\"" =
    [34, 44, 34] ++ cstr "deviceType" ++ [34, 58, 34] := by decide
  have hid : cstr "\",\"" = [34, 44, 34] := by decide
  have hvalue : cstr "\":\"" = [34, 58, 34] := by decide
  have hclose : cstr "\"\x7d" = [34, 125] := by decide
  simp only [requestBody, objectText, membersText, memberText, hopen, htype, hid, hvalue, hclose,
    List.append_assoc, List.cons_append, List.nil_append]

theorem resultBody_eq (result : Bytes) :
    resultBody result = objectText [(cstr "result", result)] := by
  have hopen : cstr "\x7b\"result\":\"" = [123, 34] ++ cstr "result" ++ [34, 58, 34] := by decide
  have hclose : cstr "\"\x7d" = [34, 125] := by decide
  simp only [resultBody, objectText, membersText, memberText, hopen, hclose, List.append_assoc,
    List.cons_append, List.nil_append]

theorem asks_requestBody (hjson : ReadsPlain json) (huid : Plain uid) (type : DeviceType)
    (m : BackendMethod) :
    Asks json type.name type.idKey m.name (requestBody type m uid) uid := by
  have hmethod : Plain (cstr "method") ∧ Plain m.name :=
    ⟨plain_cstr (by decide), plain_methodName m⟩
  have hdevice : Plain (cstr "deviceType") ∧ Plain type.name :=
    ⟨plain_cstr (by decide), plain_typeName type⟩
  have hload := hjson [(cstr "method", m.name), (cstr "deviceType", type.name), (type.idKey, uid)]
    (List.cons_ne_nil _ _) (by
      simp only [List.forall_mem_cons]
      exact ⟨hmethod, hdevice, ⟨plain_idKey type, huid⟩, nofun⟩)
  have hnodup : ([(cstr "method", m.name), (cstr "deviceType", type.name),
      (type.idKey, uid)].map Prod.fst).Nodup := by
    cases type <;> simp only [List.map_cons, List.map_nil, DeviceType.idKey] <;> decide
  rw [requestBody_eq]
  refine asks_iff.mpr ⟨_, hload, ?_, ?_, ?_⟩
  all_goals exact memberString_of_mem hnodup (by simp)

theorem requestBody_inj (hjson : ReadsPlain json) {type' : DeviceType} {m' : BackendMethod}
    {uid' : Bytes} (huid : Plain uid) (huid' : Plain uid')
    (h : requestBody type m uid = requestBody type' m' uid') : type = type' ∧ uid = uid' := by
  have hasks := asks_requestBody hjson huid type m
  rw [h] at hasks
  obtain ⟨htype, -, hid⟩ := hasks.unique (asks_requestBody hjson huid' type' m')
  have hsame : type = type' := by
    cases type <;> cases type' <;> first | rfl | exact absurd htype (by decide)
  exact ⟨hsame, hid (congrArg DeviceType.idKey hsame)⟩

/-- What the arbiter makes of the list for the request of `uid`. -/
def BackendMethod.applied : BackendMethod → List Bytes → Bytes → List Bytes
  | enroll, list, uid => enrolledCb list uid
  | delist, list, uid => delistedCb list uid
  | activate, list, _ | deactivate, list, _ => list

theorem mem_applied {list : List Bytes} (hlist : list.Nodup) {u : Bytes} :
    u ∈ m.applied list uid ↔ (u = uid ∧ m = .enroll) ∨ u ∈ list ∧ ¬ (u = uid ∧ m = .delist) := by
  cases m with
  | enroll =>
    rw [BackendMethod.applied, enrolledCb_eq]
    split_ifs with huid
    · simp only [and_false, not_false_eq_true, and_true]
      exact ⟨Or.inr, fun h => h.elim (fun h => h ▸ huid) id⟩
    · simp [or_comm]
  | delist =>
    rw [BackendMethod.applied, delistedCb_eq_erase, hlist.mem_erase_iff]
    simp [and_comm]
  | activate | deactivate => simp [BackendMethod.applied]

theorem nodup_applied {list : List Bytes} (hlist : list.Nodup) : (m.applied list uid).Nodup := by
  cases m with
  | enroll =>
    rw [BackendMethod.applied, enrolledCb_eq]
    split_ifs with huid
    · exact hlist
    · exact List.nodup_append.mpr ⟨hlist, List.nodup_singleton _, fun a ha b hb =>
        fun hab => huid ((List.mem_singleton.mp hb) ▸ hab ▸ ha)⟩
  | delist =>
    rw [BackendMethod.applied, delistedCb_eq_erase]
    exact hlist.erase uid
  | activate | deactivate => exact hlist

/-- The arbiter answers a device's request as the device expects, and keeps its lists
accordingly. -/
theorem process_requestBody (hjson : ReadsPlain json) (huid : Plain uid) (type : DeviceType)
    (m : BackendMethod) (agent : ArbiterAgent) :
    (arbiterProcessJsonMessage json amqpArbiterBackend (requestBody type m uid) agent).1 =
        resultBody m.shouldbe ∧
      ∀ type', (arbiterProcessJsonMessage json amqpArbiterBackend (requestBody type m uid)
          agent).2.listOf type' =
        if type' = type then m.applied (agent.listOf type') uid else agent.listOf type' := by
  have hasks := asks_requestBody hjson huid type m
  cases type with
  | edge =>
    rw [process_edge hasks]
    cases m <;> refine ⟨rfl, fun type' => ?_⟩ <;> cases type' <;> rfl
  | hub =>
    rw [process_hub hasks]
    cases m <;> refine ⟨rfl, fun type' => ?_⟩ <;> cases type' <;> rfl

theorem validate_resultBody (hjson : ReadsPlain json) (type : DeviceType) (m : BackendMethod) :
    type.validate json (strndup (resultBody m.shouldbe)) m.shouldbe = some .ok := by
  have hclean : Clean (resultBody m.shouldbe) := by cases m <;> decide
  have hload := hjson [(cstr "result", m.shouldbe)] (List.cons_ne_nil _ _) (by
    simp only [List.forall_mem_cons]
    exact ⟨⟨plain_cstr (by decide), plain_shouldbe m⟩, nofun⟩)
  have hresult : memberString (some (stringMembers [(cstr "result", m.shouldbe)]))
      (cstr "result") = some m.shouldbe := memberString_of_mem (by simp) (by simp)
  rw [(strndup_eq_self_iff _).mpr hclean]
  simp only [DeviceType.validate, validateResponse, resultBody_eq, hload, nodeGetObject, hresult,
    if_true]

end Chamge
