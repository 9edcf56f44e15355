import Chamge.Dispatch
import Chamge.Lib.OrderedSet

/-! The agent's lists refine the ordered sets that the request bodies describe. -/

namespace Chamge
open CString JsonGlib OrderedSet

/-- The body parses to an object whose string members ask for `method` of the device
`uid` of this type. -/
def Asks (json : JsonParser) (deviceType idKey method body uid : Bytes) : Prop :=
  ∃ members, json.loadFromData body = .ok (some (.object members)) ∧
    StringMember members (cstr "deviceType") deviceType ∧ StringMember members idKey uid ∧
    StringMember members (cstr "method") method

def EdgeAsks (json : JsonParser) (method : String) : Bytes → Bytes → Prop :=
  Asks json (cstr "edge") (cstr "edgeId") (cstr method)

def HubAsks (json : JsonParser) (method : String) : Bytes → Bytes → Prop :=
  Asks json (cstr "hub") (cstr "hubId") (cstr method)

/-! ### The lists -/

theorem findList_eq_none_iff {list : List Bytes} {id : Bytes} :
    findList list id = none ↔ id ∉ list := by
  simp only [findList, List.findIdx?_eq_none_iff, decide_eq_false_iff_not]
  exact ⟨fun h hid => h id hid rfl, fun h x hx hxid => h (hxid ▸ hx)⟩

theorem enrolledCb_of_mem {list : List Bytes} {id : Bytes} (h : id ∈ list) :
    enrolledCb list id = list := by
  unfold enrolledCb
  cases hf : findList list id with
  | none => exact absurd h (findList_eq_none_iff.mp hf)
  | some link => rfl

theorem enrolledCb_of_notMem {list : List Bytes} {id : Bytes} (h : id ∉ list) :
    enrolledCb list id = list ++ [id] := by
  simp only [enrolledCb, findList_eq_none_iff.mpr h]

theorem delistedCb_eq_erase (list : List Bytes) (id : Bytes) :
    delistedCb list id = list.erase id := by
  have hidx : list.idxOf? id = findList list id := by
    rw [findList, List.idxOf?]
    exact congrArg (list.findIdx? ·) (funext fun x => by rw [beq_eq_decide])
  rw [delistedCb, List.erase_eq_eraseIdx, hidx]
  cases findList list id <;> rfl

/-! ### One body -/

theorem asks_iff {json : JsonParser} {deviceType idKey method body uid : Bytes} :
    Asks json deviceType idKey method body uid ↔
      ∃ root, json.loadFromData body = .ok root ∧
        memberString (nodeGetObject root) (cstr "deviceType") = some deviceType ∧
        memberString (nodeGetObject root) idKey = some uid ∧
        memberString (nodeGetObject root) (cstr "method") = some method := by
  constructor
  · rintro ⟨members, hload, ht, hid, hm⟩
    exact ⟨_, hload, memberString_eq_some_iff.mpr ⟨members, rfl, ht⟩,
      memberString_eq_some_iff.mpr ⟨members, rfl, hid⟩,
      memberString_eq_some_iff.mpr ⟨members, rfl, hm⟩⟩
  · rintro ⟨root, hload, ht, hid, hm⟩
    obtain ⟨members, rfl, htype⟩ := object_of_memberString ht
    obtain ⟨_, hobj, huid⟩ := memberString_eq_some_iff.mp hid
    obtain rfl := Option.some.inj hobj
    obtain ⟨_, hobj, hmethod⟩ := memberString_eq_some_iff.mp hm
    obtain rfl := Option.some.inj hobj
    exact ⟨_, hload, htype, huid, hmethod⟩

theorem Asks.unique {json : JsonParser} {t t' k k' m m' body u u' : Bytes}
    (h : Asks json t k m body u) (h' : Asks json t' k' m' body u') :
    t = t' ∧ m = m' ∧ (k = k' → u = u') := by
  obtain ⟨root, hload, ht, hid, hm⟩ := asks_iff.mp h
  obtain ⟨root', hload', ht', hid', hm'⟩ := asks_iff.mp h'
  obtain rfl : root = root' := Except.ok.inj (hload.symm.trans hload')
  refine ⟨Option.some.inj (ht.symm.trans ht'), Option.some.inj (hm.symm.trans hm'), ?_⟩
  rintro rfl
  exact Option.some.inj (hid.symm.trans hid')

theorem exclusive_asks (json : JsonParser) (t k : Bytes) {m m' : Bytes} (hm : m ≠ m')
    (body : Bytes) : Exclusive (Asks json t k m) (Asks json t k m') body where
  adds_unique _ _ hu hv := (hv.unique hu).2.2 rfl
  removes_unique _ _ hu hv := (hv.unique hu).2.2 rfl
  not_both _ _ hu hv := hm (hu.unique hv).2.1

theorem process_edge {json : JsonParser} {self : ChamgeArbiterBackend} {m body uid : Bytes}
    (h : Asks json (cstr "edge") (cstr "edgeId") m body uid) (agent : ArbiterAgent) :
    arbiterProcessJsonMessage json self body agent =
      methodBranch (edgeHandlers self) m uid agent := by
  obtain ⟨root, hload, ht, hid, hm⟩ := asks_iff.mp h
  simp only [arbiterProcessJsonMessage, hload, ht, hm, if_true, deviceBranch, hid]

theorem process_hub {json : JsonParser} {self : ChamgeArbiterBackend} {m body uid : Bytes}
    (h : Asks json (cstr "hub") (cstr "hubId") m body uid) (agent : ArbiterAgent) :
    arbiterProcessJsonMessage json self body agent =
      methodBranch (hubHandlers self) m uid agent := by
  obtain ⟨root, hload, ht, hid, hm⟩ := asks_iff.mp h
  have hne : cstr "hub" ≠ cstr "edge" := by decide
  simp only [arbiterProcessJsonMessage, hload, ht, hm, if_true, if_neg hne, deviceBranch, hid]

theorem process_other {json : JsonParser} {self : ChamgeArbiterBackend} {body : Bytes}
    (hedge : ∀ m uid, ¬ Asks json (cstr "edge") (cstr "edgeId") m body uid)
    (hhub : ∀ m uid, ¬ Asks json (cstr "hub") (cstr "hubId") m body uid)
    (agent : ArbiterAgent) : (arbiterProcessJsonMessage json self body agent).2 = agent := by
  unfold arbiterProcessJsonMessage
  cases hload : json.loadFromData body with
  | error e => rfl
  | ok root =>
    simp only
    cases ht : memberString (nodeGetObject root) (cstr "deviceType") with
    | none => rfl
    | some t =>
      cases hm : memberString (nodeGetObject root) (cstr "method") with
      | none => rfl
      | some m =>
        simp only
        split_ifs with he hh
        · subst he
          cases hid : memberString (nodeGetObject root) (cstr "edgeId") with
          | none => simp only [deviceBranch, hid]
          | some uid => exact absurd (asks_iff.mpr ⟨root, hload, ht, hid, hm⟩) (hedge m uid)
        · subst hh
          cases hid : memberString (nodeGetObject root) (cstr "hubId") with
          | none => simp only [deviceBranch, hid]
          | some uid => exact absurd (asks_iff.mpr ⟨root, hload, ht, hid, hm⟩) (hhub m uid)
        · rfl

theorem methodBranch_agent (h : DeviceHandlers) (m uid : Bytes) (agent : ArbiterAgent)
    (hact : h.activate uid agent = agent) (hdeact : h.deactivate uid agent = agent) :
    (methodBranch h m uid agent).2 =
      if m = cstr "enroll" then h.enroll uid agent
      else if m = cstr "delist" then h.delist uid agent
      else agent := by
  have hne : cstr "activate" ≠ cstr "delist" := by decide
  have hne' : cstr "deactivate" ≠ cstr "delist" := by decide
  unfold methodBranch
  split_ifs <;> simp_all

/-! ### The two lists -/

theorem process_edge_edges {json : JsonParser} {m body uid : Bytes}
    (h : Asks json (cstr "edge") (cstr "edgeId") m body uid) (agent : ArbiterAgent) :
    (arbiterProcessJsonMessage json amqpArbiterBackend body agent).2 =
      if m = cstr "enroll" then edgeEnrolledCb uid agent
      else if m = cstr "delist" then edgeDelistedCb uid agent else agent := by
  rw [process_edge h, methodBranch_agent _ _ _ _ rfl rfl]
  rfl

theorem process_hub_hubs {json : JsonParser} {m body uid : Bytes}
    (h : Asks json (cstr "hub") (cstr "hubId") m body uid) (agent : ArbiterAgent) :
    (arbiterProcessJsonMessage json amqpArbiterBackend body agent).2 =
      if m = cstr "enroll" then hubEnrolledCb uid agent
      else if m = cstr "delist" then hubDelistedCb uid agent else agent := by
  rw [process_hub h, methodBranch_agent _ _ _ _ rfl rfl]
  rfl

theorem enrolledCb_eq (list : List Bytes) (id : Bytes) :
    enrolledCb list id = if id ∈ list then list else list ++ [id] := by
  split_ifs with h
  · exact enrolledCb_of_mem h
  · exact enrolledCb_of_notMem h

theorem updates_edges (json : JsonParser) (agent : ArbiterAgent) (body : Bytes) :
    Updates (EdgeAsks json "enroll") (EdgeAsks json "delist") body agent.edges
      (arbiterProcessJsonMessage json amqpArbiterBackend body agent).2.edges := by
  have hne : cstr "delist" ≠ cstr "enroll" := by decide
  refine ⟨fun u hu => ?_, fun u hu => ?_, fun hno => ?_⟩
  · rw [process_edge_edges hu, if_pos rfl]
    exact enrolledCb_eq agent.edges u
  · rw [process_edge_edges hu, if_neg hne, if_pos rfl]
    exact delistedCb_eq_erase agent.edges u
  by_cases hedge : ∃ m u, Asks json (cstr "edge") (cstr "edgeId") m body u
  · obtain ⟨m, u, hu⟩ := hedge
    have he : m ≠ cstr "enroll" := by
      rintro rfl
      exact (hno u).1 hu
    have hd : m ≠ cstr "delist" := by
      rintro rfl
      exact (hno u).2 hu
    rw [process_edge_edges hu, if_neg he, if_neg hd]
  by_cases hhub : ∃ m u, Asks json (cstr "hub") (cstr "hubId") m body u
  · obtain ⟨m, u, hu⟩ := hhub
    rw [process_hub_hubs hu]
    split_ifs <;> rfl
  · rw [process_other (fun m u h => hedge ⟨m, u, h⟩) fun m u h => hhub ⟨m, u, h⟩]

theorem updates_hubs (json : JsonParser) (agent : ArbiterAgent) (body : Bytes) :
    Updates (HubAsks json "enroll") (HubAsks json "delist") body agent.hubs
      (arbiterProcessJsonMessage json amqpArbiterBackend body agent).2.hubs := by
  have hne : cstr "delist" ≠ cstr "enroll" := by decide
  refine ⟨fun u hu => ?_, fun u hu => ?_, fun hno => ?_⟩
  · rw [process_hub_hubs hu, if_pos rfl]
    exact enrolledCb_eq agent.hubs u
  · rw [process_hub_hubs hu, if_neg hne, if_pos rfl]
    exact delistedCb_eq_erase agent.hubs u
  by_cases hhub : ∃ m u, Asks json (cstr "hub") (cstr "hubId") m body u
  · obtain ⟨m, u, hu⟩ := hhub
    have he : m ≠ cstr "enroll" := by
      rintro rfl
      exact (hno u).1 hu
    have hd : m ≠ cstr "delist" := by
      rintro rfl
      exact (hno u).2 hu
    rw [process_hub_hubs hu, if_neg he, if_neg hd]
  by_cases hedge : ∃ m u, Asks json (cstr "edge") (cstr "edgeId") m body u
  · obtain ⟨m, u, hu⟩ := hedge
    rw [process_edge_edges hu]
    split_ifs <;> rfl
  · rw [process_other (fun m u h => hedge ⟨m, u, h⟩) fun m u h => hhub ⟨m, u, h⟩]

/-- A body that asks for no enroll and no delist. -/
def AsksNothing (json : JsonParser) (body : Bytes) : Prop :=
  ∀ u, ¬ EdgeAsks json "enroll" body u ∧ ¬ EdgeAsks json "delist" body u ∧
    ¬ HubAsks json "enroll" body u ∧ ¬ HubAsks json "delist" body u

/-- From empty lists, any sequence of bodies leaves the agent with the ordered sets of
edges and hubs that the bodies describe; a body that asks for nothing changes neither. -/
theorem registry_follows_requests (json : JsonParser) (bodies : List Bytes) :
    let agent := processBodies json amqpArbiterBackend .empty bodies
    Follows (EdgeAsks json "enroll") (EdgeAsks json "delist") bodies agent.edges ∧
    Follows (HubAsks json "enroll") (HubAsks json "delist") bodies agent.hubs ∧
    ∀ body, AsksNothing json body →
      processBodies json amqpArbiterBackend .empty (bodies ++ [body]) = agent := by
  have hne : cstr "enroll" ≠ cstr "delist" := by decide
  refine ⟨?_, ?_, fun body hbody => ?_⟩
  · exact Follows.foldl (h := []) ArbiterAgent.edges (exclusive_asks json _ _ hne)
      (updates_edges json) follows_nil
  · exact Follows.foldl (h := []) ArbiterAgent.hubs (exclusive_asks json _ _ hne)
      (updates_hubs json) follows_nil
  · rw [processBodies, List.foldl_append]
    have he := (updates_edges json (processBodies json amqpArbiterBackend .empty bodies)
      body).kept fun u => ⟨(hbody u).1, (hbody u).2.1⟩
    have hh := (updates_hubs json (processBodies json amqpArbiterBackend .empty bodies)
      body).kept fun u => (hbody u).2.2
    exact congrArg₂ ArbiterAgent.mk he hh

end Chamge
