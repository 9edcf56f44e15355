import Mathlib.Data.List.Nodup
import Chamge.Lib.CString

/-! The tree that a JSON parser builds and the readers over it. A `NULL` node or object is
`none`; every reader passes it on. Of members with one name the last one counts. -/

namespace JsonGlib
open CString

inductive JsonNode
  | null
  | boolean (b : Bool)
  | number (digits : Bytes)
  | string (s : Bytes)
  | array (elements : List JsonNode)
  | object (members : List (Bytes × JsonNode))

abbrev JsonObject := List (Bytes × JsonNode)

/-- A parser gives the root node (there is none in an empty text), or the message of its
error. -/
structure JsonParser where
  loadFromData : Bytes → Except Bytes (Option JsonNode)

def nodeGetObject : Option JsonNode → Option JsonObject
  | some (.object members) => some members
  | _ => none

def objectGetMember (o : Option JsonObject) (name : Bytes) : Option JsonNode :=
  o.bind fun members => (members.reverse.find? fun m => m.1 = name).map Prod.snd

def objectHasMember (o : Option JsonObject) (name : Bytes) : Bool :=
  (objectGetMember o name).isSome

def nodeGetString : Option JsonNode → Option Bytes
  | some (.string s) => some s
  | _ => none

/-- The member's string where the object has the member, else `NULL`. -/
def memberString (o : Option JsonObject) (name : Bytes) : Option Bytes :=
  if objectHasMember o name then nodeGetString (objectGetMember o name) else none

theorem memberString_eq (o : Option JsonObject) (name : Bytes) :
    memberString o name = nodeGetString (objectGetMember o name) := by
  unfold memberString objectHasMember
  cases objectGetMember o name <;> rfl

def StringMember (members : JsonObject) (name s : Bytes) : Prop :=
  ∃ pre post, members = pre ++ (name, .string s) :: post ∧ ∀ m ∈ post, m.1 ≠ name

theorem StringMember.mem {members : JsonObject} {name s : Bytes}
    (h : StringMember members name s) : (name, .string s) ∈ members := by
  obtain ⟨pre, post, rfl, -⟩ := h
  exact List.mem_append_right pre (List.mem_cons_self ..)

theorem not_stringMember_nil {name s : Bytes} : ¬ StringMember [] name s :=
  fun h => List.not_mem_nil h.mem

theorem stringMember_cons_iff {m : Bytes × JsonNode} {members : JsonObject} {name s : Bytes} :
    StringMember (m :: members) name s ↔
      StringMember members name s ∨ m = (name, .string s) ∧ ∀ n ∈ members, n.1 ≠ name := by
  constructor
  · rintro ⟨pre, post, hsplit, hpost⟩
    cases pre with
    | nil =>
      obtain ⟨rfl, rfl⟩ := List.cons.inj hsplit
      exact Or.inr ⟨rfl, hpost⟩
    | cons n pre =>
      obtain ⟨rfl, rfl⟩ := List.cons.inj hsplit
      exact Or.inl ⟨pre, post, rfl, hpost⟩
  · rintro (⟨pre, post, rfl, hpost⟩ | ⟨rfl, hnone⟩)
    · exact ⟨m :: pre, post, rfl, hpost⟩
    · exact ⟨[], members, rfl, hnone⟩

theorem objectGetMember_eq_some_iff {members : JsonObject} {name : Bytes} {node : JsonNode} :
    objectGetMember (some members) name = some node ↔
      ∃ pre post, members = pre ++ (name, node) :: post ∧ ∀ m ∈ post, m.1 ≠ name := by
  simp only [objectGetMember, Option.bind_some, Option.map_eq_some_iff,
    List.find?_eq_some_iff_append]
  constructor
  · rintro ⟨⟨n, _⟩, ⟨hn, as, bs, hsplit, has⟩, rfl⟩
    obtain rfl : n = name := by simpa using hn
    refine ⟨bs.reverse, as.reverse, ?_, fun m hm => ?_⟩
    · rw [← List.reverse_inj, hsplit]
      simp
    · simpa using has m (List.mem_reverse.mp hm)
  · rintro ⟨pre, post, rfl, hpost⟩
    refine ⟨(name, node), ⟨by simp, post.reverse, pre.reverse, by simp, fun m hm => ?_⟩, rfl⟩
    simpa using hpost m (List.mem_reverse.mp hm)

theorem memberString_eq_some_iff {o : Option JsonObject} {name s : Bytes} :
    memberString o name = some s ↔ ∃ members, o = some members ∧ StringMember members name s := by
  rw [memberString_eq]
  cases o with
  | none => simp [objectGetMember, nodeGetString]
  | some members =>
    simp only [Option.some.injEq, exists_eq_left', StringMember, ← objectGetMember_eq_some_iff]
    cases objectGetMember (some members) name with
    | none => simp [nodeGetString]
    | some node => cases node <;> simp [nodeGetString]

theorem object_of_memberString {root : Option JsonNode} {name s : Bytes}
    (h : memberString (nodeGetObject root) name = some s) :
    ∃ members, root = some (.object members) ∧ StringMember members name s := by
  obtain ⟨members, hobject, hmember⟩ := memberString_eq_some_iff.mp h
  cases root with
  | none => cases hobject
  | some node =>
    cases node with
    | object members' =>
      obtain rfl := Option.some.inj hobject
      exact ⟨members', rfl, hmember⟩
    | null | boolean | number | string | array => cases hobject

theorem memberString_of_mem {members : List (Bytes × Bytes)} {name s : Bytes}
    (hnodup : (members.map Prod.fst).Nodup) (hmem : (name, s) ∈ members) :
    memberString (some (members.map fun m => (m.1, .string m.2))) name = some s := by
  obtain ⟨as, bs, rfl⟩ := List.append_of_mem hmem
  refine memberString_eq_some_iff.mpr ⟨_, rfl, as.map fun m => (m.1, .string m.2),
    bs.map fun m => (m.1, .string m.2), by simp, fun m hm => ?_⟩
  obtain ⟨b, hb, rfl⟩ := List.mem_map.mp hm
  rw [List.map_append, List.map_cons, List.nodup_append, List.nodup_cons] at hnodup
  rintro rfl
  exact hnodup.2.1.1 (List.mem_map.mpr ⟨b, hb, rfl⟩)

end JsonGlib
