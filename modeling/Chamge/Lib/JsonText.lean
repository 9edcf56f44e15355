import Chamge.Lib.JsonGlib

/-! The texts of objects whose names and values are plain strings, and a parser that reads
these texts back. -/

namespace JsonGlib
open CString

/-- A string that stands between quotation marks as it is: UTF-8 without control
characters, quotation marks and backslashes. -/
def Plain (s : Bytes) : Prop := (∃ t : String, s = cstr t) ∧ ∀ c ∈ s, 32 ≤ c ∧ c ≠ 34 ∧ c ≠ 92

theorem plain_cstr {t : String} (h : (cstr t).all fun c => 32 ≤ c && c ≠ 34 && c ≠ 92) :
    Plain (cstr t) := by
  refine ⟨⟨t, rfl⟩, fun c hc => ?_⟩
  have hplain := List.all_eq_true.mp h c hc
  simpa only [Bool.and_eq_true, decide_eq_true_eq, and_assoc] using hplain

theorem Plain.noQuote {s : Bytes} (h : Plain s) : (34 : UInt8) ∉ s := fun hs => (h.2 34 hs).2.1 rfl

/-- `"name":"value"` -/
def memberText (m : Bytes × Bytes) : Bytes := [34] ++ m.1 ++ [34, 58, 34] ++ m.2 ++ [34]

def membersText : List (Bytes × Bytes) → Bytes
  | [] => []
  | [m] => memberText m
  | m :: ms => memberText m ++ [44] ++ membersText ms

def objectText (members : List (Bytes × Bytes)) : Bytes := [123] ++ membersText members ++ [125]

def stringMembers (members : List (Bytes × Bytes)) : JsonObject :=
  members.map fun m => (m.1, .string m.2)

/-- What a JSON parser makes of these texts. -/
def ReadsPlain (json : JsonParser) : Prop :=
  ∀ members, members ≠ [] → (∀ m ∈ members, Plain m.1 ∧ Plain m.2) →
    json.loadFromData (objectText members) = .ok (some (.object (stringMembers members)))

/-! ### A parser -/

def pieces : List (Bytes × Bytes) → List Bytes
  | [] => []
  | [m] => [m.1, [58], m.2, [125]]
  | m :: ms => m.1 :: [58] :: m.2 :: [44] :: pieces ms

def readPieces : List Bytes → Option (List (Bytes × Bytes))
  | [name, [58], value, [125]] => some [(name, value)]
  | name :: [58] :: value :: [44] :: rest => (readPieces rest).map ((name, value) :: ·)
  | _ => none

/-- It knows no other texts. -/
def plainParser : JsonParser where
  loadFromData body :=
    match body.splitOn 34 with
    | [123] :: rest =>
      match readPieces rest with
      | some members => .ok (some (.object (stringMembers members)))
      | none => .error []
    | _ => .error []

theorem objectText_eq_intercalate {members : List (Bytes × Bytes)} (h : members ≠ []) :
    objectText members = [34].intercalate ([123] :: pieces members) := by
  suffices ∀ b, [b] ++ membersText members ++ [125] = [34].intercalate ([b] :: pieces members) from
    this 123
  induction members with
  | nil => exact absurd rfl h
  | cons m ms ih =>
    intro b
    cases ms with
    | nil => simp [membersText, memberText, pieces, List.intercalate, List.intersperse]
    | cons n ns =>
      have ih44 := ih (List.cons_ne_nil n ns) 44
      simp only [membersText, memberText, pieces, List.intercalate_cons_cons] at ih44 ⊢
      rw [← ih44]
      simp

theorem readPieces_pieces {members : List (Bytes × Bytes)} (h : members ≠ []) :
    readPieces (pieces members) = some members := by
  induction members with
  | nil => exact absurd rfl h
  | cons m ms ih =>
    cases ms with
    | nil => rfl
    | cons n ns =>
      simp only [pieces, readPieces]
      rw [ih (List.cons_ne_nil n ns), Option.map_some]

theorem noQuote_pieces {members : List (Bytes × Bytes)}
    (h : ∀ m ∈ members, Plain m.1 ∧ Plain m.2) : ∀ p ∈ pieces members, (34 : UInt8) ∉ p := by
  induction members with
  | nil => nofun
  | cons m ms ih =>
    obtain ⟨hm, hms⟩ := List.forall_mem_cons.mp h
    cases ms with
    | nil => simp [pieces, hm.1.noQuote, hm.2.noQuote]
    | cons n ns =>
      simp only [pieces, List.forall_mem_cons]
      exact ⟨hm.1.noQuote, by decide, hm.2.noQuote, by decide, ih hms⟩

theorem plainParser_reads : ReadsPlain plainParser := by
  intro members hne hplain
  have hsplit : (objectText members).splitOn 34 = [123] :: pieces members := by
    rw [objectText_eq_intercalate hne]
    refine List.splitOn_intercalate 34 ?_ (List.cons_ne_nil _ _)
    exact List.forall_mem_cons.mpr ⟨by decide, noQuote_pieces hplain⟩
  simp only [plainParser, hsplit, readPieces_pieces hne]

end JsonGlib
