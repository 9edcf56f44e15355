import Chamge.Lib.JsonGrammar

/-! What the members of an object's text are, and how an RFC 8259 parser reads plain members. -/

namespace JsonGlib
open CString

/-! ### Whitespace -/

theorem ws_nil : Ws [] := List.forall_mem_nil _

theorem ws_append_eq_cons {w r t : List Char} {c : Char} (hw : Ws w) (hc : isWs c = false)
    (h : w ++ r = c :: t) : w = [] ∧ r = c :: t := by
  cases w with
  | nil => exact ⟨rfl, h⟩
  | cons d w =>
    obtain ⟨rfl, -⟩ := List.cons.inj h
    exact absurd (hw d (List.mem_cons_self ..)) (by simp [hc])

theorem append_ws_eq_concat {w r t : List Char} {c : Char} (hw : Ws w) (hc : isWs c = false)
    (h : r ++ w = t ++ [c]) : w = [] ∧ r = t ++ [c] := by
  rcases List.eq_nil_or_concat w with rfl | ⟨w, d, rfl⟩
  · exact ⟨rfl, by simpa using h⟩
  · rw [List.concat_eq_append, ← List.append_assoc] at h
    obtain ⟨-, hd⟩ := List.append_inj' h rfl
    obtain rfl := List.singleton_inj.mp hd
    exact absurd (hw d (by simp)) (by simp [hc])

/-! ### Members -/

theorem memberList_iff {t : List Char} {members : JsonObject} :
    MemberList t members ↔ ∃ ms : List Member, ms ≠ [] ∧ (∀ m ∈ ms, m.Reads) ∧
      t = commas (ms.map Member.whole) ∧ members = ms.map Member.pair := by
  constructor
  · intro h
    induction h with
    | @last m hm => exact ⟨[m], by simp, by simpa using hm, (commas_singleton _).symm, rfl⟩
    | @cons m t members hm hs ih =>
      obtain ⟨ms, hne, hall, rfl, rfl⟩ := ih
      refine ⟨m :: ms, by simp, List.forall_mem_cons.mpr ⟨hm, hall⟩, ?_, rfl⟩
      rw [List.map_cons, commas_cons (by simpa using hne)]
  · rintro ⟨ms, hne, hall, rfl, rfl⟩
    induction ms with
    | nil => exact absurd rfl hne
    | cons m ms ih =>
      obtain ⟨hm, hms⟩ := List.forall_mem_cons.mp hall
      by_cases hne : ms = []
      · subst hne
        rw [List.map_singleton, commas_singleton]
        exact .last hm
      · rw [List.map_cons, commas_cons (by simpa using hne)]
        exact .cons hm (ih hne hms)

theorem ValueText.of_quote {u t : List Char} {v : JsonNode} (h : ValueText u v)
    (hu : u = '"' :: t) :
    ∃ raw s, StringText raw s ∧ t = raw ++ ['"'] ∧ v = .string (nodeText s) := by
  cases h with
  | string hs => exact ⟨_, _, hs, (List.cons.inj hu).2.symm, rfl⟩
  | number ht =>
    subst hu
    exact absurd ht (by simp [isNumber, numberStep, isNonzeroDigit])
  | nullWord | trueWord | falseWord | noElements | array | noMembers | object =>
    exact absurd (List.cons.inj hu).1 (by decide)

theorem ValueText.of_brace {u t : List Char} {v : JsonNode} (h : ValueText u v)
    (hu : u = '{' :: t) :
    ∃ body members, t = body ++ ['}'] ∧ v = .object members ∧
      (MemberList body members ∨ Ws body ∧ members = []) := by
  cases h with
  | noMembers hw => exact ⟨_, _, (List.cons.inj hu).2.symm, rfl, Or.inr ⟨hw, rfl⟩⟩
  | @object ms hne hspaced hvalue =>
    refine ⟨_, _, (List.cons.inj hu).2.symm, rfl, Or.inl (memberList_iff.mpr ?_)⟩
    exact ⟨ms, hne, fun m hm => ⟨hspaced m hm, hvalue m hm⟩, rfl, rfl⟩
  | number ht =>
    subst hu
    exact absurd ht (by simp [isNumber, numberStep, isNonzeroDigit])
  | nullWord | trueWord | falseWord | noElements | array | string =>
    exact absurd (List.cons.inj hu).1 (by decide)

theorem ValueText.of_object {u : List Char} {members : JsonObject}
    (h : ValueText u (.object members)) : members = [] ∨ ∃ t, MemberList t members := by
  generalize hobject : JsonNode.object members = node at h
  cases h with
  | noMembers => exact Or.inl (JsonNode.object.inj hobject)
  | @object ms hne hspaced hvalue =>
    obtain rfl := JsonNode.object.inj hobject
    have hreads : ∀ m ∈ ms, m.Reads := fun m hm => ⟨hspaced m hm, hvalue m hm⟩
    exact Or.inr ⟨_, memberList_iff.mpr ⟨ms, hne, hreads, rfl, rfl⟩⟩
  | nullWord | trueWord | falseWord | number | string | noElements | array => cases hobject

theorem ValueText.of_string {u : List Char} {s : Bytes} (h : ValueText u (.string s)) :
    ∃ raw t, StringText raw t ∧ u = quoted raw ∧ s = nodeText t := by
  generalize hstring : JsonNode.string s = node at h
  cases h with
  | string hs => exact ⟨_, _, hs, rfl, JsonNode.string.inj hstring⟩
  | nullWord | trueWord | falseWord | number | noElements | array | noMembers | object =>
    cases hstring

theorem MemberList.exists_utf8 {t : List Char} {members : JsonObject} {name s : Bytes}
    (h : MemberList t members) (hmem : (name, .string s) ∈ members) : ∃ u, s = utf8 u := by
  obtain ⟨ms, -, hall, -, rfl⟩ := memberList_iff.mp h
  obtain ⟨m, hm, hpair⟩ := List.mem_map.mp hmem
  have hvalue := (hall m hm).2
  rw [(Prod.mk.inj hpair).2] at hvalue
  obtain ⟨raw, t, -, -, rfl⟩ := hvalue.of_string
  exact ⟨_, text_utf8 t⟩

theorem Rfc8259.exists_utf8 {json : JsonParser} (hjson : Rfc8259 json) {body name s : Bytes}
    {members : JsonObject} (hload : json.loadFromData body = .ok (some (.object members)))
    (h : StringMember members name s) : ∃ u, s = utf8 u := by
  obtain ⟨t, -, e, he, -, hnode⟩ := (hjson _ _).mp hload
  have hvalue := he.2
  rw [← hnode] at hvalue
  rcases hvalue.of_object with rfl | ⟨t, hlist⟩
  · exact absurd h not_stringMember_nil
  · exact hlist.exists_utf8 h.mem

/-- A text in braces is that of an object. -/
theorem jsonText_braces_iff {t : List Char} {v : JsonNode} :
    JsonText ('{' :: (t ++ ['}'])) v ↔
      ∃ members, v = .object members ∧ (MemberList t members ∨ Ws t ∧ members = []) := by
  constructor
  · rintro ⟨e, ⟨⟨hbefore, hafter⟩, hvalue⟩, heq, rfl⟩
    rw [Element.whole, List.append_assoc] at heq
    obtain ⟨-, heq⟩ := ws_append_eq_cons hbefore (by decide) heq.symm
    obtain ⟨c, u, hu⟩ := List.exists_cons_of_ne_nil hvalue.ne_nil
    rw [hu] at heq
    obtain ⟨rfl, hbody⟩ := List.cons.inj heq
    obtain ⟨body, members, rfl, hnode, hmembers⟩ := hvalue.of_brace hu
    obtain ⟨-, hbody⟩ := append_ws_eq_concat hafter (by decide) hbody
    obtain ⟨rfl, -⟩ := List.append_inj' hbody rfl
    exact ⟨members, hnode, hmembers⟩
  · rintro ⟨members, rfl, hmembers⟩
    have hvalue : ValueText ('{' :: (t ++ ['}'])) (.object members) := by
      rcases hmembers with hlist | ⟨hw, rfl⟩
      · obtain ⟨ms, hne, hall, rfl, rfl⟩ := memberList_iff.mp hlist
        exact .object hne (fun m hm => (hall m hm).1) fun m hm => (hall m hm).2
      · exact .noMembers hw
    exact ⟨⟨[], _, [], _⟩, ⟨⟨ws_nil, ws_nil⟩, hvalue⟩, by simp [Element.whole], rfl⟩

/-! ### Members whose name stands for itself -/

theorem StringText.nil_of_quote {raw s r t : List Char} (h : StringText raw s)
    (heq : raw ++ '"' :: r = '"' :: t) : raw = [] ∧ s = [] ∧ r = t := by
  cases h with
  | nil => exact ⟨rfl, rfl, (List.cons.inj heq).2⟩
  | @cons u raw s c hc hs =>
    obtain ⟨d, v, rfl, hd⟩ := hc.head_ne_quote
    exact absurd (List.cons.inj heq).1 hd

/-- A string literal that begins with such characters. -/
theorem StringText.split_unescaped {p raw s r t : List Char} (h : StringText raw s)
    (hp : ∀ c ∈ p, unescaped c) (heq : raw ++ '"' :: r = p ++ t) :
    ∃ raw' s', raw = p ++ raw' ∧ s = p ++ s' ∧ StringText raw' s' ∧ raw' ++ '"' :: r = t := by
  induction p generalizing raw s with
  | nil => exact ⟨raw, s, rfl, rfl, h, heq⟩
  | cons c p ih =>
    obtain ⟨hc, hps⟩ := List.forall_mem_cons.mp hp
    cases h with
    | nil =>
      obtain ⟨rfl, -⟩ := List.cons.inj heq
      exact absurd hc (by decide)
    | cons hd hs =>
      rw [List.append_assoc] at heq
      obtain ⟨rfl, rfl⟩ := hd.of_unescaped hc heq
      obtain ⟨-, heq⟩ := List.cons.inj heq
      obtain ⟨raw', s', rfl, rfl, hs', heq⟩ := ih hs hps heq
      exact ⟨raw', s', rfl, rfl, hs', heq⟩

theorem StringText.eq_of_unescaped {k raw s r t : List Char} (h : StringText raw s)
    (hk : ∀ c ∈ k, unescaped c) (heq : raw ++ '"' :: r = k ++ '"' :: t) :
    raw = k ∧ s = k ∧ r = t := by
  obtain ⟨raw', s', rfl, rfl, hs, heq⟩ := h.split_unescaped hk heq
  obtain ⟨rfl, rfl, rfl⟩ := hs.nil_of_quote heq
  simp

/-- The string with which a text of members begins. -/
theorem Member.Reads.head_string {m : Member} (h : m.Reads) {k t z : List Char}
    (hk : ∀ c ∈ k, unescaped c) (heq : m.whole ++ z = quoted k ++ ':' :: '"' :: t) :
    ∃ raw s w, StringText raw s ∧ Ws w ∧ t = raw ++ '"' :: (w ++ z) ∧
      m.pair = (utf8 k, .string (nodeText s)) := by
  obtain ⟨⟨hbefore, hkey, hafter, hspaced⟩, hvalue⟩ := h
  have hsplit : m.before ++ '"' :: (m.raw ++ '"' :: (m.after ++ ':' :: (m.value.before ++
      (m.value.text ++ (m.value.after ++ z))))) = '"' :: (k ++ '"' :: ':' :: '"' :: t) := by
    simpa [Member.whole, Element.whole, quoted] using heq
  obtain ⟨-, hsplit⟩ := ws_append_eq_cons hbefore (by decide) hsplit
  obtain ⟨-, hname, hsplit⟩ := hkey.eq_of_unescaped hk (List.cons.inj hsplit).2
  obtain ⟨-, hsplit⟩ := ws_append_eq_cons hafter (by decide) hsplit
  obtain ⟨-, hsplit⟩ := ws_append_eq_cons hspaced.1 (by decide) (List.cons.inj hsplit).2
  obtain ⟨c, u, hu⟩ := List.exists_cons_of_ne_nil hvalue.ne_nil
  rw [hu] at hsplit
  obtain ⟨rfl, hrest⟩ := List.cons.inj hsplit
  obtain ⟨raw, s, hs, rfl, hnode⟩ := hvalue.of_quote hu
  refine ⟨raw, s, m.value.after, hs, hspaced.2, by simpa using hrest.symm, ?_⟩
  rw [Member.pair, hname, nodeText_of_unescaped hk, hnode]

theorem MemberList.peel {k v t : List Char} {members : JsonObject}
    (hk : ∀ c ∈ k, unescaped c) (hv : ∀ c ∈ v, unescaped c)
    (h : MemberList (quoted k ++ ':' :: (quoted v ++ ',' :: t)) members) :
    ∃ rest, members = (utf8 k, .string (utf8 v)) :: rest ∧ MemberList t rest := by
  generalize htext : quoted k ++ ':' :: (quoted v ++ ',' :: t) = whole at h
  have hquoted : quoted v ++ ',' :: t = '"' :: (v ++ '"' :: ',' :: t) := by simp [quoted]
  rw [hquoted] at htext
  cases h with
  | @last m hm =>
    obtain ⟨raw, s, w, hs, hw, heq, -⟩ := hm.head_string (z := []) hk (by rw [htext]; simp)
    obtain ⟨-, -, hclose⟩ := hs.eq_of_unescaped hv heq.symm
    rw [List.append_nil] at hclose
    exact absurd (hw ',' (hclose ▸ List.mem_cons_self ..)) (by decide)
  | @cons m t' rest hm hlist =>
    obtain ⟨raw, s, w, hs, hw, heq, hpair⟩ := hm.head_string hk htext.symm
    obtain ⟨-, rfl, hclose⟩ := hs.eq_of_unescaped hv heq.symm
    obtain ⟨-, hclose⟩ := ws_append_eq_cons hw (by decide) hclose
    obtain ⟨-, rfl⟩ := List.cons.inj hclose
    exact ⟨rest, by rw [hpair, nodeText_of_unescaped hv], hlist⟩

/-! ### How long a member is -/

theorem length_le_of_nodeText {s t : List Char} (h : nodeText s = utf8 t) :
    t.length ≤ s.length := by
  rw [← nodeText_eq_utf8_iff.mp h]
  exact (List.takeWhile_sublist _).length_le

/-- Two names and values take at least five characters more; with no more than that the value
stands for itself. -/
theorem Member.Reads.length {m : Member} (h : m.Reads) {k v : List Char}
    (hpair : m.pair = (utf8 k, .string (utf8 v))) :
    k.length + v.length + 5 ≤ m.whole.length ∧
      (m.whole.length ≤ k.length + v.length + 5 → ∀ c ∈ v, unescaped c) := by
  obtain ⟨⟨-, hkey, -, -⟩, hvalue⟩ := h
  obtain ⟨hname, hnode⟩ := Prod.mk.inj hpair
  rw [hnode] at hvalue
  obtain ⟨raw, s, hs, hu, hv⟩ := hvalue.of_string
  have hkeyle := (length_le_of_nodeText hname).trans hkey.length_le
  have hvaluele := length_le_of_nodeText hv.symm
  have hrawle := hs.length_le
  have hlength : m.raw.length + raw.length + 5 ≤ m.whole.length := by
    simp only [Member.whole, Element.whole, hu, quoted, List.length_append, List.length_cons,
      List.length_nil]
    omega
  refine ⟨by omega, fun hle => ?_⟩
  obtain ⟨rfl, hplain⟩ := hs.eq_of_length (by omega)
  rw [← nodeText_eq_utf8_iff.mp hv.symm]
  exact fun c hc => hplain c ((List.takeWhile_sublist _).subset hc)

theorem MemberList.length {t k v : List Char} {members : JsonObject} (h : MemberList t members)
    (hmem : (utf8 k, .string (utf8 v)) ∈ members) :
    k.length + v.length + 5 ≤ t.length ∧
      (t.length ≤ k.length + v.length + 5 → ∀ c ∈ v, unescaped c) := by
  induction h with
  | last hm => exact hm.length (List.mem_singleton.mp hmem).symm
  | cons hm hs ih =>
    rw [List.length_append, List.length_cons]
    rcases List.mem_cons.mp hmem with hmem | hmem
    · obtain ⟨hle, -⟩ := hm.length hmem.symm
      exact ⟨by omega, fun hshort => absurd hshort (by omega)⟩
    · obtain ⟨hle, -⟩ := ih hmem
      exact ⟨by omega, fun hshort => absurd hshort (by omega)⟩

/-! ### Plain members -/

theorem memberText_utf8 (k v : List Char) :
    memberText (utf8 k, utf8 v) = utf8 (quoted k ++ ':' :: quoted v) := by
  have hquote : String.utf8EncodeChar '"' = [34] := by decide
  have hcolon : String.utf8EncodeChar ':' = [58] := by decide
  have hnil : utf8 [] = [] := rfl
  simp only [memberText, quoted, utf8_append, utf8_cons, hquote, hcolon, hnil, List.append_assoc,
    List.cons_append, List.nil_append]

/-- `"k":"raw"`, and whitespace after it. -/
def namedMember (k raw s w : List Char) : Member :=
  ⟨[], k, k, [], [], quoted raw, w, .string (nodeText s)⟩

theorem namedMember_reads {k raw s w : List Char} (hk : ∀ c ∈ k, unescaped c)
    (hs : StringText raw s) (hw : Ws w) : (namedMember k raw s w).Reads :=
  ⟨⟨ws_nil, stringText_self hk, ws_nil, ws_nil, hw⟩, .string hs⟩

theorem namedMember_whole (k raw s w : List Char) :
    (namedMember k raw s w).whole = quoted k ++ ':' :: (quoted raw ++ w) := by
  simp [namedMember, Member.whole, Element.whole]

theorem namedMember_pair {k : List Char} (hk : ∀ c ∈ k, unescaped c) (raw s w : List Char) :
    (namedMember k raw s w).pair = (utf8 k, .string (nodeText s)) := by
  rw [Member.pair, namedMember, nodeText_of_unescaped hk]

theorem Plain.exists_utf8 {s : Bytes} (h : Plain s) : ∃ t, s = utf8 t ∧ ∀ c ∈ t, unescaped c := by
  obtain ⟨t, rfl⟩ := h.1
  rw [cstr_eq_utf8] at h ⊢
  exact ⟨t.toList, rfl, plain_utf8_iff.mp h⟩

theorem memberList_plain {members : List (Bytes × Bytes)} (hne : members ≠ [])
    (hplain : ∀ m ∈ members, Plain m.1 ∧ Plain m.2) :
    ∃ t, membersText members = utf8 t ∧ MemberList t (stringMembers members) := by
  induction members with
  | nil => exact absurd rfl hne
  | cons m ms ih =>
    obtain ⟨⟨hname, hvalue⟩, hms⟩ := List.forall_mem_cons.mp hplain
    obtain ⟨name, value⟩ := m
    obtain ⟨k, rfl, hk⟩ := Plain.exists_utf8 hname
    obtain ⟨v, rfl, hv⟩ := Plain.exists_utf8 hvalue
    have hreads := namedMember_reads hk (stringText_self hv) ws_nil
    have hpair := namedMember_pair hk v v []
    have hwhole := namedMember_whole k v v []
    rw [List.append_nil] at hwhole
    rw [nodeText_of_unescaped hv] at hpair
    cases ms with
    | nil =>
      refine ⟨_, memberText_utf8 k v, ?_⟩
      rw [stringMembers, List.map_singleton, ← hpair, ← hwhole]
      exact .last hreads
    | cons n ns =>
      obtain ⟨t, htext, hlist⟩ := ih (List.cons_ne_nil n ns) hms
      have hcomma : String.utf8EncodeChar ',' = [44] := by decide
      refine ⟨(namedMember k v v []).whole ++ ',' :: t, ?_, ?_⟩
      · rw [membersText, htext, memberText_utf8, hwhole, utf8_append _ (',' :: t), utf8_cons ',' t,
          hcomma, List.append_assoc]
        exact List.cons_ne_nil n ns
      · rw [stringMembers, List.map_cons, ← hpair]
        exact .cons hreads hlist

theorem loadFromData_braces_iff {json : JsonParser} (hjson : Rfc8259 json) {t : List Char}
    {v : JsonNode} :
    json.loadFromData (utf8 ('{' :: (t ++ ['}']))) = .ok (some v) ↔
      ∃ members, v = .object members ∧ (MemberList t members ∨ Ws t ∧ members = []) := by
  rw [hjson, ← jsonText_braces_iff]
  constructor
  · rintro ⟨t', heq, htext⟩
    rwa [utf8_injective heq]
  · exact fun htext => ⟨_, rfl, htext⟩

theorem objectText_utf8 {members : List (Bytes × Bytes)} {t : List Char}
    (h : membersText members = utf8 t) : objectText members = utf8 ('{' :: (t ++ ['}'])) := by
  have hopen : String.utf8EncodeChar '{' = [123] := by decide
  have hclose : utf8 ['}'] = [125] := by decide
  rw [objectText, h, utf8_cons, utf8_append, hopen, hclose, List.append_assoc]

theorem Rfc8259.readsPlain {json : JsonParser} (h : Rfc8259 json) : ReadsPlain json := by
  intro members hne hplain
  obtain ⟨t, htext, hlist⟩ := memberList_plain hne hplain
  rw [objectText_utf8 htext]
  exact (loadFromData_braces_iff h).mpr ⟨_, rfl, Or.inl hlist⟩

end JsonGlib
