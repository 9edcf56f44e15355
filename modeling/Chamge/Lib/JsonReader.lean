import Chamge.Lib.JsonGrammar

/-! A recursive descent parser that reads the texts of the grammar and no others. A reader
takes what it reads off the front of a text. -/

namespace JsonGlib
open CString

/-! ### Strings -/

/-- What follows `\u`. -/
def readUnicode (t : List Char) : Option (Char × List Char) :=
  match hex4 (t.take 4) with
  | none => none
  | some n =>
    if n.isValidChar then some (Char.ofNat n, t.drop 4)
    else
      match t.drop 4 with
      | '\\' :: 'u' :: r =>
        (hex4 (r.take 4)).bind fun lo => (surrogatePair n lo).map fun c => (c, r.drop 4)
      | _ => none

def readChar : List Char → Option (Char × List Char)
  | '\\' :: 'u' :: t => readUnicode t
  | '\\' :: e :: t => (escapeOf e).map fun c => (c, t)
  | c :: t => if unescaped c then some (c, t) else none
  | [] => none

/-- The rest of a string, its closing quotation mark included. -/
def readString : ℕ → List Char → Option (List Char × List Char)
  | 0, _ => none
  | n + 1, t =>
    match t with
    | '"' :: r => some ([], r)
    | _ => (readChar t).bind fun c => (readString n c.2).map fun s => (c.1 :: s.1, s.2)

theorem hex4_take {ds t : List Char} {n : ℕ} (h : hex4 ds = some n) :
    hex4 ((ds ++ t).take 4) = some n ∧ (ds ++ t).drop 4 = t := by
  have hlength := hex4_length h
  rw [List.take_left' hlength, List.drop_left' hlength]
  exact ⟨h, rfl⟩

theorem not_isValidChar_of_surrogatePair {hi lo : ℕ} {c : Char}
    (h : surrogatePair hi lo = some c) : ¬ hi.isValidChar := by
  unfold surrogatePair at h
  split_ifs at h with hrange
  unfold Nat.isValidChar
  omega

theorem readUnicode_sound {t r : List Char} {c : Char} (h : readUnicode t = some (c, r)) :
    ∃ u, CharText ('\\' :: 'u' :: u) c ∧ t = u ++ r := by
  unfold readUnicode at h
  split at h
  · cases h
  · rename_i n hn
    split_ifs at h with hvalid
    · obtain ⟨rfl, rfl⟩ := Prod.mk.inj (Option.some.inj h)
      exact ⟨_, .unicode hn hvalid, (List.take_append_drop 4 t).symm⟩
    · split at h
      · rename_i low hlow
        obtain ⟨lo, hlo, h⟩ := Option.bind_eq_some_iff.mp h
        obtain ⟨c, hc, h⟩ := Option.map_eq_some_iff.mp h
        obtain ⟨rfl, rfl⟩ := Prod.mk.inj h
        refine ⟨_, .pair hn hlo hc, ?_⟩
        calc t = t.take 4 ++ t.drop 4 := (List.take_append_drop 4 t).symm
          _ = t.take 4 ++ '\\' :: 'u' :: (low.take 4 ++ low.drop 4) := by
            rw [hlow, List.take_append_drop]
          _ = _ := by simp
      · cases h

theorem readChar_sound {t r : List Char} {c : Char} (h : readChar t = some (c, r)) :
    ∃ u, CharText u c ∧ t = u ++ r := by
  unfold readChar at h
  split at h
  · obtain ⟨u, hu, rfl⟩ := readUnicode_sound h
    exact ⟨_, hu, rfl⟩
  · obtain ⟨c, hc, h⟩ := Option.map_eq_some_iff.mp h
    obtain ⟨rfl, rfl⟩ := Prod.mk.inj h
    exact ⟨_, .escape hc, rfl⟩
  · split_ifs at h with hc
    obtain ⟨rfl, rfl⟩ := Prod.mk.inj (Option.some.inj h)
    exact ⟨_, .plain hc, rfl⟩
  · cases h

theorem readChar_unescaped {c : Char} (hc : unescaped c) (r : List Char) :
    readChar (c :: r) = some (c, r) := by
  have hslash : c ≠ '\\' := by
    rintro rfl
    exact absurd hc (by decide)
  unfold readChar
  split <;> simp_all

theorem readChar_escape {e c : Char} (hc : escapeOf e = some c) (r : List Char) :
    readChar ('\\' :: e :: r) = some (c, r) := by
  have hu : e ≠ 'u' := by
    rintro rfl
    cases hc
  rw [readChar, hc, Option.map_some]
  exact hu

theorem readChar_complete {u : List Char} {c : Char} (h : CharText u c) (r : List Char) :
    readChar (u ++ r) = some (c, r) := by
  cases h with
  | plain hc => exact readChar_unescaped hc r
  | escape hc => exact readChar_escape hc r
  | unicode hds hn =>
    obtain ⟨htake, hdrop⟩ := hex4_take (t := r) hds
    simp [readChar, readUnicode, htake, hdrop, hn]
  | @pair ds es hi lo c hds hes hc =>
    obtain ⟨htake, hdrop⟩ := hex4_take (t := '\\' :: 'u' :: (es ++ r)) hds
    obtain ⟨htake', hdrop'⟩ := hex4_take (t := r) hes
    simp [readChar, readUnicode, htake, hdrop, not_isValidChar_of_surrogatePair hc, htake', hdrop',
      hc]

theorem readString_sound {n : ℕ} {t s r : List Char} (h : readString n t = some (s, r)) :
    ∃ raw, StringText raw s ∧ t = raw ++ '"' :: r := by
  induction n generalizing t s with
  | zero => cases h
  | succ n ih =>
    simp only [readString] at h
    split at h
    · obtain ⟨rfl, rfl⟩ := Prod.mk.inj (Option.some.inj h)
      exact ⟨[], .nil, rfl⟩
    · obtain ⟨⟨c, rest⟩, hc, h⟩ := Option.bind_eq_some_iff.mp h
      obtain ⟨⟨s', r'⟩, hs, h⟩ := Option.map_eq_some_iff.mp h
      obtain ⟨rfl, rfl⟩ := Prod.mk.inj h
      obtain ⟨u, hu, rfl⟩ := readChar_sound hc
      obtain ⟨raw, hraw, rfl⟩ := ih hs
      exact ⟨u ++ raw, .cons hu hraw, by simp⟩

theorem readString_complete {n : ℕ} {raw s : List Char} (h : StringText raw s) (r : List Char)
    (hn : raw.length < n) : readString n (raw ++ '"' :: r) = some (s, r) := by
  induction h generalizing n with
  | nil =>
    obtain ⟨n, rfl⟩ := Nat.exists_eq_succ_of_ne_zero (Nat.ne_of_gt hn)
    rfl
  | @cons u raw s c hc hs ih =>
    obtain ⟨n, rfl⟩ := Nat.exists_eq_succ_of_ne_zero (Nat.ne_of_gt (Nat.zero_lt_of_lt hn))
    obtain ⟨d, v, rfl, hd⟩ := hc.head_ne_quote
    rw [List.length_append, List.length_cons] at hn
    have hchar := readChar_complete hc (raw ++ '"' :: r)
    have hrest := ih (n := n) (by omega)
    rw [List.append_assoc, List.cons_append] at *
    simp [readString, hd, hchar, hrest]

/-! ### Values -/

def skipWs (t : List Char) : List Char := t.dropWhile isWs

def numberChar (c : Char) : Bool := c.isDigit || c = '-' || c = '+' || c = '.' || c = 'e' || c = 'E'

def readNumber (t : List Char) : Option (JsonNode × List Char) :=
  let digits := t.takeWhile numberChar
  if isNumber digits then some (.number (utf8 digits), t.dropWhile numberChar) else none

def readLiteral (word : List Char) (v : JsonNode) (t : List Char) :
    Option (JsonNode × List Char) :=
  if word.isPrefixOf t then some (v, t.drop word.length) else none

/-- An element of an array, with the whitespace around it. -/
def readElement (value : List Char → Option (JsonNode × List Char)) (t : List Char) :
    Option (JsonNode × List Char) :=
  (value (skipWs t)).map fun v => (v.1, skipWs v.2)

def readMember (value : List Char → Option (JsonNode × List Char)) (t : List Char) :
    Option ((Bytes × JsonNode) × List Char) :=
  match skipWs t with
  | '"' :: r =>
    (readString (r.length + 1) r).bind fun key =>
      match skipWs key.2 with
      | ':' :: r => (readElement value r).map fun v => ((nodeText key.1, v.1), v.2)
      | _ => none
  | _ => none

section items
variable {α : Type} (item : List Char → Option (α × List Char)) (close : Char)

/-- At least one item, and the bracket that closes them. -/
def readItems : ℕ → List Char → Option (List α × List Char)
  | 0, _ => none
  | n + 1, t =>
    match item t with
    | none | some (_, []) => none
    | some (a, c :: r) =>
      if c = ',' then (readItems n r).map fun as => (a :: as.1, as.2)
      else if c = close then some ([a], r)
      else none

def readGroup (t : List Char) : Option (List α × List Char) :=
  match skipWs t with
  | [] => none
  | c :: r => if c = close then some ([], r) else readItems item close t.length t

end items

/-- The first argument bounds how deep values are nested. -/
def readValue : ℕ → List Char → Option (JsonNode × List Char)
  | 0, _ => none
  | _ + 1, [] => none
  | n + 1, c :: t =>
    if c = '"' then (readString (t.length + 1) t).map fun s => (.string (nodeText s.1), s.2)
    else if c = '[' then
      (readGroup (readElement (readValue n)) ']' t).map fun g => (.array g.1, g.2)
    else if c = '{' then
      (readGroup (readMember (readValue n)) '}' t).map fun g => (.object g.1, g.2)
    else if c = 'n' then readLiteral ['n', 'u', 'l', 'l'] .null (c :: t)
    else if c = 't' then readLiteral ['t', 'r', 'u', 'e'] (.boolean .true) (c :: t)
    else if c = 'f' then readLiteral ['f', 'a', 'l', 's', 'e'] (.boolean .false) (c :: t)
    else readNumber (c :: t)

def readText (t : List Char) : Option JsonNode :=
  match readElement (readValue (t.length + 1)) t with
  | some (v, []) => some v
  | _ => none

/-- It knows the JSON texts and no others. -/
def rfcParser : JsonParser where
  loadFromData body :=
    match (utf8Decode body).bind readText with
    | some v => .ok (some v)
    | none => .error []

/-! ### What is read is in the grammar -/

theorem skipWs_eq (t : List Char) : ∃ w, Ws w ∧ t = w ++ skipWs t :=
  ⟨t.takeWhile isWs, fun _ hc => List.mem_takeWhile_imp hc, List.takeWhile_append_dropWhile.symm⟩

theorem readNumber_sound {t r : List Char} {v : JsonNode} (h : readNumber t = some (v, r)) :
    ∃ u, ValueText u v ∧ t = u ++ r := by
  simp only [readNumber] at h
  split_ifs at h with hnumber
  obtain ⟨rfl, rfl⟩ := Prod.mk.inj (Option.some.inj h)
  exact ⟨_, .number hnumber, List.takeWhile_append_dropWhile.symm⟩

theorem readLiteral_sound {word t r : List Char} {v v' : JsonNode}
    (h : readLiteral word v t = some (v', r)) : v' = v ∧ t = word ++ r := by
  unfold readLiteral at h
  split_ifs at h with hprefix
  obtain ⟨rfl, rfl⟩ := Prod.mk.inj (Option.some.inj h)
  obtain ⟨r, rfl⟩ := List.isPrefixOf_iff_prefix.mp hprefix
  rw [List.drop_left]
  exact ⟨rfl, rfl⟩

theorem readElement_sound {value : List Char → Option (JsonNode × List Char)}
    (hvalue : ∀ t v r, value t = some (v, r) → ∃ u, ValueText u v ∧ t = u ++ r)
    {t r : List Char} {v : JsonNode} (h : readElement value t = some (v, r)) :
    ∃ e : Element, e.Reads ∧ t = e.whole ++ r ∧ v = e.node := by
  obtain ⟨⟨v, rest⟩, hv, h⟩ := Option.map_eq_some_iff.mp h
  obtain ⟨rfl, rfl⟩ := Prod.mk.inj h
  obtain ⟨u, hu, htext⟩ := hvalue _ _ _ hv
  obtain ⟨before, hbefore, ht⟩ := skipWs_eq t
  obtain ⟨after, hafter, hrest⟩ := skipWs_eq rest
  refine ⟨⟨before, u, after, v⟩, ⟨⟨hbefore, hafter⟩, hu⟩, ?_, rfl⟩
  rw [ht, htext, Element.whole, List.append_assoc, List.append_assoc, ← hrest]

theorem readMember_sound {value : List Char → Option (JsonNode × List Char)}
    (hvalue : ∀ t v r, value t = some (v, r) → ∃ u, ValueText u v ∧ t = u ++ r)
    {t r : List Char} {p : Bytes × JsonNode} (h : readMember value t = some (p, r)) :
    ∃ m : Member, m.Reads ∧ t = m.whole ++ r ∧ p = m.pair := by
  obtain ⟨before, hbefore, ht⟩ := skipWs_eq t
  unfold readMember at h
  split at h
  · rename_i r' hquote
    obtain ⟨⟨key, rest⟩, hkey, hafterKey⟩ := Option.bind_eq_some_iff.mp h
    obtain ⟨raw, hraw, rfl⟩ := readString_sound hkey
    obtain ⟨after, hafter, hrest⟩ := skipWs_eq rest
    split at hafterKey
    · rename_i r'' hcolon
      obtain ⟨⟨v, r⟩, hv, heq⟩ := Option.map_eq_some_iff.mp hafterKey
      obtain ⟨rfl, rfl⟩ := Prod.mk.inj heq
      obtain ⟨e, ⟨hspaced, he⟩, rfl, rfl⟩ := readElement_sound hvalue hv
      refine ⟨⟨before, raw, key, after, e⟩, ⟨⟨hbefore, hraw, hafter, hspaced⟩, he⟩, ?_, rfl⟩
      rw [ht, hquote, hrest, hcolon]
      simp [Member.whole, quoted]
    · cases hafterKey
  · cases h

section items
variable {α ε : Type} {item : List Char → Option (α × List Char)} {close : Char}
  {whole : ε → List Char} {value : ε → α} {Good : ε → Prop}

theorem readItems_sound
    (hitem : ∀ t a r, item t = some (a, r) → ∃ e, Good e ∧ t = whole e ++ r ∧ a = value e)
    {n : ℕ} {t r : List Char} {as : List α} (h : readItems item close n t = some (as, r)) :
    ∃ es, es ≠ [] ∧ (∀ e ∈ es, Good e) ∧ t = commas (es.map whole) ++ close :: r ∧
      as = es.map value := by
  induction n generalizing t as with
  | zero => cases h
  | succ n ih =>
    simp only [readItems] at h
    split at h
    · cases h
    · cases h
    · rename_i a c rest ha
      obtain ⟨e, he, rfl, rfl⟩ := hitem _ _ _ ha
      split_ifs at h with hcomma hclose
      · obtain ⟨⟨as, r⟩, has, h⟩ := Option.map_eq_some_iff.mp h
        obtain ⟨rfl, rfl⟩ := Prod.mk.inj h
        obtain ⟨es, hne, hall, rfl, rfl⟩ := ih has
        refine ⟨e :: es, List.cons_ne_nil _ _, List.forall_mem_cons.mpr ⟨he, hall⟩, ?_, rfl⟩
        rw [List.map_cons, commas_cons (by simpa using hne), hcomma, List.append_assoc,
          List.cons_append]
      · obtain ⟨rfl, rfl⟩ := Prod.mk.inj (Option.some.inj h)
        refine ⟨[e], List.cons_ne_nil _ _, List.forall_mem_singleton.mpr he, ?_, rfl⟩
        rw [List.map_singleton, commas_singleton, hclose]

theorem readGroup_sound
    (hitem : ∀ t a r, item t = some (a, r) → ∃ e, Good e ∧ t = whole e ++ r ∧ a = value e)
    {t r : List Char} {as : List α} (h : readGroup item close t = some (as, r)) :
    (∃ w, Ws w ∧ t = w ++ close :: r ∧ as = []) ∨
      ∃ es, es ≠ [] ∧ (∀ e ∈ es, Good e) ∧ t = commas (es.map whole) ++ close :: r ∧
        as = es.map value := by
  unfold readGroup at h
  split at h
  · cases h
  · rename_i c rest hskip
    split_ifs at h with hclose
    · obtain ⟨rfl, rfl⟩ := Prod.mk.inj (Option.some.inj h)
      obtain ⟨w, hw, ht⟩ := skipWs_eq t
      exact Or.inl ⟨w, hw, by rw [ht, hskip, hclose], rfl⟩
    · exact Or.inr (readItems_sound hitem h)

end items

theorem readValue_sound {n : ℕ} {t r : List Char} {v : JsonNode}
    (h : readValue n t = some (v, r)) : ∃ u, ValueText u v ∧ t = u ++ r := by
  induction n generalizing t v r with
  | zero => cases h
  | succ n ih =>
    have hvalue : ∀ t v r, readValue n t = some (v, r) → ∃ u, ValueText u v ∧ t = u ++ r :=
      fun t v r => ih
    cases t with
    | nil => cases h
    | cons c t =>
      simp only [readValue] at h
      split_ifs at h with hquote hbracket hbrace hnull htrue hfalse
      · obtain ⟨⟨s, r⟩, hs, h⟩ := Option.map_eq_some_iff.mp h
        obtain ⟨rfl, rfl⟩ := Prod.mk.inj h
        obtain ⟨raw, hraw, rfl⟩ := readString_sound hs
        exact ⟨quoted raw, .string hraw, by simp [quoted, hquote]⟩
      · obtain ⟨⟨vs, r⟩, hvs, h⟩ := Option.map_eq_some_iff.mp h
        obtain ⟨rfl, rfl⟩ := Prod.mk.inj h
        rcases readGroup_sound (fun t v r => readElement_sound hvalue) hvs with
          ⟨w, hw, rfl, rfl⟩ | ⟨es, hne, hall, rfl, rfl⟩
        · exact ⟨_, .noElements hw, by simp [hbracket]⟩
        · exact ⟨_, .array hne (fun e he => (hall e he).1) fun e he => (hall e he).2,
            by simp [hbracket]⟩
      · obtain ⟨⟨ms, r⟩, hms, h⟩ := Option.map_eq_some_iff.mp h
        obtain ⟨rfl, rfl⟩ := Prod.mk.inj h
        rcases readGroup_sound (fun t p r => readMember_sound hvalue) hms with
          ⟨w, hw, rfl, rfl⟩ | ⟨ms, hne, hall, rfl, rfl⟩
        · exact ⟨_, .noMembers hw, by simp [hbrace]⟩
        · exact ⟨_, .object hne (fun m hm => (hall m hm).1) fun m hm => (hall m hm).2,
            by simp [hbrace]⟩
      · obtain ⟨rfl, htext⟩ := readLiteral_sound h
        exact ⟨_, .nullWord, htext⟩
      · obtain ⟨rfl, htext⟩ := readLiteral_sound h
        exact ⟨_, .trueWord, htext⟩
      · obtain ⟨rfl, htext⟩ := readLiteral_sound h
        exact ⟨_, .falseWord, htext⟩
      · exact readNumber_sound h

/-! ### All of the grammar is read -/

/-- No number goes on here. -/
def Stops (t : List Char) : Prop := ∀ c r, t = c :: r → numberChar c = false

theorem stops_cons {c : Char} (hc : numberChar c = false) (r : List Char) : Stops (c :: r) := by
  rintro d r' heq
  obtain ⟨rfl, -⟩ := List.cons.inj heq
  exact hc

theorem numberChar_of_isWs {c : Char} (h : isWs c) : numberChar c = false := by
  simp only [isWs, Bool.or_eq_true, decide_eq_true_eq] at h
  rcases h with ((rfl | rfl) | rfl) | rfl <;> decide

theorem Stops.ws_append {w r : List Char} (hr : Stops r) (hw : Ws w) : Stops (w ++ r) := by
  cases w with
  | nil => exact hr
  | cons c w => exact stops_cons (numberChar_of_isWs (hw c (List.mem_cons_self ..))) _

theorem skipWs_append {w r : List Char} {c : Char} (hw : Ws w) (hc : isWs c = false) :
    skipWs (w ++ c :: r) = c :: r := by
  rw [skipWs, List.dropWhile_append_of_pos hw, List.dropWhile_cons_of_neg (by simp [hc])]

theorem numberStep_numberChar {q q' : NumberState} {c : Char} (h : numberStep q c = some q') :
    numberChar c = true := by
  have hdigit : isNonzeroDigit c = true → c.isDigit = true :=
    fun hc => (Bool.and_eq_true_iff.mp hc).1
  have hzero : c = '0' → c.isDigit = true := by
    rintro rfl
    decide
  unfold numberStep at h
  simp only [numberChar, Bool.or_eq_true, decide_eq_true_eq]
  split at h <;> split_ifs at h <;> grind

theorem numberChar_of_foldlM {t : List Char} {q q' : NumberState}
    (h : t.foldlM numberStep q = some q') : ∀ c ∈ t, numberChar c := by
  induction t generalizing q with
  | nil => nofun
  | cons c t ih =>
    rw [List.foldlM_cons] at h
    obtain ⟨q₁, hq, h⟩ := Option.bind_eq_some_iff.mp h
    exact List.forall_mem_cons.mpr ⟨numberStep_numberChar hq, ih h⟩

theorem numberChar_of_isNumber {t : List Char} (h : isNumber t) : ∀ c ∈ t, numberChar c := by
  obtain ⟨q, hq, -⟩ := (Option.any_eq_true ..).mp h
  exact numberChar_of_foldlM hq

theorem readNumber_complete {t r : List Char} (ht : isNumber t) (hr : Stops r) :
    readNumber (t ++ r) = some (.number (utf8 t), r) := by
  have htake : (t ++ r).takeWhile numberChar = t ∧ (t ++ r).dropWhile numberChar = r := by
    have hall := numberChar_of_isNumber ht
    rw [List.takeWhile_append_of_pos hall, List.dropWhile_append_of_pos hall]
    cases r with
    | nil => simp
    | cons c r => simp [hr c r rfl]
  simp only [readNumber, htake.1, htake.2, ht, if_true]

theorem ValueText.head {u : List Char} {v : JsonNode} (h : ValueText u v) :
    ∃ c t, u = c :: t ∧ isWs c = false ∧ c ≠ ']' := by
  cases h with
  | number ht =>
    cases u with
    | nil => exact absurd ht (by decide)
    | cons c t =>
      have hc := numberChar_of_isNumber ht c (List.mem_cons_self ..)
      refine ⟨c, t, rfl, ?_, ?_⟩
      · by_contra hws
        rw [numberChar_of_isWs (by simpa using hws)] at hc
        cases hc
      · rintro rfl
        exact absurd hc (by decide)
  | nullWord | trueWord | falseWord | string | noElements | array | noMembers | object =>
    exact ⟨_, _, rfl, by decide, by decide⟩

theorem skipWs_whole {e : Element} (h : e.Reads) (r : List Char) :
    skipWs (e.whole ++ r) = e.text ++ (e.after ++ r) := by
  obtain ⟨c, t, ht, hws, -⟩ := h.2.head
  rw [Element.whole, List.append_assoc, List.append_assoc, ht, List.cons_append,
    skipWs_append h.1.1 hws]

theorem skipWs_member {m : Member} (h : m.Spaced) (r : List Char) :
    skipWs (m.whole ++ r) =
      '"' :: (m.raw ++ '"' :: (m.after ++ ':' :: (m.value.whole ++ r))) := by
  have hwhole : m.whole ++ r = m.before ++ '"' :: (m.raw ++ '"' :: (m.after ++ ':' ::
      (m.value.whole ++ r))) := by
    simp [Member.whole, quoted]
  rw [hwhole, skipWs_append h.1 (by decide)]

theorem readElement_complete {value : List Char → Option (JsonNode × List Char)} {e : Element}
    (he : e.Reads) (hvalue : ∀ r, Stops r → value (e.text ++ r) = some (e.node, r)) {c : Char}
    (hc : numberChar c = false) (hws : isWs c = false) (r : List Char) :
    readElement value (e.whole ++ c :: r) = some (e.node, c :: r) := by
  have hstops : Stops (e.after ++ c :: r) := (stops_cons hc r).ws_append he.1.2
  rw [readElement, skipWs_whole he, hvalue _ hstops, Option.map_some, skipWs_append he.1.2 hws]

theorem readMember_complete {value : List Char → Option (JsonNode × List Char)} {m : Member}
    (hm : m.Reads) (hvalue : ∀ r, Stops r → value (m.value.text ++ r) = some (m.value.node, r))
    {c : Char} (hc : numberChar c = false) (hws : isWs c = false) (r : List Char) :
    readMember value (m.whole ++ c :: r) = some (m.pair, c :: r) := by
  have hskip := skipWs_member hm.1 (c :: r)
  obtain ⟨⟨-, hkey, hafter, hspaced⟩, htext⟩ := hm
  have hstring := readString_complete hkey (m.after ++ ':' :: (m.value.whole ++ c :: r))
    (n := (m.raw ++ '"' :: (m.after ++ ':' :: (m.value.whole ++ c :: r))).length + 1)
    (by rw [List.length_append]; omega)
  have helement := readElement_complete ⟨hspaced, htext⟩ hvalue hc hws r
  have hcolon := skipWs_append hafter (show isWs ':' = false by decide)
    (r := m.value.whole ++ c :: r)
  simp only [readMember, hskip, hstring, Option.bind_some, hcolon, helement, Option.map_some,
    Member.pair]

section items
variable {α ε : Type} {item : List Char → Option (α × List Char)} {close : Char}
  {whole : ε → List Char} {value : ε → α} {es : List ε}

theorem readItems_complete (hclose : close ≠ ',') (hne : es ≠ [])
    (hitem : ∀ e ∈ es, ∀ c r, c = ',' ∨ c = close →
      item (whole e ++ c :: r) = some (value e, c :: r))
    {n : ℕ} (hn : (commas (es.map whole)).length < n) (r : List Char) :
    readItems item close n (commas (es.map whole) ++ close :: r) = some (es.map value, r) := by
  induction es generalizing n with
  | nil => exact absurd rfl hne
  | cons e es ih =>
    obtain ⟨he, hes⟩ := List.forall_mem_cons.mp hitem
    obtain ⟨n, rfl⟩ := Nat.exists_eq_succ_of_ne_zero (Nat.ne_of_gt (Nat.zero_lt_of_lt hn))
    by_cases hnil : es = []
    · subst hnil
      rw [List.map_singleton, commas_singleton]
      simp [readItems, he close r (Or.inr rfl), hclose]
    · have hcommas : commas ((e :: es).map whole) = whole e ++ ',' :: commas (es.map whole) := by
        rw [List.map_cons, commas_cons (by simpa using hnil)]
      rw [hcommas, List.length_append, List.length_cons] at hn
      have hrest := ih hnil hes (n := n) (by omega)
      rw [hcommas, List.append_assoc, List.cons_append]
      simp [readItems, he ',' _ (Or.inl rfl), hrest]

theorem readGroup_complete (hclose : close ≠ ',') (hne : es ≠ [])
    (hitem : ∀ e ∈ es, ∀ c r, c = ',' ∨ c = close →
      item (whole e ++ c :: r) = some (value e, c :: r))
    (hhead : ∀ e ∈ es, ∀ r, ∃ c r', skipWs (whole e ++ r) = c :: r' ∧ c ≠ close)
    (r : List Char) :
    readGroup item close (commas (es.map whole) ++ close :: r) = some (es.map value, r) := by
  have hskip : ∃ c r', skipWs (commas (es.map whole) ++ close :: r) = c :: r' ∧ c ≠ close := by
    obtain ⟨e, es, rfl⟩ := List.exists_cons_of_ne_nil hne
    have he := hhead e (List.mem_cons_self ..)
    by_cases hnil : es = []
    · subst hnil
      rw [List.map_singleton, commas_singleton]
      exact he _
    · rw [List.map_cons, commas_cons (by simpa using hnil), List.append_assoc]
      exact he _
  obtain ⟨c, r', hskip, hc⟩ := hskip
  simp only [readGroup, hskip, if_neg hc]
  exact readItems_complete hclose hne hitem (by simp) r

theorem readGroup_nil {w : List Char} (hw : Ws w) (hclose : isWs close = false) (r : List Char) :
    readGroup item close (w ++ close :: r) = some ([], r) := by
  simp only [readGroup, skipWs_append hw hclose, if_true]

end items

theorem length_le_commas {t : List Char} {ts : List (List Char)} (h : t ∈ ts) :
    t.length ≤ (commas ts).length := by
  induction ts with
  | nil => cases h
  | cons u us ih =>
    by_cases hnil : us = []
    · subst hnil
      rw [commas_singleton, List.mem_singleton.mp h]
    · rw [commas_cons hnil, List.length_append, List.length_cons]
      rcases List.mem_cons.mp h with rfl | h
      · omega
      · have := ih h
        omega

/-- An item ends at a comma or a closing bracket. -/
theorem ends_item {c close : Char} (hc : c = ',' ∨ c = close) (hclose : close = ']' ∨ close = '}') :
    numberChar c = false ∧ isWs c = false := by
  rcases hc with rfl | rfl
  · decide
  · rcases hclose with rfl | rfl <;> decide

theorem readValue_number {u : List Char} (hu : isNumber u) (n : ℕ) {r : List Char}
    (hr : Stops r) : readValue (n + 1) (u ++ r) = some (.number (utf8 u), r) := by
  rw [← readNumber_complete hu hr]
  cases u with
  | nil => exact absurd hu (by decide)
  | cons c t =>
    have hne (d : Char) (hd : numberChar d = false) : c ≠ d := by
      rintro rfl
      rw [numberChar_of_isNumber hu c (List.mem_cons_self ..)] at hd
      cases hd
    rw [List.cons_append, readValue, if_neg (hne '"' (by decide)), if_neg (hne '[' (by decide)),
      if_neg (hne '{' (by decide)), if_neg (hne 'n' (by decide)), if_neg (hne 't' (by decide)),
      if_neg (hne 'f' (by decide))]

theorem exists_succ_of_text {u : List Char} {v : JsonNode} (h : ValueText u v) {n : ℕ}
    (hn : u.length ≤ n) : ∃ m, n = m + 1 := by
  have hpos := List.length_pos_iff.mpr h.ne_nil
  exact ⟨n - 1, by omega⟩

theorem readValue_complete {u : List Char} {v : JsonNode} (h : ValueText u v) {n : ℕ}
    (hn : u.length ≤ n) {r : List Char} (hr : Stops r) :
    readValue n (u ++ r) = some (v, r) := by
  obtain ⟨n, rfl⟩ := exists_succ_of_text h hn
  induction h generalizing n r with
  | nullWord | trueWord | falseWord => rfl
  | number ht => exact readValue_number ht n hr
  | @string raw s hs =>
    have hstring := readString_complete hs r (n := (raw ++ '"' :: r).length + 1)
      (by rw [List.length_append]; omega)
    have hquoted : quoted raw ++ r = '"' :: (raw ++ '"' :: r) := by simp [quoted]
    rw [hquoted, readValue, if_pos rfl, hstring, Option.map_some]
  | noElements hw => simp [readValue, readGroup_nil hw (show isWs ']' = false by decide)]
  | @array es hne hspaced hvalue ih =>
    have hread : ∀ e ∈ es, ∀ r, Stops r → readValue n (e.text ++ r) = some (e.node, r) := by
      intro e he r hr
      have hwhole := length_le_commas (List.mem_map_of_mem (f := Element.whole) he)
      have hlength : e.text.length ≤ n := by
        simp only [Element.whole, List.length_append, List.length_cons] at hwhole hn
        omega
      obtain ⟨m, rfl⟩ := exists_succ_of_text (hvalue e he) hlength
      exact ih e he hr m hlength
    have hgroup : readGroup (readElement (readValue n)) ']'
        (commas (es.map Element.whole) ++ ']' :: r) = some (es.map Element.node, r) := by
      refine readGroup_complete (by decide) hne (fun e he c r hc => ?_) (fun e he r => ?_) r
      · obtain ⟨hnumber, hws⟩ := ends_item hc (Or.inl rfl)
        exact readElement_complete ⟨hspaced e he, hvalue e he⟩ (hread e he) hnumber hws r
      · obtain ⟨c, t, ht, -, hc⟩ := (hvalue e he).head
        rw [skipWs_whole ⟨hspaced e he, hvalue e he⟩, ht]
        exact ⟨c, _, rfl, hc⟩
    simp [readValue, hgroup]
  | noMembers hw => simp [readValue, readGroup_nil hw (show isWs '}' = false by decide)]
  | @object ms hne hspaced hvalue ih =>
    have hread : ∀ m ∈ ms, ∀ r, Stops r →
        readValue n (m.value.text ++ r) = some (m.value.node, r) := by
      intro m hm r hr
      have hwhole := length_le_commas (List.mem_map_of_mem (f := Member.whole) hm)
      have hlength : m.value.text.length ≤ n := by
        simp only [Member.whole, Element.whole, List.length_append, List.length_cons]
          at hwhole hn
        omega
      obtain ⟨k, rfl⟩ := exists_succ_of_text (hvalue m hm) hlength
      exact ih m hm hr k hlength
    have hgroup : readGroup (readMember (readValue n)) '}'
        (commas (ms.map Member.whole) ++ '}' :: r) = some (ms.map Member.pair, r) := by
      refine readGroup_complete (by decide) hne (fun m hm c r hc => ?_) (fun m hm r => ?_) r
      · obtain ⟨hnumber, hws⟩ := ends_item hc (Or.inr rfl)
        exact readMember_complete ⟨hspaced m hm, hvalue m hm⟩ (hread m hm) hnumber hws r
      · exact ⟨'"', _, skipWs_member (hspaced m hm) r, by decide⟩
    simp [readValue, hgroup]

theorem readText_eq_some_iff {t : List Char} {v : JsonNode} :
    readText t = some v ↔ JsonText t v := by
  unfold readText
  constructor
  · intro h
    split at h
    · rename_i v' hread
      obtain rfl := Option.some.inj h
      obtain ⟨e, he, htext, hnode⟩ := readElement_sound (fun t v r => readValue_sound) hread
      exact ⟨e, he, by simpa using htext, hnode⟩
    · cases h
  · rintro ⟨e, he, rfl, rfl⟩
    have hskip := skipWs_whole he []
    have hstops : Stops (e.after ++ []) := Stops.ws_append nofun he.1.2
    have hlength : e.text.length ≤ e.whole.length + 1 := by
      simp only [Element.whole, List.length_append]
      omega
    have hafter : skipWs e.after = [] := List.dropWhile_eq_nil_iff.mpr he.1.2
    rw [List.append_nil, List.append_nil] at hskip
    rw [List.append_nil] at hstops
    rw [readElement, hskip, readValue_complete he.2 hlength hstops, Option.map_some, hafter]

theorem rfcParser_rfc8259 : Rfc8259 rfcParser := by
  intro body v
  simp only [rfcParser]
  constructor
  · intro h
    split at h
    · rename_i v' hbody
      obtain ⟨t, ht, hread⟩ := Option.bind_eq_some_iff.mp hbody
      cases h
      exact ⟨t, utf8Decode_eq_some_iff.mp ht, readText_eq_some_iff.mp hread⟩
    · cases h
  · rintro ⟨t, rfl, htext⟩
    rw [utf8Decode_eq_some_iff.mpr rfl, Option.bind_some, readText_eq_some_iff.mpr htext]

end JsonGlib
