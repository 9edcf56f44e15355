import Chamge.Lib.JsonText
import Chamge.Lib.Utf8

/-! The JSON texts of RFC 8259, over characters, and the tree that each of them stands for.
A string of the tree is a C string. -/

namespace JsonGlib
open CString

/-! ### Strings -/

/-- The characters that stand for themselves in a string. -/
def unescaped (c : Char) : Bool := decide (32 ≤ c.toNat) && decide (c ≠ '"') && decide (c ≠ '\\')

/-- What a backslash makes of the character after it. -/
def escapeOf : Char → Option Char
  | '"' => some '"'
  | '\\' => some '\\'
  | '/' => some '/'
  | 'b' => some '\x08'
  | 'f' => some '\x0c'
  | 'n' => some '\n'
  | 'r' => some '\r'
  | 't' => some '\t'
  | _ => none

def hexValue (c : Char) : Option ℕ :=
  if '0' ≤ c ∧ c ≤ '9' then some (c.toNat - 48)
  else if 'a' ≤ c ∧ c ≤ 'f' then some (c.toNat - 87)
  else if 'A' ≤ c ∧ c ≤ 'F' then some (c.toNat - 55)
  else none

def hex4 (ds : List Char) : Option ℕ :=
  if ds.length = 4 then ds.foldlM (fun n d => (hexValue d).map (16 * n + ·)) 0 else none

/-- The character of a UTF-16 surrogate pair. -/
def surrogatePair (hi lo : ℕ) : Option Char :=
  if 0xD800 ≤ hi ∧ hi < 0xDC00 ∧ 0xDC00 ≤ lo ∧ lo < 0xE000 then
    some (Char.ofNat (0x10000 + (hi - 0xD800) * 0x400 + (lo - 0xDC00)))
  else none

/-- A surrogate alone stands for no character. -/
inductive CharText : List Char → Char → Prop
  | plain {c : Char} (hc : unescaped c) : CharText [c] c
  | escape {e c : Char} (hc : escapeOf e = some c) : CharText ['\\', e] c
  | unicode {ds : List Char} {n : ℕ} (hds : hex4 ds = some n) (hn : n.isValidChar) :
    CharText ('\\' :: 'u' :: ds) (Char.ofNat n)
  | pair {ds es : List Char} {hi lo : ℕ} {c : Char} (hds : hex4 ds = some hi)
    (hes : hex4 es = some lo) (hc : surrogatePair hi lo = some c) :
    CharText ('\\' :: 'u' :: ds ++ '\\' :: 'u' :: es) c

/-- What stands between the quotation marks, and the characters it stands for. -/
inductive StringText : List Char → List Char → Prop
  | nil : StringText [] []
  | cons {u raw s : List Char} {c : Char} (hc : CharText u c) (hs : StringText raw s) :
    StringText (u ++ raw) (c :: s)

def quoted (raw : List Char) : List Char := '"' :: (raw ++ ['"'])

/-! ### Numbers -/

inductive NumberState
  | start
  | minus
  | zero
  | int
  | point
  | frac
  | e
  | sign
  | exp
  deriving DecidableEq

def isNonzeroDigit (c : Char) : Bool := c.isDigit && decide (c ≠ '0')

/-- `[ minus ] int [ frac ] [ exp ]` as an automaton. -/
def numberStep : NumberState → Char → Option NumberState
  | .start, c =>
    if c = '-' then some .minus else if c = '0' then some .zero
    else if isNonzeroDigit c then some .int else none
  | .minus, c => if c = '0' then some .zero else if isNonzeroDigit c then some .int else none
  | .zero, c => if c = '.' then some .point else if c = 'e' ∨ c = 'E' then some .e else none
  | .int, c =>
    if c.isDigit then some .int else if c = '.' then some .point
    else if c = 'e' ∨ c = 'E' then some .e else none
  | .point, c => if c.isDigit then some .frac else none
  | .frac, c => if c.isDigit then some .frac else if c = 'e' ∨ c = 'E' then some .e else none
  | .e, c => if c = '+' ∨ c = '-' then some .sign else if c.isDigit then some .exp else none
  | .sign, c | .exp, c => if c.isDigit then some .exp else none

def NumberState.accepts (q : NumberState) : Bool := q = .zero || q = .int || q = .frac || q = .exp

def isNumber (t : List Char) : Bool := (t.foldlM numberStep .start).any NumberState.accepts

/-! ### Values -/

def isWs (c : Char) : Bool := c = ' ' || c = '\t' || c = '\n' || c = '\r'

def Ws (w : List Char) : Prop := ∀ c ∈ w, isWs c

/-- A value with the whitespace around it. -/
structure Element where
  before : List Char
  text : List Char
  after : List Char
  node : JsonNode

def Element.whole (e : Element) : List Char := e.before ++ e.text ++ e.after

def Element.Spaced (e : Element) : Prop := Ws e.before ∧ Ws e.after

structure Member where
  before : List Char
  raw : List Char
  key : List Char
  after : List Char
  value : Element

def Member.whole (m : Member) : List Char :=
  m.before ++ quoted m.raw ++ m.after ++ ':' :: m.value.whole

def Member.Spaced (m : Member) : Prop :=
  Ws m.before ∧ StringText m.raw m.key ∧ Ws m.after ∧ m.value.Spaced

/-- The C string of these characters. -/
def nodeText (s : List Char) : Bytes := text (utf8 s)

def Member.pair (m : Member) : Bytes × JsonNode := (nodeText m.key, m.value.node)

def commas (ts : List (List Char)) : List Char := [','].intercalate ts

inductive ValueText : List Char → JsonNode → Prop
  | nullWord : ValueText ['n', 'u', 'l', 'l'] .null
  | trueWord : ValueText ['t', 'r', 'u', 'e'] (.boolean .true)
  | falseWord : ValueText ['f', 'a', 'l', 's', 'e'] (.boolean .false)
  | number {t : List Char} (ht : isNumber t) : ValueText t (.number (utf8 t))
  | string {raw s : List Char} (hs : StringText raw s) :
    ValueText (quoted raw) (.string (nodeText s))
  | noElements {w : List Char} (hw : Ws w) : ValueText ('[' :: (w ++ [']'])) (.array [])
  | array {es : List Element} (hne : es ≠ []) (hspaced : ∀ e ∈ es, e.Spaced)
    (hvalue : ∀ e ∈ es, ValueText e.text e.node) :
    ValueText ('[' :: (commas (es.map Element.whole) ++ [']'])) (.array (es.map Element.node))
  | noMembers {w : List Char} (hw : Ws w) : ValueText ('{' :: (w ++ ['}'])) (.object [])
  | object {ms : List Member} (hne : ms ≠ []) (hspaced : ∀ m ∈ ms, m.Spaced)
    (hvalue : ∀ m ∈ ms, ValueText m.value.text m.value.node) :
    ValueText ('{' :: (commas (ms.map Member.whole) ++ ['}'])) (.object (ms.map Member.pair))

def Element.Reads (e : Element) : Prop := e.Spaced ∧ ValueText e.text e.node

def JsonText (t : List Char) (v : JsonNode) : Prop :=
  ∃ e : Element, e.Reads ∧ t = e.whole ∧ v = e.node

/-- The parser knows the JSON texts, in UTF-8, and no others. -/
def Rfc8259 (json : JsonParser) : Prop :=
  ∀ body v, json.loadFromData body = .ok (some v) ↔ ∃ t, body = utf8 t ∧ JsonText t v

def Member.Reads (m : Member) : Prop := m.Spaced ∧ ValueText m.value.text m.value.node

/-- The members between the braces of an object that is not empty. -/
inductive MemberList : List Char → JsonObject → Prop
  | last {m : Member} (hm : m.Reads) : MemberList m.whole [m.pair]
  | cons {m : Member} {t : List Char} {members : JsonObject} (hm : m.Reads)
    (hs : MemberList t members) : MemberList (m.whole ++ ',' :: t) (m.pair :: members)

theorem commas_cons {t : List Char} {ts : List (List Char)} (h : ts ≠ []) :
    commas (t :: ts) = t ++ ',' :: commas ts := by
  obtain ⟨u, us, rfl⟩ := List.exists_cons_of_ne_nil h
  simp [commas, List.intercalate_cons_cons]

theorem commas_singleton (t : List Char) : commas [t] = t := by simp [commas]

theorem ValueText.ne_nil {u : List Char} {v : JsonNode} (h : ValueText u v) : u ≠ [] := by
  cases h with
  | number ht =>
    rintro rfl
    exact absurd ht (by decide)
  | nullWord | trueWord | falseWord | string | noElements | array | noMembers | object =>
    exact List.cons_ne_nil _ _

/-! ### Lengths -/

theorem hex4_length {ds : List Char} {n : ℕ} (h : hex4 ds = some n) : ds.length = 4 := by
  unfold hex4 at h
  split_ifs at h with hlength
  exact hlength

theorem CharText.length_pos {u : List Char} {c : Char} (h : CharText u c) : 0 < u.length := by
  cases h <;> simp

theorem CharText.head_ne_quote {u : List Char} {c : Char} (h : CharText u c) :
    ∃ d v, u = d :: v ∧ d ≠ '"' := by
  cases h with
  | plain hc =>
    refine ⟨_, _, rfl, ?_⟩
    rintro rfl
    exact absurd hc (by decide)
  | escape | unicode | pair => exact ⟨_, _, rfl, by decide⟩

/-- Only a character that stands for itself is as short as what it stands for. -/
theorem CharText.eq_of_length {u : List Char} {c : Char} (h : CharText u c) (hu : u.length ≤ 1) :
    u = [c] ∧ unescaped c := by
  cases h with
  | plain hc => exact ⟨rfl, hc⟩
  | escape | unicode | pair => simp at hu

theorem StringText.length_le {raw s : List Char} (h : StringText raw s) :
    s.length ≤ raw.length := by
  induction h with
  | nil => exact le_rfl
  | cons hc _ ih =>
    have hpos := hc.length_pos
    simp only [List.length_cons, List.length_append]
    omega

theorem StringText.eq_of_length {raw s : List Char} (h : StringText raw s)
    (hlength : raw.length ≤ s.length) : raw = s ∧ ∀ c ∈ s, unescaped c := by
  induction h with
  | nil => exact ⟨rfl, nofun⟩
  | @cons u raw s c hc hs ih =>
    have hpos := hc.length_pos
    have hle := hs.length_le
    simp only [List.length_cons, List.length_append] at hlength
    obtain ⟨rfl, hplain⟩ := hc.eq_of_length (by omega)
    obtain ⟨rfl, hrest⟩ := ih (by omega)
    exact ⟨rfl, List.forall_mem_cons.mpr ⟨hplain, hrest⟩⟩

/-! ### Characters that stand for themselves -/

theorem CharText.of_unescaped {c d : Char} {u r t : List Char} (h : CharText u d)
    (hc : unescaped c) (heq : u ++ r = c :: t) : u = [c] ∧ d = c := by
  have hslash : c ≠ '\\' := by
    rintro rfl
    exact absurd hc (by decide)
  cases h with
  | plain =>
    obtain ⟨rfl, -⟩ := List.cons.inj heq
    exact ⟨rfl, rfl⟩
  | escape | unicode | pair => exact absurd (List.cons.inj heq).1.symm hslash

theorem stringText_append {p raw s : List Char} (hp : ∀ c ∈ p, unescaped c)
    (h : StringText raw s) : StringText (p ++ raw) (p ++ s) := by
  induction p with
  | nil => exact h
  | cons c p ih =>
    obtain ⟨hc, hp⟩ := List.forall_mem_cons.mp hp
    exact StringText.cons (u := [c]) (.plain hc) (ih hp)

theorem stringText_self {s : List Char} (h : ∀ c ∈ s, unescaped c) : StringText s s := by
  simpa using stringText_append h .nil

/-! ### C strings -/

theorem text_utf8 (s : List Char) : text (utf8 s) = utf8 (s.takeWhile (· ≠ '\x00')) := by
  induction s with
  | nil => rfl
  | cons c s ih =>
    rw [text] at ih ⊢
    by_cases hc : c = '\x00'
    · subst hc
      rfl
    · have hbytes : ∀ b ∈ String.utf8EncodeChar c, b ≠ 0 := by
        rintro b hb rfl
        have hmem : (0 : UInt8) ∈ utf8 [c] :=
          List.mem_flatMap.mpr ⟨c, List.mem_singleton_self c, hb⟩
        exact hc (List.mem_singleton.mp ((mem_utf8_iff (by decide)).mp hmem)).symm
      rw [utf8_cons, List.takeWhile_append_of_pos fun b hb => decide_eq_true (hbytes b hb), ih,
        ← utf8_cons]
      simp only [List.takeWhile_cons, ne_eq, hc, not_false_eq_true, decide_true, if_true]

theorem nodeText_eq_utf8_iff {s t : List Char} :
    nodeText s = utf8 t ↔ s.takeWhile (· ≠ '\x00') = t := by
  rw [nodeText, text_utf8, utf8_injective.eq_iff]

theorem nodeText_cons_ne {c d : Char} {s t : List Char} (hc : c ≠ '\x00') (hcd : c ≠ d) :
    nodeText (c :: s) ≠ utf8 (d :: t) := by
  intro h
  have hhead := nodeText_eq_utf8_iff.mp h
  simp only [List.takeWhile_cons, ne_eq, hc, not_false_eq_true, decide_true, if_true] at hhead
  exact hcd (List.cons.inj hhead).1

theorem nodeText_of_unescaped {s : List Char} (h : ∀ c ∈ s, unescaped c) :
    nodeText s = utf8 s := by
  refine nodeText_eq_utf8_iff.mpr (List.takeWhile_eq_self_iff.mpr fun c hc => ?_)
  have hzero : c ≠ '\x00' := by
    rintro rfl
    exact absurd (h _ hc) (by decide)
  exact decide_eq_true hzero

theorem unescaped_iff {c : Char} :
    unescaped c = true ↔ 32 ≤ c.toNat ∧ c.toNat ≠ 34 ∧ c.toNat ≠ 92 := by
  have hquote : c ≠ '"' ↔ c.toNat ≠ 34 := not_congr (Char.toNat_inj (d := '"')).symm
  have hslash : c ≠ '\\' ↔ c.toNat ≠ 92 := not_congr (Char.toNat_inj (d := '\\')).symm
  simp only [unescaped, Bool.and_eq_true, decide_eq_true_eq, hquote, hslash, and_assoc]

theorem plainByte_iff {b : UInt8} :
    32 ≤ b ∧ b ≠ 34 ∧ b ≠ 92 ↔ 32 ≤ b.toNat ∧ b.toNat ≠ 34 ∧ b.toNat ≠ 92 := by
  have hquote : b ≠ 34 ↔ b.toNat ≠ 34 := not_congr UInt8.toNat_inj.symm
  have hslash : b ≠ 92 ↔ b.toNat ≠ 92 := not_congr UInt8.toNat_inj.symm
  rw [UInt8.le_iff_toNat_le, hquote, hslash]
  rfl

/-- The plain strings are those whose characters stand for themselves. -/
theorem plain_utf8_iff {s : List Char} : Plain (utf8 s) ↔ ∀ c ∈ s, unescaped c := by
  constructor
  · intro h c hc
    by_cases hascii : c.toNat < 128
    · have hmem : UInt8.ofNat c.toNat ∈ utf8 s := by
        refine List.mem_flatMap.mpr ⟨c, hc, ?_⟩
        rw [utf8EncodeChar_ascii hascii]
        exact List.mem_singleton_self _
      have hnat : (UInt8.ofNat c.toNat).toNat = c.toNat := by
        rw [UInt8.toNat_ofNat']
        omega
      have hbyte := plainByte_iff.mp (h.2 _ hmem)
      rw [hnat] at hbyte
      exact unescaped_iff.mpr hbyte
    · exact unescaped_iff.mpr (by omega)
  · refine fun h => ⟨⟨_, utf8_eq_cstr s⟩, fun b hb => plainByte_iff.mpr ?_⟩
    by_cases hascii : b.toNat < 128
    · have hchar := unescaped_iff.mp (h _ ((mem_utf8_iff hascii).mp hb))
      rwa [toNat_ofNat_toNat] at hchar
    · omega

end JsonGlib
