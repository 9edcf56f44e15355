import Chamge.Lib.JsonMembers

/-! A text that is pasted into a string of an object as it is. It is read as a part of that
string, or it ends the string and goes on with members of its own. -/

namespace JsonGlib
open CString

/-- The text ends the string, which goes up to there as `s`, and with `after` and a closing
quotation mark behind it the rest of it is read as these members. -/
def BreaksOut (pasted after s : List Char) (members : JsonObject) : Prop :=
  ∃ c w y, pasted = c ++ '"' :: (w ++ ',' :: y) ∧ StringText c s ∧ Ws w ∧
    MemberList (y ++ (after ++ ['"'])) members

/-- What stands behind a pasted text: a closing parenthesis to begin with, and no quotation
mark. -/
def Parenthesis (after : List Char) : Prop := (∃ t, after = ')' :: t) ∧ '"' ∉ after

/-- A quotation mark that has more than the closing one behind it stands in the pasted text. -/
theorem quote_in_pasted {c r pasted after : List Char} (hafter : Parenthesis after) (hr : r ≠ [])
    (h : pasted ++ (after ++ ['"']) = c ++ '"' :: r) :
    ∃ t, pasted = c ++ '"' :: t ∧ r = t ++ (after ++ ['"']) := by
  obtain ⟨⟨t, rfl⟩, hquote⟩ := hafter
  rcases List.append_eq_append_iff.mp h with ⟨as, rfl, has⟩ | ⟨bs, rfl, hbs⟩
  · rcases List.append_eq_append_iff.mp has with ⟨bs, rfl, hbs⟩ | ⟨bs, hbs, hr'⟩
    · cases bs with
      | nil => exact absurd (List.cons.inj hbs).2.symm hr
      | cons b bs =>
        have hnil := (List.cons.inj hbs).2
        simp at hnil
    · cases bs with
      | nil =>
        have hnil := (List.cons.inj hr').2
        exact absurd hnil hr
      | cons b bs =>
        obtain ⟨rfl, -⟩ := List.cons.inj hr'
        exact absurd (by rw [hbs]; simp) hquote
  · cases bs with
    | nil => exact absurd (List.cons.inj hbs).1 (by decide)
    | cons b bs =>
      obtain ⟨rfl, rfl⟩ := List.cons.inj hbs
      exact ⟨bs, rfl, rfl⟩

theorem comma_in_pasted {w r pasted after : List Char} (hafter : Parenthesis after) (hw : Ws w)
    (h : pasted ++ (after ++ ['"']) = w ++ ',' :: r) :
    ∃ t, pasted = w ++ ',' :: t ∧ r = t ++ (after ++ ['"']) := by
  obtain ⟨⟨t, rfl⟩, -⟩ := hafter
  rcases List.append_eq_append_iff.mp h with ⟨as, rfl, has⟩ | ⟨bs, rfl, hbs⟩
  · cases as with
    | nil => exact absurd (List.cons.inj has).1 (by decide)
    | cons a as =>
      obtain ⟨rfl, -⟩ := List.cons.inj has
      exact absurd (hw ')' (by simp)) (by decide)
  · cases bs with
    | nil => exact absurd (List.cons.inj hbs).1 (by decide)
    | cons b bs =>
      obtain ⟨rfl, rfl⟩ := List.cons.inj hbs
      exact ⟨bs, rfl, rfl⟩

theorem breaksOut_of_split {c s w r pasted after : List Char} {members : JsonObject}
    (hafter : Parenthesis after) (hc : StringText c s) (hw : Ws w)
    (hlist : MemberList r members)
    (h : pasted ++ (after ++ ['"']) = c ++ '"' :: (w ++ ',' :: r)) :
    BreaksOut pasted after s members := by
  obtain ⟨t, rfl, ht⟩ := quote_in_pasted hafter (by simp) h
  obtain ⟨y, rfl, rfl⟩ := comma_in_pasted hafter hw ht.symm
  exact ⟨c, w, y, rfl, hc, hw, hlist⟩

/-- The object whose one string has the text pasted into it. -/
theorem memberList_pasted_iff {k p pasted after : List Char} {members : JsonObject}
    (hk : ∀ c ∈ k, unescaped c) (hp : ∀ c ∈ p, unescaped c) (hafter : Parenthesis after) :
    MemberList (quoted k ++ ':' :: quoted (p ++ (pasted ++ after))) members ↔
      (∃ s, StringText (pasted ++ after) s ∧
        members = [(utf8 k, .string (nodeText (p ++ s)))]) ∨
      ∃ s rest, BreaksOut pasted after s rest ∧
        members = (utf8 k, .string (nodeText (p ++ s))) :: rest := by
  have htext : quoted (p ++ (pasted ++ after)) =
      '"' :: (p ++ (pasted ++ (after ++ ['"']))) := by simp [quoted]
  constructor
  · intro h
    generalize hwhole : quoted k ++ ':' :: quoted (p ++ (pasted ++ after)) = whole at h
    rw [htext] at hwhole
    cases h with
    | @last m hm =>
      obtain ⟨raw, s, w, hs, hw, heq, hpair⟩ := hm.head_string (z := []) hk (by rw [hwhole]; simp)
      obtain ⟨raw, s, rfl, rfl, hs, heq⟩ := hs.split_unescaped hp heq.symm
      have hclose : (raw ++ ['"']) ++ w = (pasted ++ after) ++ ['"'] := by simpa using heq
      obtain ⟨-, hclose⟩ := append_ws_eq_concat hw (by decide) hclose
      obtain ⟨rfl, -⟩ := List.append_inj' hclose rfl
      exact Or.inl ⟨s, hs, by rw [hpair]⟩
    | @cons m t rest hm hlist =>
      obtain ⟨raw, s, w, hs, hw, heq, hpair⟩ := hm.head_string hk hwhole.symm
      obtain ⟨raw, s, rfl, rfl, hs, heq⟩ := hs.split_unescaped hp heq.symm
      exact Or.inr ⟨s, rest, breaksOut_of_split hafter hs hw hlist heq.symm, by rw [hpair]⟩
  · rintro (⟨s, hs, rfl⟩ | ⟨s, rest, ⟨c, w, y, rfl, hc, hw, hlist⟩, rfl⟩)
    · have hlast := MemberList.last (namedMember_reads hk (stringText_append hp hs) ws_nil)
      rwa [namedMember_whole, namedMember_pair hk, List.append_nil] at hlast
    · have hcons := MemberList.cons (namedMember_reads hk (stringText_append hp hc) hw) hlist
      rw [namedMember_whole, namedMember_pair hk] at hcons
      rw [htext]
      simpa [quoted] using hcons

/-! ### A value that holds the pasted text as it is -/

/-- The marks that a text has more of than what it stands for, once it holds an escape. -/
def isMark (c : Char) : Bool := c = '"' || c = '\\' || c = '0'

def isMarkByte (b : UInt8) : Bool := b = 34 || b = 92 || b = 48

theorem hexValue_zero {c : Char} (h : hexValue c = some 0) : c = '0' := by
  unfold hexValue at h
  split_ifs at h with hdigit hlower hupper
  · have hle : 48 ≤ c.toNat := hdigit.1
    have hnat : c.toNat = 48 := by
      have hzero := Option.some.inj h
      omega
    exact Char.toNat_inj.mp hnat
  · have hle : 97 ≤ c.toNat := hlower.1
    have hzero := Option.some.inj h
    omega
  · have hle : 65 ≤ c.toNat := hupper.1
    have hzero := Option.some.inj h
    omega

/-- A number below 4096 begins with a zero. -/
theorem hex4_small {ds : List Char} {n : ℕ} (h : hex4 ds = some n) (hn : n < 4096) :
    '0' ∈ ds := by
  unfold hex4 at h
  split_ifs at h with hlength
  obtain ⟨a, b, c, d, rfl⟩ : ∃ a b c d, ds = [a, b, c, d] := by
    match ds, hlength with
    | [a, b, c, d], _ => exact ⟨a, b, c, d, rfl⟩
  simp only [List.foldlM_cons, List.foldlM_nil, Option.bind_eq_bind, Option.bind_eq_some_iff,
    Option.map_eq_some_iff, Option.pure_def, Option.some.injEq] at h
  obtain ⟨-, ⟨x, hx, rfl⟩, -, ⟨y, hy, rfl⟩, -, ⟨z, hz, rfl⟩, -, ⟨w, hw, rfl⟩, rfl⟩ := h
  have hzero : x = 0 := by omega
  subst hzero
  have ha := hexValue_zero hx
  subst ha
  exact List.mem_cons_self ..

/-- What an escape stands for has fewer marks than the escape. -/
theorem CharText.marks {u : List Char} {c : Char} (h : CharText u c) :
    u = [c] ∧ unescaped c ∨ [c].countP isMark < u.countP isMark := by
  have hone (d : Char) : [d].countP isMark ≤ 1 := List.countP_le_length
  cases h with
  | plain hc => exact Or.inl ⟨rfl, hc⟩
  | @escape e c hc =>
    refine Or.inr ?_
    by_cases he : e = '"' ∨ e = '\\'
    · have htwo : ['\\', e].countP isMark = 2 := by
        rcases he with rfl | rfl <;> rfl
      exact htwo ▸ Nat.lt_succ_of_le (hone c)
    · have hc0 : isMark c = false := by
        unfold escapeOf at hc
        split at hc <;> simp_all [isMark] <;> subst hc <;> decide
      have hfew : 1 ≤ ['\\', e].countP isMark := by simp [isMark]
      have hnone : [c].countP isMark = 0 := by simp [hc0]
      omega
  | @unicode ds n hds hn =>
    refine Or.inr ?_
    by_cases hmark : isMark (Char.ofNat n) = true
    · have hsmall : n < 4096 := by
        have hnat : (Char.ofNat n).toNat = n := by
          rw [Char.ofNat, dif_pos hn]
          rfl
        simp only [isMark, Bool.or_eq_true, decide_eq_true_eq] at hmark
        rcases hmark with (hmark | hmark) | hmark <;> rw [hmark] at hnat <;> subst hnat <;> decide
      have hzero : 0 < ds.countP isMark := List.countP_pos_iff.mpr ⟨'0', hex4_small hds hsmall, rfl⟩
      have htwo : ('\\' :: 'u' :: ds).countP isMark = 1 + ds.countP isMark := by
        simp [isMark, Nat.add_comm]
      have hle := hone (Char.ofNat n)
      omega
    · have hnone : [Char.ofNat n].countP isMark = 0 := by simp [hmark]
      have hfew : 0 < ('\\' :: 'u' :: ds).countP isMark :=
        List.countP_pos_iff.mpr ⟨'\\', List.mem_cons_self .., rfl⟩
      omega
  | @pair ds es hi lo c hds hes hc =>
    refine Or.inr ?_
    have htwo : 2 ≤ ('\\' :: 'u' :: ds ++ '\\' :: 'u' :: es).countP isMark := by
      simp only [List.cons_append, List.countP_cons, List.countP_append]
      have hslash : isMark '\\' = true := rfl
      simp only [hslash, if_true]
      omega
    exact Nat.lt_of_lt_of_le (Nat.lt_succ_of_le (hone c)) htwo

theorem StringText.marks {raw s : List Char} (h : StringText raw s) :
    s.countP isMark ≤ raw.countP isMark ∧
      (raw.countP isMark ≤ s.countP isMark → raw = s ∧ ∀ c ∈ s, unescaped c) := by
  induction h with
  | nil => exact ⟨le_rfl, fun _ => ⟨rfl, by simp⟩⟩
  | @cons u raw s c hc hs ih =>
    have hsum : (c :: s).countP isMark = [c].countP isMark + s.countP isMark := by
      rw [← List.singleton_append, List.countP_append]
    rw [List.countP_append, hsum]
    rcases hc.marks with ⟨rfl, hplain⟩ | hlt
    · refine ⟨Nat.add_le_add_left ih.1 _, fun hle => ?_⟩
      obtain ⟨rfl, hrest⟩ := ih.2 (Nat.le_of_add_le_add_left hle)
      exact ⟨rfl, List.forall_mem_cons.mpr ⟨hplain, hrest⟩⟩
    · have hle := ih.1
      exact ⟨by omega, fun hge => absurd hge (by omega)⟩

theorem isMark_lt {c : Char} (h : isMark c = true) : c.toNat < 128 := by
  simp only [isMark, Bool.or_eq_true, decide_eq_true_eq] at h
  rcases h with (rfl | rfl) | rfl <;> decide

theorem isMarkByte_lt {b : UInt8} (h : isMarkByte b = true) : b.toNat < 128 := by
  simp only [isMarkByte, Bool.or_eq_true, decide_eq_true_eq] at h
  rcases h with (rfl | rfl) | rfl <;> decide

theorem isMarkByte_ofNat {c : Char} (h : c.toNat < 128) :
    isMarkByte (UInt8.ofNat c.toNat) = isMark c := by
  have hnat (d : Char) : c = d ↔ c.toNat = d.toNat := Char.toNat_inj.symm
  have hbyte (b : UInt8) : UInt8.ofNat c.toNat = b ↔ c.toNat = b.toNat := by
    rw [← UInt8.toNat_inj, UInt8.toNat_ofNat', Nat.mod_eq_of_lt (by omega)]
  simp only [isMarkByte, isMark, hnat, hbyte]
  rfl

theorem countP_utf8 (s : List Char) : (utf8 s).countP isMarkByte = s.countP isMark := by
  induction s with
  | nil => rfl
  | cons c s ih =>
    have hhead : (String.utf8EncodeChar c).countP isMarkByte = [c].countP isMark := by
      by_cases hascii : c.toNat < 128
      · rw [utf8EncodeChar_ascii hascii, List.countP_singleton, List.countP_singleton,
          isMarkByte_ofNat hascii]
      · rw [List.countP_eq_zero.mpr, List.countP_eq_zero.mpr]
        · intro d hd
          rw [List.mem_singleton.mp hd]
          exact fun hmark => hascii (isMark_lt hmark)
        · intro b hb hmark
          exact absurd (isMarkByte_lt hmark) (Nat.not_lt.mpr (le_of_mem_utf8EncodeChar hascii hb))
    rw [utf8_cons, List.countP_append, hhead, ih, ← List.countP_append, List.singleton_append]

theorem MemberList.ne_nil {t : List Char} {members : JsonObject} (h : MemberList t members) :
    members ≠ [] := by
  cases h <;> exact List.cons_ne_nil _ _

/-- The object whose one member has the pasted text as its value. -/
theorem memberList_one_iff {k raw : List Char} {v : Bytes} (hk : ∀ c ∈ k, unescaped c) :
    MemberList (quoted k ++ ':' :: quoted raw) [(utf8 k, .string v)] ↔
      ∃ s, StringText raw s ∧ v = nodeText s := by
  constructor
  · intro h
    generalize hwhole : quoted k ++ ':' :: quoted raw = whole at h
    generalize hone : [(utf8 k, JsonNode.string v)] = members at h
    cases h with
    | @last m hm =>
      have hhead : m.whole ++ [] = quoted k ++ ':' :: '"' :: (raw ++ ['"']) := by
        rw [← hwhole, List.append_nil]
        rfl
      obtain ⟨raw', s, w, hs, hw, heq, hpair⟩ := hm.head_string hk hhead
      have hclose : (raw' ++ ['"']) ++ w = raw ++ ['"'] := by simpa using heq.symm
      obtain ⟨-, hclose⟩ := append_ws_eq_concat hw (by decide) hclose
      obtain ⟨rfl, -⟩ := List.append_inj' hclose rfl
      rw [hpair] at hone
      have hvalue := (Prod.mk.inj (List.singleton_inj.mp hone)).2
      exact ⟨s, hs, JsonNode.string.inj hvalue⟩
    | cons hm hlist => exact absurd (List.cons.inj hone).2.symm hlist.ne_nil
  · rintro ⟨s, hs, rfl⟩
    have hlast := MemberList.last (namedMember_reads hk hs ws_nil)
    rwa [namedMember_whole, namedMember_pair hk, List.append_nil] at hlast

/-- A value that holds every mark of its text is the text. -/
theorem StringText.of_marks {raw s : List Char} (h : StringText raw s)
    (hmarks : raw.countP isMark ≤ (nodeText s).countP isMarkByte) : ∀ c ∈ raw, unescaped c := by
  rw [nodeText, text_utf8, countP_utf8] at hmarks
  have hle := (List.takeWhile_sublist (p := (· ≠ '\x00')) (l := s)).countP_le (p := isMark)
  obtain ⟨rfl, hplain⟩ := h.marks.2 (hmarks.trans hle)
  exact hplain

end JsonGlib
