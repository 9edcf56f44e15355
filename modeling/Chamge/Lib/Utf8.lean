import Mathlib.Data.List.Induction
import Chamge.Lib.CString

/-! The UTF-8 bytes of a list of characters. -/

namespace CString

def utf8 (t : List Char) : Bytes := t.flatMap String.utf8EncodeChar

def utf8Decode (b : Bytes) : Option (List Char) := b.toByteArray.utf8Decode?.map Array.toList

theorem utf8_append (s t : List Char) : utf8 (s ++ t) = utf8 s ++ utf8 t := List.flatMap_append

theorem utf8_cons (c : Char) (t : List Char) : utf8 (c :: t) = String.utf8EncodeChar c ++ utf8 t :=
  List.flatMap_cons

theorem toByteArray_utf8 (t : List Char) : (utf8 t).toByteArray = t.utf8Encode := rfl

theorem cstr_eq_utf8 (s : String) : cstr s = utf8 s.toList := by
  rw [cstr, String.toUTF8, ← String.utf8Encode_toList, ← toByteArray_utf8, List.data_toByteArray]

theorem utf8_eq_cstr (t : List Char) : utf8 t = cstr (String.ofList t) := by
  rw [cstr_eq_utf8, String.toList_ofList]

theorem utf8Decode_eq_some_iff {b : Bytes} {t : List Char} :
    utf8Decode b = some t ↔ b = utf8 t := by
  constructor
  · intro h
    obtain ⟨a, ha, rfl⟩ := Option.map_eq_some_iff.mp h
    have hsome : b.toByteArray.utf8Decode?.isSome := by rw [ha]; rfl
    have hencode := ByteArray.utf8Encode_get_utf8Decode? (h := hsome)
    simp only [ha, Option.get_some] at hencode
    have hdata := congrArg (fun a : ByteArray => a.data.toList) hencode
    simpa [List.utf8Encode, utf8] using hdata.symm
  · rintro rfl
    rw [utf8Decode, toByteArray_utf8, List.utf8Decode?_utf8Encode]
    rfl

theorem utf8_injective : Function.Injective utf8 := by
  intro s t h
  have hs := utf8Decode_eq_some_iff.mpr h
  rw [utf8Decode_eq_some_iff.mpr rfl] at hs
  exact Option.some.inj hs

/-! ### Single bytes -/

theorem utf8EncodeChar_ascii {c : Char} (h : c.toNat < 128) :
    String.utf8EncodeChar c = [UInt8.ofNat c.toNat] := by
  have hle : c.val.toNat ≤ 0x7f := Nat.le_of_lt_succ h
  simp only [String.utf8EncodeChar, if_pos hle]
  rfl

theorem le_of_mem_utf8EncodeChar {c : Char} {b : UInt8} (h : ¬ c.toNat < 128)
    (hb : b ∈ String.utf8EncodeChar c) : 128 ≤ b.toNat := by
  have hgt : ¬ c.val.toNat ≤ 0x7f := fun hle => h (Nat.lt_succ_of_le hle)
  simp only [String.utf8EncodeChar, if_neg hgt] at hb
  split_ifs at hb <;> simp only [List.mem_cons, List.not_mem_nil, or_false] at hb <;>
    rcases hb with rfl | rfl | rfl | rfl <;> simp only [UInt8.toNat_ofNat'] <;> omega

theorem toNat_ofNat_toNat (b : UInt8) : (Char.ofNat b.toNat).toNat = b.toNat := by
  have hlt := b.toNat_lt
  have hvalid : b.toNat.isValidChar := Or.inl (by omega)
  rw [Char.ofNat, dif_pos hvalid]
  rfl

/-- A byte below 128 is a character of its own. -/
theorem mem_utf8_iff {t : List Char} {b : UInt8} (hb : b.toNat < 128) :
    b ∈ utf8 t ↔ Char.ofNat b.toNat ∈ t := by
  rw [utf8, List.mem_flatMap]
  constructor
  · rintro ⟨c, hc, hbc⟩
    by_cases hascii : c.toNat < 128
    · rw [utf8EncodeChar_ascii hascii, List.mem_singleton] at hbc
      have hcb : c.toNat = b.toNat := by
        rw [hbc, UInt8.toNat_ofNat']
        omega
      have hchar : Char.ofNat b.toNat = c := by rw [← hcb, Char.ofNat_toNat]
      rwa [hchar]
    · exact absurd (le_of_mem_utf8EncodeChar hascii hbc) (by omega)
  · intro hmem
    have hascii : (Char.ofNat b.toNat).toNat < 128 := (toNat_ofNat_toNat b).symm ▸ hb
    refine ⟨_, hmem, ?_⟩
    rw [utf8EncodeChar_ascii hascii, toNat_ofNat_toNat, UInt8.ofNat_toNat]
    exact List.mem_singleton_self b

/-! ### Parts of a text -/

/-- What stands behind a text in a text is a text. -/
theorem utf8_prefix {p t : List Char} {x : Bytes} (h : utf8 p ++ x = utf8 t) :
    ∃ t', t = p ++ t' ∧ x = utf8 t' := by
  have hencode : p.utf8Encode ++ x.toByteArray = t.utf8Encode := by
    rw [← toByteArray_utf8, ← toByteArray_utf8, ← h, List.toByteArray_append]
  obtain ⟨t', rfl⟩ := List.isPrefix_of_utf8Encode_append_eq_utf8Encode _ hencode
  rw [utf8_append] at h
  exact ⟨t', rfl, List.append_cancel_left h⟩

theorem utf8_last {c : Char} {t : List Char} {x : Bytes} (hc : c.toNat < 128)
    (h : x ++ utf8 [c] = utf8 t) : ∃ t', t = t' ++ [c] ∧ x = utf8 t' := by
  have hbyte : utf8 [c] = [UInt8.ofNat c.toNat] := by
    rw [utf8_cons, utf8EncodeChar_ascii hc]
    rfl
  rcases List.eq_nil_or_concat t with rfl | ⟨t, d, rfl⟩
  · exact absurd h (by simp [utf8])
  rw [List.concat_eq_append] at h ⊢
  by_cases hd : d.toNat < 128
  · have hlast : utf8 [d] = [UInt8.ofNat d.toNat] := by
      rw [utf8_cons, utf8EncodeChar_ascii hd]
      rfl
    rw [utf8_append, hbyte, hlast] at h
    obtain ⟨hx, hcd⟩ := List.append_inj' h rfl
    have hdc : utf8 [c] = utf8 [d] := by rw [hbyte, hlast, hcd]
    obtain rfl := List.singleton_inj.mp (utf8_injective hdc)
    exact ⟨t, rfl, hx⟩
  · have hmem : UInt8.ofNat c.toNat ∈ String.utf8EncodeChar d := by
      obtain ⟨bytes, b, hbytes⟩ :=
        (List.eq_nil_or_concat _).resolve_left (String.utf8EncodeChar_ne_nil (c := d))
      have hlast : utf8 [d] = bytes ++ [b] := by
        rw [utf8_cons, hbytes, List.concat_eq_append]
        exact List.append_nil _
      rw [utf8_append, hbyte, hlast, ← List.append_assoc] at h
      obtain ⟨-, hb⟩ := List.append_inj' h rfl
      rw [hbytes, List.singleton_inj.mp hb]
      simp
    have hle := le_of_mem_utf8EncodeChar hd hmem
    rw [UInt8.toNat_ofNat'] at hle
    omega

/-- What stands before an ASCII text in a text is a text. -/
theorem utf8_suffix {a t : List Char} {x : Bytes} (ha : ∀ c ∈ a, c.toNat < 128)
    (h : x ++ utf8 a = utf8 t) : ∃ t', t = t' ++ a ∧ x = utf8 t' := by
  induction a using List.reverseRecOn generalizing t with
  | nil => exact ⟨t, by simp, by simpa [utf8] using h⟩
  | append_singleton a c ih =>
    rw [utf8_append, ← List.append_assoc] at h
    obtain ⟨t, rfl, htext⟩ := utf8_last (ha c (by simp)) h
    obtain ⟨t', rfl, hx⟩ := ih (fun d hd => ha d (by simp [hd])) htext
    exact ⟨t', by simp, hx⟩

end CString
