import Mathlib.Data.List.Basic
import Mathlib.Data.List.TakeWhile

/-! Byte strings and the C string functions over them. A C string is read from a
byte list up to its end or its first NUL, whichever comes first. -/

namespace CString

abbrev Bytes := List UInt8

/-- The bytes of a text, UTF-8 encoded and without the closing NUL. -/
def cstr (s : String) : Bytes := s.toUTF8.data.toList

/-- What a `char *` to these bytes reads as. -/
def text (b : Bytes) : Bytes := b.takeWhile (· ≠ 0)

def strlen (b : Bytes) : ℕ := (text b).length

/-- One position of a C string comparison; `rest` is the result past it. -/
def byteCmp (x y : UInt8) (rest : Int) : Int :=
  if x ≠ y then (x.toNat : Int) - y.toNat else if x = 0 then 0 else rest

/-- `strncmp`: the difference of the first pair of bytes that differ, 0 when the
first `n` agree or both strings end before that. -/
def strncmp : Bytes → Bytes → ℕ → Int
  | _, _, 0 => 0
  | a, b, n + 1 => byteCmp (a.headD 0) (b.headD 0) (strncmp a.tail b.tail n)

def asciiToLower (c : UInt8) : UInt8 := if 65 ≤ c ∧ c ≤ 90 then c + 32 else c

/-- `g_ascii_strncasecmp`, which compares the bytes as they are where a string ends. -/
def strncasecmp : Bytes → Bytes → ℕ → Int
  | _, _, 0 => 0
  | a, b, n + 1 =>
    let x := a.headD 0
    let y := b.headD 0
    if x = 0 ∨ y = 0 then (x.toNat : Int) - y.toNat
    else if asciiToLower x ≠ asciiToLower y then
      ((asciiToLower x).toNat : Int) - (asciiToLower y).toNat
    else strncasecmp a.tail b.tail n

/-- `g_strndup` of a length-delimited value; the NULL of an empty value is copied as NULL. -/
def strndup (b : Bytes) : Option Bytes := if b = [] then none else some (text b)

/-- A value a C string holds in full: not the NULL of an empty one, no NUL inside. -/
def Clean (b : Bytes) : Prop := b ≠ [] ∧ (0 : UInt8) ∉ b

instance (b : Bytes) : Decidable (Clean b) := inferInstanceAs (Decidable (_ ∧ _))

theorem text_eq_self_iff (b : Bytes) : text b = b ↔ (0 : UInt8) ∉ b := by
  rw [text, List.takeWhile_eq_self_iff]
  constructor
  · intro h h0
    simpa using h 0 h0
  · intro h x hx
    have : x ≠ 0 := fun e => h (e ▸ hx)
    simpa using this

theorem strndup_eq_self_iff (b : Bytes) : strndup b = some b ↔ Clean b := by
  unfold strndup Clean
  split_ifs with h
  · simp [h]
  · simp [h, text_eq_self_iff]

theorem strndup_eq_none_iff (b : Bytes) : strndup b = none ↔ b = [] := by
  unfold strndup
  split_ifs with h <;> simp [h]

theorem byteCmp_eq_zero_iff (x y : UInt8) (rest : Int) :
    byteCmp x y rest = 0 ↔ x = y ∧ (x = 0 ∨ rest = 0) := by
  unfold byteCmp
  split_ifs with hxy hx
  · have : x.toNat ≠ y.toNat := fun h => hxy (UInt8.toNat.inj h)
    simp only [hxy, false_and, iff_false]
    omega
  · simpa [hx] using hxy
  · simpa [hx] using fun _ => hxy

theorem strncmp_self (a : Bytes) (n : ℕ) : strncmp a a n = 0 := by
  induction n generalizing a with
  | zero => rfl
  | succ n ih => exact (byteCmp_eq_zero_iff ..).mpr ⟨rfl, Or.inr (ih _)⟩

/-- On two values of one length `n`, the first NUL-free, `strncmp` over `n` bytes
decides equality. -/
theorem strncmp_eq_zero_iff {a b : Bytes} {n : ℕ} (ha : a.length = n) (hb : b.length = n)
    (h0 : (0 : UInt8) ∉ a) : strncmp a b n = 0 ↔ a = b := by
  induction n generalizing a b with
  | zero =>
    rw [List.eq_nil_of_length_eq_zero ha, List.eq_nil_of_length_eq_zero hb]
    exact ⟨fun _ => rfl, fun _ => rfl⟩
  | succ n ih =>
    obtain ⟨x, xs, rfl⟩ := List.exists_cons_of_length_eq_add_one ha
    obtain ⟨y, ys, rfl⟩ := List.exists_cons_of_length_eq_add_one hb
    have hx : x ≠ 0 := fun e => h0 (e ▸ List.mem_cons_self ..)
    have hxs : (0 : UInt8) ∉ xs := fun e => h0 (List.mem_cons_of_mem _ e)
    rw [strncmp, byteCmp_eq_zero_iff]
    simp only [List.headD_cons, List.tail_cons, List.cons.injEq, hx, false_or,
      ih (by simpa using ha) (by simpa using hb) hxs]

/-- Over the length of the second value, `strncmp` compares it with as much of the first, and
stops at a NUL where the first ends. -/
theorem strncmp_length_eq_zero_iff {a b : Bytes} (h0 : (0 : UInt8) ∉ a) :
    strncmp a b b.length = 0 ↔ b <+: a ∨ a ++ [0] <+: b := by
  induction b generalizing a with
  | nil => exact iff_of_true rfl (Or.inl (List.nil_prefix))
  | cons y ys ih =>
    rw [List.length_cons, strncmp, byteCmp_eq_zero_iff]
    cases a with
    | nil =>
      have hnot : ¬ y :: ys <+: [] := fun h => List.cons_ne_nil _ _ (List.prefix_nil.mp h)
      simp [hnot, List.cons_prefix_cons]
    | cons x xs =>
      have hx : x ≠ 0 := fun e => h0 (e ▸ List.mem_cons_self ..)
      have hxs : (0 : UInt8) ∉ xs := fun e => h0 (List.mem_cons_of_mem _ e)
      simp only [List.headD_cons, List.tail_cons, hx, false_or, ih hxs, List.cons_append,
        List.cons_prefix_cons]
      constructor
      · rintro ⟨rfl, h | h⟩
        · exact Or.inl ⟨rfl, h⟩
        · exact Or.inr ⟨rfl, h⟩
      · rintro (⟨rfl, h⟩ | ⟨rfl, h⟩)
        · exact ⟨rfl, Or.inl h⟩
        · exact ⟨rfl, Or.inr h⟩

theorem asciiToLower_eq_zero_iff {c : UInt8} : asciiToLower c = 0 ↔ c = 0 := by
  unfold asciiToLower
  split_ifs with h
  · simp only [UInt8.le_iff_toNat_le, UInt8.reduceToNat] at h
    simp only [← UInt8.toNat_inj, UInt8.toNat_add, UInt8.reduceToNat]
    omega
  · exact Iff.rfl

/-- On two values of one length `n`, the first NUL-free, `strncasecmp` over `n` bytes decides
equality up to the case of the letters. -/
theorem strncasecmp_eq_zero_iff {a b : Bytes} {n : ℕ} (ha : a.length = n) (hb : b.length = n)
    (h0 : (0 : UInt8) ∉ a) :
    strncasecmp a b n = 0 ↔ a.map asciiToLower = b.map asciiToLower := by
  have hzero {x y : UInt8} (hxy : x ≠ y) : (x.toNat : Int) - y.toNat ≠ 0 := by
    have hne : x.toNat ≠ y.toNat := fun h => hxy (UInt8.toNat.inj h)
    omega
  induction n generalizing a b with
  | zero =>
    rw [List.eq_nil_of_length_eq_zero ha, List.eq_nil_of_length_eq_zero hb]
    exact ⟨fun _ => rfl, fun _ => rfl⟩
  | succ n ih =>
    obtain ⟨x, xs, rfl⟩ := List.exists_cons_of_length_eq_add_one ha
    obtain ⟨y, ys, rfl⟩ := List.exists_cons_of_length_eq_add_one hb
    have hx : x ≠ 0 := fun e => h0 (e ▸ List.mem_cons_self ..)
    have hxs : (0 : UInt8) ∉ xs := fun e => h0 (List.mem_cons_of_mem _ e)
    have hrest := ih (a := xs) (b := ys) (by simpa using ha) (by simpa using hb) hxs
    simp only [strncasecmp, List.headD_cons, List.tail_cons, List.map_cons, List.cons.injEq, hx,
      false_or]
    by_cases hy : y = 0
    · have hlower : asciiToLower x ≠ asciiToLower y := by
        rw [hy]
        exact fun h => hx (asciiToLower_eq_zero_iff.mp h)
      rw [if_pos hy]
      exact iff_of_false (hzero (hy ▸ hx)) fun h => hlower h.1
    · rw [if_neg hy]
      by_cases hlower : asciiToLower x = asciiToLower y
      · simp [hlower, hrest]
      · simpa [hlower] using hzero hlower

end CString
