import Mathlib.Algebra.Order.Group.Int
import Mathlib.Algebra.Order.Group.Unbundled.Abs
import Mathlib.Algebra.Ring.Nat
import Chamge.Node

/-! The moment that a lazy enroll chooses: the next of the node's slots, sixteen of which
divide 100 seconds. -/

namespace Chamge
open CString

/-- What `g_checksum_get_string` yields for MD5. -/
def IsMd5 (digest : Bytes) : Prop :=
  digest.length = 32 ∧ ∀ c ∈ digest, c ∈ cstr "0123456789abcdefABCDEF"

/-- The value of a hexadecimal digit, by its place among the digits. -/
def digitValue (c : UInt8) : ℕ := (cstr "0123456789abcdef").idxOf (asciiToLower c)

/-- The digit of a uid under `md5`. -/
def groupOf (md5 : Bytes → Bytes) (uid : Bytes) : ℕ := digitValue ((md5 uid).getLastD 0)

/-- `trigger_ms` of a lazy call of the node with this uid at `rtime` milliseconds. -/
def lazyTrigger (md5 : Bytes → Bytes) (uid : Bytes) (rtime : Int64) : UInt32 :=
  triggerMs (groupTimeMs (md5 uid)) rtime

/-- The delay is computed without a wrap-around, and is the least one that leads from `rtime`
to the slot of digit `d`. -/
structure LeadsToSlot (d : ℕ) (rtime : Int64) (trigger : UInt32) : Prop where
  exact : (trigger.toNat : ℤ) =
    if rtime.toInt % 100000 > 6250 * d then 100000 + 6250 * d - rtime.toInt % 100000
    else 6250 * d - rtime.toInt % 100000
  bound : trigger.toNat < 100000
  slot : (rtime.toInt + trigger.toNat) % 100000 = 6250 * d
  least : ∀ k : ℕ, (rtime.toInt + k) % 100000 = 6250 * d → trigger.toNat ≤ k

theorem digitValue_lt {c : UInt8} (h : c ∈ cstr "0123456789abcdefABCDEF") : digitValue c < 16 := by
  have hall : (cstr "0123456789abcdefABCDEF").all (digitValue · < 16) = true := by decide
  exact of_decide_eq_true (List.all_eq_true.mp hall c h)

theorem hexDigit_eq {c : UInt8} (h : c ∈ cstr "0123456789abcdefABCDEF") :
    (hexDigit c).toNat = digitValue c := by
  have hall : (cstr "0123456789abcdefABCDEF").all
      (fun c => (hexDigit c).toNat = digitValue c) = true := by
    decide
  exact of_decide_eq_true (List.all_eq_true.mp hall c h)

theorem groupTimeMs_eq {digest : Bytes} (h : IsMd5 digest) :
    digitValue (digest.getLastD 0) < 16 ∧
      (groupTimeMs digest).toNat = 6250 * digitValue (digest.getLastD 0) := by
  have hne : digest ≠ [] := by
    rintro rfl
    cases h.1
  have hdigit : digest.getLastD 0 ∈ cstr "0123456789abcdefABCDEF" := by
    rw [List.getLastD_eq_getLast?, List.getLast?_eq_some_getLast hne]
    exact h.2 _ (List.getLast_mem hne)
  have hlt := digitValue_lt hdigit
  have hvalue := hexDigit_eq hdigit
  refine ⟨hlt, ?_⟩
  simp only [groupTimeMs, UInt64.toNat_toUInt32, UInt64.toNat_mul, UInt64.reduceToNat, hvalue]
  omega

theorem bmod_of_small {x : ℤ} (h0 : 0 ≤ x) (h : x < 2 ^ 63) : x.bmod (2 ^ 64) = x :=
  Int.bmod_eq_of_le (by omega) (by omega)

theorem promote_toInt (x : UInt32) : (promote x).toInt = x.toNat := by
  have hlt := x.toNat_lt
  have hbits : (promote x).toInt = (x.toUInt64.toNat : ℤ).bmod (2 ^ 64) :=
    BitVec.toInt_eq_toNat_bmod _
  rw [hbits, UInt32.toNat_toUInt64]
  exact bmod_of_small (Int.natCast_nonneg _) (by omega)

/-- An `Int64` that is a small natural number goes back to `guint` unchanged. -/
theorem toUInt32_of_small {x : Int64} {k : ℕ} (h : x.toInt = k) (hk : k < 100000) :
    x.toUInt64.toUInt32.toNat = k := by
  have hnonneg : 0 ≤ x := by
    rw [Int64.le_iff_toInt_le, h]
    exact Int.natCast_nonneg k
  rw [UInt64.toNat_toUInt32, Int64.toNat_toUInt64_of_le hnonneg, Int64.toNatClampNeg, h,
    Int.toNat_natCast]
  omega

theorem triggerMs_leadsToSlot {groupTime : UInt32} {rtime : Int64} {d : ℕ} (hd : d < 16)
    (hgroup : groupTime.toNat = 6250 * d) (hrtime : 0 ≤ rtime) :
    LeadsToSlot d rtime (triggerMs groupTime rtime) := by
  have hnonneg : 0 ≤ rtime.toInt := Int64.le_iff_toInt_le.mp hrtime
  have hmod : (rtime % 100000).toInt = rtime.toInt % 100000 := by
    rw [Int64.toInt_mod]
    exact Int.tmod_eq_emod_of_nonneg hnonneg
  have hlow : 0 ≤ rtime.toInt % 100000 := Int.emod_nonneg _ (by decide)
  have hhigh : rtime.toInt % 100000 < 100000 := Int.emod_lt_of_pos _ (by decide)
  have hsum : (100000 + groupTime).toNat = 100000 + 6250 * d := by
    rw [UInt32.toNat_add, hgroup, show (100000 : UInt32).toNat = 100000 from rfl]
    omega
  have hcompare : rtime % 100000 > promote groupTime ↔ rtime.toInt % 100000 > 6250 * d := by
    rw [gt_iff_lt, Int64.lt_iff_toInt_lt, hmod, promote_toInt, hgroup]
    simp
  have hexact : ((triggerMs groupTime rtime).toNat : ℤ) =
      if rtime.toInt % 100000 > 6250 * d then 100000 + 6250 * d - rtime.toInt % 100000
      else 6250 * d - rtime.toInt % 100000 := by
    unfold triggerMs
    by_cases hlate : rtime.toInt % 100000 > 6250 * d
    · rw [if_pos (hcompare.mpr hlate), if_pos hlate]
      obtain ⟨k, hk⟩ := Int.eq_ofNat_of_zero_le
        (show 0 ≤ 100000 + 6250 * (d : ℤ) - rtime.toInt % 100000 by omega)
      have hdiff : (promote (100000 + groupTime) - rtime % 100000).toInt = k := by
        rw [Int64.toInt_sub, hmod, promote_toInt, hsum, bmod_of_small (by omega) (by omega)]
        omega
      rw [toUInt32_of_small hdiff (by omega), hk]
    · rw [if_neg fun h => hlate (hcompare.mp h), if_neg hlate]
      obtain ⟨k, hk⟩ := Int.eq_ofNat_of_zero_le
        (show 0 ≤ 6250 * (d : ℤ) - rtime.toInt % 100000 by omega)
      have hdiff : (promote groupTime - rtime % 100000).toInt = k := by
        rw [Int64.toInt_sub, hmod, promote_toInt, hgroup, bmod_of_small (by omega) (by omega)]
        omega
      rw [toUInt32_of_small hdiff (by omega), hk]
  refine ⟨hexact, ?_, ?_, fun k hk => ?_⟩
  · split_ifs at hexact <;> omega
  · split_ifs at hexact <;> omega
  · split_ifs at hexact <;> omega

theorem lazyTrigger_leadsToSlot {md5 : Bytes → Bytes} {uid : Bytes} {rtime : Int64}
    (hmd5 : IsMd5 (md5 uid)) (hrtime : 0 ≤ rtime) :
    LeadsToSlot (groupOf md5 uid) rtime (lazyTrigger md5 uid rtime) := by
  obtain ⟨hlt, hgroup⟩ := groupTimeMs_eq hmd5
  exact triggerMs_leadsToSlot hlt hgroup hrtime

theorem slots_apart {d₁ d₂ : ℕ} {x y : ℤ} (hx : x % 100000 = 6250 * d₁)
    (hy : y % 100000 = 6250 * d₂) (hne : d₁ ≠ d₂) : 6250 ≤ |x - y| := by
  rw [le_abs]
  omega

theorem slots_equal {d : ℕ} {x y : ℤ} (hx : x % 100000 = 6250 * d) (hy : y % 100000 = 6250 * d) :
    100000 ∣ x - y := by
  apply Int.dvd_of_emod_eq_zero
  omega

/-- When the timer of a lazy call at `rtime` is due, in milliseconds. -/
def lazyInstant (md5 : Bytes → Bytes) (uid : Bytes) (rtime : Int64) : ℤ :=
  rtime.toInt + (lazyTrigger md5 uid rtime).toNat

/-- The slots of the nodes, whatever their uids and the times of their calls. -/
structure SpreadsNodes (md5 : Bytes → Bytes) : Prop where
  timer : ∀ n realTime r, n.state = .null → 0 ≤ realTime → 0 ≤ realTime / 1000 ∧
    (chamgeNodeEnroll n (some ⟨md5, realTime⟩) r).node.timers =
      n.timers ++ [⟨n.nextTimer, lazyTrigger md5 n.uid (realTime / 1000)⟩]
  leads : ∀ uid rtime, 0 ≤ rtime →
    LeadsToSlot (groupOf md5 uid) rtime (lazyTrigger md5 uid rtime)
  apart : ∀ uid₁ uid₂ rtime₁ rtime₂, 0 ≤ rtime₁ → 0 ≤ rtime₂ →
    groupOf md5 uid₁ ≠ groupOf md5 uid₂ →
      6250 ≤ |lazyInstant md5 uid₁ rtime₁ - lazyInstant md5 uid₂ rtime₂|
  together : ∀ uid₁ uid₂ rtime₁ rtime₂, 0 ≤ rtime₁ → 0 ≤ rtime₂ →
    groupOf md5 uid₁ = groupOf md5 uid₂ →
      100000 ∣ lazyInstant md5 uid₁ rtime₁ - lazyInstant md5 uid₂ rtime₂

theorem div_1000_nonneg {x : Int64} (h : 0 ≤ x) : 0 ≤ x / 1000 := by
  rw [Int64.le_iff_toInt_le] at h ⊢
  rw [Int64.toInt_div_of_ne_right _ _ (by decide)]
  exact Int.tdiv_nonneg h (by decide)

/-- Lazy enrolls spread the nodes over sixteen slots that lie 6250 milliseconds apart. -/
theorem lazy_slots (md5 : Bytes → Bytes) (hmd5 : ∀ uid, IsMd5 (md5 uid)) : SpreadsNodes md5 := by
  have hleads (uid : Bytes) (rtime : Int64) (h : 0 ≤ rtime) :
      LeadsToSlot (groupOf md5 uid) rtime (lazyTrigger md5 uid rtime) :=
    lazyTrigger_leadsToSlot (hmd5 uid) h
  constructor
  · intro n realTime r hnull htime
    refine ⟨div_1000_nonneg htime, ?_⟩
    rw [chamgeNodeEnroll, if_neg (not_not.mpr hnull)]
    rfl
  · exact hleads
  · intro uid₁ uid₂ rtime₁ rtime₂ h₁ h₂ hne
    exact slots_apart (hleads uid₁ rtime₁ h₁).slot (hleads uid₂ rtime₂ h₂).slot hne
  · intro uid₁ uid₂ rtime₁ rtime₂ h₁ h₂ heq
    have hslot := (hleads uid₂ rtime₂ h₂).slot
    rw [← heq] at hslot
    exact slots_equal (hleads uid₁ rtime₁ h₁).slot hslot

/-- The digests of the uids `abc-987-123` and `edge-1`; any other gets that of the empty uid. -/
def testDigest (uid : Bytes) : Bytes :=
  if uid = cstr "abc-987-123" then cstr "defaa0a0d935c7b52c459159788a8b7c"
  else if uid = cstr "edge-1" then cstr "f793fc7bad4341d0e3a497996832ff89"
  else cstr "d41d8cd98f00b204e9800998ecf8427e"

theorem testDigest_spreads : SpreadsNodes testDigest ∧
    groupOf testDigest (cstr "abc-987-123") = 12 ∧ groupOf testDigest (cstr "edge-1") = 9 ∧
    6250 ≤ |lazyInstant testDigest (cstr "abc-987-123") 99999 -
      lazyInstant testDigest (cstr "edge-1") 0| := by
  have hdigits : ∀ uid, (testDigest uid).length = 32 ∧
      ((testDigest uid).all fun c => c ∈ cstr "0123456789abcdefABCDEF") = true := by
    intro uid
    unfold testDigest
    split_ifs <;> exact ⟨by decide, by decide⟩
  have hmd5 : ∀ uid, IsMd5 (testDigest uid) := fun uid =>
    ⟨(hdigits uid).1, fun c hc => of_decide_eq_true (List.all_eq_true.mp (hdigits uid).2 c hc)⟩
  have hspreads : SpreadsNodes testDigest := lazy_slots testDigest hmd5
  exact ⟨hspreads, by decide, by decide,
    hspreads.apart _ _ 99999 0 (by decide) (by decide) (by decide)⟩

end Chamge
