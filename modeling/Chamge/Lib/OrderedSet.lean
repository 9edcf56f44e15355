import Mathlib.Data.List.Basic
import Mathlib.Data.List.Induction
import Mathlib.Data.List.Nodup

/-! A list kept as an ordered set under a history of additions and removals: an addition
appends what is absent, a removal erases. The set that a history describes is stated on
the history alone, and the list operations are shown to follow it step by step. -/

namespace OrderedSet

variable {α β : Type*} (adds removes : β → α → Prop)

/-- Of the entries of the history that concern `u`, the last one adds it. -/
def LastAdds (h : List β) (u : α) : Prop :=
  ∃ pre b post, h = pre ++ b :: post ∧ adds b u ∧ ∀ c ∈ post, ¬ adds c u ∧ ¬ removes c u

/-- Entry `i` is the first addition of `u` since its last removal. -/
def JoinedAt (h : List β) (u : α) (i : ℕ) : Prop :=
  (∃ b, h[i]? = some b ∧ adds b u) ∧
  (∀ j b, i < j → h[j]? = some b → ¬ removes b u) ∧
  ∀ j b, j < i → h[j]? = some b → adds b u →
    ∃ k c, j < k ∧ k < i ∧ h[k]? = some c ∧ removes c u

/-- The list holds what the history describes, in the order of joining. -/
structure Follows (h : List β) (l : List α) : Prop where
  nodup : l.Nodup
  mem_iff : ∀ u, u ∈ l ↔ LastAdds adds removes h u
  joined : ∀ u, u ∈ l ↔ ∃ i, JoinedAt adds removes h u i
  sorted : l.Pairwise fun u v =>
    ∀ i j, JoinedAt adds removes h u i → JoinedAt adds removes h v j → i < j

variable {adds removes}

theorem follows_nil : Follows adds removes [] [] := by
  refine ⟨List.nodup_nil, fun u => ?_, fun u => ?_, List.Pairwise.nil⟩
  · refine iff_of_false List.not_mem_nil ?_
    rintro ⟨pre, b, post, h, _⟩
    simp at h
  · refine iff_of_false List.not_mem_nil ?_
    rintro ⟨i, ⟨b, hb, _⟩, _⟩
    simp at hb

section append
variable {h : List β} {b : β} {u : α}

theorem lastAdds_append :
    LastAdds adds removes (h ++ [b]) u ↔
      adds b u ∨ (¬ adds b u ∧ ¬ removes b u ∧ LastAdds adds removes h u) := by
  constructor
  · rintro ⟨pre, c, post, hsplit, hc, hpost⟩
    rcases List.eq_nil_or_concat post with rfl | ⟨post, d, rfl⟩
    · obtain ⟨_, hbc⟩ := List.append_inj' hsplit rfl
      exact Or.inl ((List.cons.inj hbc).1 ▸ hc)
    · rw [List.concat_eq_append, ← List.cons_append, ← List.append_assoc] at hsplit
      obtain ⟨hh, hbd⟩ := List.append_inj' hsplit rfl
      obtain rfl := (List.cons.inj hbd).1
      have hb := hpost b (by simp)
      exact Or.inr ⟨hb.1, hb.2, pre, c, post, hh, hc, fun e he => hpost e (by simp [he])⟩
  · rintro (hb | ⟨hb, hr, pre, c, post, rfl, hc, hpost⟩)
    · exact ⟨h, b, [], rfl, hb, fun c hc => absurd hc List.not_mem_nil⟩
    · refine ⟨pre, c, post ++ [b], by simp, hc, fun d hd => ?_⟩
      rcases List.mem_append.mp hd with hd | hd
      · exact hpost d hd
      · obtain rfl := List.mem_singleton.mp hd
        exact ⟨hb, hr⟩

theorem getElem?_append_last (h : List β) (b : β) : (h ++ [b])[h.length]? = some b := by
  simp

theorem getElem?_append_of_some {i : ℕ} {c : β} (hc : h[i]? = some c) :
    (h ++ [b])[i]? = some c := by
  rw [List.getElem?_append_left (List.getElem?_eq_some_iff.mp hc).1, hc]

theorem getElem?_append_cases {i : ℕ} {c : β} (hc : (h ++ [b])[i]? = some c) :
    h[i]? = some c ∨ i = h.length ∧ c = b := by
  rcases Nat.lt_trichotomy i h.length with hi | hi | hi
  · rw [List.getElem?_append_left hi] at hc
    exact Or.inl hc
  · subst hi
    rw [getElem?_append_last] at hc
    exact Or.inr ⟨rfl, (Option.some.inj hc).symm⟩
  · rw [List.getElem?_eq_none (by simp; omega)] at hc
    simp at hc

theorem JoinedAt.lt_length {i : ℕ} (hj : JoinedAt adds removes h u i) : i < h.length := by
  obtain ⟨⟨c, hc, _⟩, _⟩ := hj
  exact (List.getElem?_eq_some_iff.mp hc).1

theorem JoinedAt.append {i : ℕ} (hj : JoinedAt adds removes h u i) (hb : ¬ removes b u) :
    JoinedAt adds removes (h ++ [b]) u i := by
  have hi := hj.lt_length
  obtain ⟨⟨c, hc, hadd⟩, hafter, hfirst⟩ := hj
  refine ⟨⟨c, getElem?_append_of_some hc, hadd⟩, fun j d hij hd => ?_, fun j d hji hd hdu => ?_⟩
  · rcases getElem?_append_cases hd with hd | ⟨_, rfl⟩
    · exact hafter j d hij hd
    · exact hb
  · rcases getElem?_append_cases hd with hd | ⟨rfl, _⟩
    · obtain ⟨k, e, hjk, hki, he, hrem⟩ := hfirst j d hji hd hdu
      exact ⟨k, e, hjk, hki, getElem?_append_of_some he, hrem⟩
    · omega

theorem joinedAt_append_cases {i : ℕ} (hj : JoinedAt adds removes (h ++ [b]) u i) :
    (JoinedAt adds removes h u i ∧ ¬ removes b u) ∨
      (i = h.length ∧ adds b u ∧ ∀ j, ¬ JoinedAt adds removes h u j) := by
  obtain ⟨⟨c, hc, hadd⟩, hafter, hfirst⟩ := hj
  rcases getElem?_append_cases hc with hc | ⟨rfl, rfl⟩
  · have hi := (List.getElem?_eq_some_iff.mp hc).1
    refine Or.inl ⟨⟨⟨c, hc, hadd⟩, fun j d hij hd => hafter j d hij
      (getElem?_append_of_some hd), fun j d hji hd hdu => ?_⟩,
      hafter _ b hi (getElem?_append_last h b)⟩
    obtain ⟨k, e, hjk, hki, he, hrem⟩ := hfirst j d hji (getElem?_append_of_some hd) hdu
    rcases getElem?_append_cases he with he | ⟨rfl, _⟩
    · exact ⟨k, e, hjk, hki, he, hrem⟩
    · omega
  · refine Or.inr ⟨rfl, hadd, fun j hjoin => ?_⟩
    have hj := hjoin.lt_length
    obtain ⟨⟨d, hd, hdu⟩, hclean, _⟩ := hjoin
    obtain ⟨k, e, hjk, hk, he, hrem⟩ := hfirst j d hj (getElem?_append_of_some hd) hdu
    rcases getElem?_append_cases he with he | ⟨rfl, _⟩
    · exact hclean k e hjk he hrem
    · omega

theorem lastAdds_of_kept {j : ℕ} {c : β} (hc : h[j]? = some c) (hadd : adds c u)
    (hkept : ∀ k d, j < k → h[k]? = some d → ¬ removes d u) : LastAdds adds removes h u := by
  induction h using List.reverseRecOn with
  | nil => simp at hc
  | append_singleton h b ih =>
    rw [lastAdds_append]
    by_cases hb : adds b u
    · exact Or.inl hb
    rcases getElem?_append_cases hc with hc | ⟨rfl, rfl⟩
    · have hj := (List.getElem?_eq_some_iff.mp hc).1
      exact Or.inr ⟨hb, hkept _ b hj (getElem?_append_last h b),
        ih hc fun k d hk hd => hkept k d hk (getElem?_append_of_some hd)⟩
    · exact absurd hadd hb

theorem joinedAt_append_last (hb : adds b u) (hno : ¬ LastAdds adds removes h u) :
    JoinedAt adds removes (h ++ [b]) u h.length := by
  refine ⟨⟨b, getElem?_append_last h b, hb⟩, fun j c hj hc => ?_, fun j c hj hc hadd => ?_⟩
  · have := (List.getElem?_eq_some_iff.mp hc).1
    simp at this
    omega
  · rcases getElem?_append_cases hc with hc | ⟨rfl, _⟩
    · by_contra hnone
      refine hno (lastAdds_of_kept hc hadd fun k d hjk hd hrem => hnone ?_)
      exact ⟨k, d, hjk, (List.getElem?_eq_some_iff.mp hd).1, getElem?_append_of_some hd, hrem⟩
    · omega

end append

/-! ### One more entry -/

section step
variable {h : List β} {b : β} {u : α} {l : List α}

theorem Follows.skip (hl : Follows adds removes h l) (hb : ∀ v, ¬ adds b v ∧ ¬ removes b v) :
    Follows adds removes (h ++ [b]) l := by
  have hjoin : ∀ v i, JoinedAt adds removes (h ++ [b]) v i ↔ JoinedAt adds removes h v i := by
    refine fun v i => ⟨fun hj => ?_, fun hj => hj.append (hb v).2⟩
    rcases joinedAt_append_cases hj with ⟨hj, _⟩ | ⟨_, hadd, _⟩
    · exact hj
    · exact absurd hadd (hb v).1
  refine ⟨hl.nodup, fun v => ?_, fun v => ?_, ?_⟩
  · simp [hl.mem_iff v, lastAdds_append, hb v]
  · simp only [hl.joined v, hjoin]
  · simpa only [hjoin] using hl.sorted

theorem Follows.add_present (hl : Follows adds removes h l) (hu : u ∈ l) (hb : adds b u)
    (honly : ∀ v, adds b v → v = u) (hrem : ∀ v, ¬ removes b v) :
    Follows adds removes (h ++ [b]) l := by
  have hjoin : ∀ v i, JoinedAt adds removes (h ++ [b]) v i ↔ JoinedAt adds removes h v i := by
    refine fun v i => ⟨fun hj => ?_, fun hj => hj.append (hrem v)⟩
    rcases joinedAt_append_cases hj with ⟨hj, _⟩ | ⟨_, hadd, hnone⟩
    · exact hj
    · obtain rfl := honly v hadd
      obtain ⟨j, hj⟩ := (hl.joined v).mp hu
      exact absurd hj (hnone j)
  refine ⟨hl.nodup, fun v => ?_, fun v => ?_, ?_⟩
  · rw [lastAdds_append]
    by_cases hv : adds b v
    · obtain rfl := honly v hv
      exact iff_of_true hu (Or.inl hv)
    · simp [hv, hrem v, hl.mem_iff v]
  · simp only [hl.joined v, hjoin]
  · simpa only [hjoin] using hl.sorted

theorem Follows.add_absent (hl : Follows adds removes h l) (hu : u ∉ l) (hb : adds b u)
    (honly : ∀ v, adds b v → v = u) (hrem : ∀ v, ¬ removes b v) :
    Follows adds removes (h ++ [b]) (l ++ [u]) := by
  have hno : ¬ LastAdds adds removes h u := fun hlast => hu ((hl.mem_iff u).mpr hlast)
  have hjoin : ∀ v i, JoinedAt adds removes (h ++ [b]) v i ↔
      JoinedAt adds removes h v i ∨ (v = u ∧ i = h.length) := by
    refine fun v i => ⟨fun hj => ?_, ?_⟩
    · rcases joinedAt_append_cases hj with ⟨hj, _⟩ | ⟨hi, hadd, _⟩
      · exact Or.inl hj
      · exact Or.inr ⟨honly v hadd, hi⟩
    · rintro (hj | ⟨rfl, rfl⟩)
      · exact hj.append (hrem v)
      · exact joinedAt_append_last hb hno
  refine ⟨List.nodup_append.mpr ⟨hl.nodup, List.nodup_singleton u, ?_⟩, fun v => ?_,
    fun v => ?_, List.pairwise_append.mpr ⟨?_, List.pairwise_singleton _ u, ?_⟩⟩
  · rintro v hv w hw rfl
    exact hu (List.mem_singleton.mp hw ▸ hv)
  · rw [lastAdds_append, List.mem_append, List.mem_singleton]
    by_cases hv : v = u
    · subst hv
      exact iff_of_true (Or.inr rfl) (Or.inl hb)
    · have hadd : ¬ adds b v := fun hadd => hv (honly v hadd)
      simp [hv, hadd, hrem v, hl.mem_iff v]
  · rw [List.mem_append, List.mem_singleton, hl.joined v]
    simp only [hjoin, exists_or, exists_and_left, exists_eq, and_true]
  · refine hl.sorted.imp_of_mem fun {v w} hv hw hvw i j hi hj => ?_
    have hold : ∀ x k, x ∈ l → JoinedAt adds removes (h ++ [b]) x k →
        JoinedAt adds removes h x k := fun x k hx hk =>
      ((hjoin x k).mp hk).resolve_right fun hxu => hu (hxu.1 ▸ hx)
    exact hvw i j (hold v i hv hi) (hold w j hw hj)
  · intro v hv w hw i j hi hj
    obtain rfl := List.mem_singleton.mp hw
    rcases (hjoin v i).mp hi with hi | ⟨rfl, _⟩
    · rcases (hjoin w j).mp hj with hj | ⟨_, rfl⟩
      · exact absurd ((hl.joined w).mpr ⟨j, hj⟩) hu
      · exact hi.lt_length
    · exact absurd hv hu

theorem Follows.remove [BEq α] [LawfulBEq α] (hl : Follows adds removes h l) (hb : removes b u)
    (honly : ∀ v, removes b v → v = u) (hadd : ∀ v, ¬ adds b v) :
    Follows adds removes (h ++ [b]) (l.erase u) := by
  have hjoin : ∀ v i, JoinedAt adds removes (h ++ [b]) v i ↔
      JoinedAt adds removes h v i ∧ v ≠ u := by
    refine fun v i => ⟨fun hj => ?_, fun ⟨hj, hv⟩ => hj.append fun hr => hv (honly v hr)⟩
    rcases joinedAt_append_cases hj with ⟨hj, hr⟩ | ⟨_, hb', _⟩
    · exact ⟨hj, fun e => hr (e ▸ hb)⟩
    · exact absurd hb' (hadd v)
  refine ⟨hl.nodup.erase u, fun v => ?_, fun v => ?_, ?_⟩
  · rw [hl.nodup.mem_erase_iff, lastAdds_append, hl.mem_iff v]
    by_cases hv : v = u
    · subst hv
      simp [hadd v, hb]
    · have hr : ¬ removes b v := fun hr => hv (honly v hr)
      simp [hv, hadd v, hr]
  · simp only [hl.nodup.mem_erase_iff, hl.joined v, hjoin, exists_and_right]
    exact and_comm
  · refine (hl.sorted.sublist List.erase_sublist).imp fun {v w} hvw i j hi hj => ?_
    exact hvw i j ((hjoin v i).mp hi).1 ((hjoin w j).mp hj).1

/-- An entry concerns at most one member, and only in one way. -/
structure Exclusive (adds removes : β → α → Prop) (b : β) : Prop where
  adds_unique : ∀ u v, adds b u → adds b v → v = u
  removes_unique : ∀ u v, removes b u → removes b v → v = u
  not_both : ∀ u v, adds b u → ¬ removes b v

structure Updates [BEq α] [LawfulBEq α] (adds removes : β → α → Prop) (b : β)
    (l l' : List α) : Prop where
  added : ∀ u, adds b u → l' = if u ∈ l then l else l ++ [u]
  removed : ∀ u, removes b u → l' = l.erase u
  kept : (∀ u, ¬ adds b u ∧ ¬ removes b u) → l' = l

theorem Follows.update [BEq α] [LawfulBEq α] {l' : List α} (hl : Follows adds removes h l)
    (hb : Exclusive adds removes b) (hup : Updates adds removes b l l') :
    Follows adds removes (h ++ [b]) l' := by
  by_cases hadd : ∃ u, adds b u
  · obtain ⟨u, hu⟩ := hadd
    rw [hup.added u hu]
    split_ifs with hmem
    · exact hl.add_present hmem hu (fun v => hb.adds_unique u v hu) fun v => hb.not_both u v hu
    · exact hl.add_absent hmem hu (fun v => hb.adds_unique u v hu) fun v => hb.not_both u v hu
  by_cases hrem : ∃ u, removes b u
  · obtain ⟨u, hu⟩ := hrem
    rw [hup.removed u hu]
    exact hl.remove hu (fun v => hb.removes_unique u v hu) fun v hv => hadd ⟨v, hv⟩
  have hno : ∀ v, ¬ adds b v ∧ ¬ removes b v :=
    fun v => ⟨fun hv => hadd ⟨v, hv⟩, fun hv => hrem ⟨v, hv⟩⟩
  rw [hup.kept hno]
  exact hl.skip hno

/-- A fold whose every step updates a list in its state keeps that list following. -/
theorem Follows.foldl [BEq α] [LawfulBEq α] {σ : Type*} {f : σ → β → σ} (view : σ → List α)
    (hb : ∀ b, Exclusive adds removes b)
    (hup : ∀ s b, Updates adds removes b (view s) (view (f s b))) {s : σ} {bs : List β}
    (hs : Follows adds removes h (view s)) :
    Follows adds removes (h ++ bs) (view (bs.foldl f s)) := by
  induction bs generalizing h s with
  | nil => simpa using hs
  | cons b bs ih =>
    have hstep := ih (hs.update (hb b) (hup s b))
    simpa only [List.append_assoc, List.singleton_append, List.foldl_cons] using hstep

end step

end OrderedSet
