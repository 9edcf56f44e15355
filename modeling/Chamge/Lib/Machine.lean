import Mathlib.Data.List.Basic
import Mathlib.Data.Option.Basic

/-! Deterministic labelled machines: a label carries every choice of its step, a run is
a list of labels, and a step that the state does not allow gives `none`. -/

structure Machine (σ ℓ : Type*) where
  step : σ → ℓ → Option σ

namespace Machine

variable {σ ℓ : Type*} (M : Machine σ ℓ)

def run : σ → List ℓ → Option σ
  | s, [] => some s
  | s, l :: ls => (M.step s l).bind fun t => run t ls

def Reachable (s t : σ) : Prop := ∃ ls, M.run s ls = some t

/-- Every step of the run is taken from a state and with a label that `P` allows. -/
def Along (P : σ → ℓ → Prop) : σ → List ℓ → Prop
  | _, [] => True
  | s, l :: ls => ∀ t, M.step s l = some t → P s l ∧ Along P t ls

instance decidableAlong {P : σ → ℓ → Prop} [∀ s l, Decidable (P s l)] :
    (s : σ) → (ls : List ℓ) → Decidable (M.Along P s ls)
  | _, [] => .isTrue trivial
  | s, l :: ls =>
    match h : M.step s l with
    | none => .isTrue fun _ ht => absurd (h.symm.trans ht) nofun
    | some t =>
      have : Decidable (M.Along P t ls) := decidableAlong t ls
      decidable_of_iff (P s l ∧ M.Along P t ls)
        ⟨fun hp _ ht => Option.some.inj (h.symm.trans ht) ▸ hp, fun hp => hp t h⟩

/-- Every state the run passes, its first and last included, satisfies `I`. -/
def Always (I : σ → Prop) : σ → List ℓ → Prop
  | s, [] => I s
  | s, l :: ls => I s ∧ ∀ t, M.step s l = some t → Always I t ls

variable {M} {s t u : σ} {l : ℓ} {ls ms : List ℓ} {P Q : σ → ℓ → Prop} {I J : σ → Prop}

theorem run_cons_eq_some : M.run s (l :: ls) = some u ↔
    ∃ t, M.step s l = some t ∧ M.run t ls = some u := by
  simp only [run, Option.bind_eq_some_iff]

theorem along_congr (hPQ : ∀ s l, P s l ↔ Q s l) : M.Along P s ls ↔ M.Along Q s ls := by
  induction ls generalizing s with
  | nil => exact Iff.rfl
  | cons l ls ih => exact forall₂_congr fun t _ => and_congr (hPQ s l) ih

theorem along_true (s : σ) (ls : List ℓ) : M.Along (fun _ _ => True) s ls := by
  induction ls generalizing s with
  | nil => trivial
  | cons l ls ih => exact fun t _ => ⟨trivial, ih t⟩

theorem along_of_forall {P : ℓ → Prop} (h : ∀ l ∈ ls, P l) :
    M.Along (fun _ l => P l) s ls := by
  induction ls generalizing s with
  | nil => trivial
  | cons l ls ih =>
    rw [List.forall_mem_cons] at h
    exact fun t _ => ⟨h.1, ih h.2⟩

theorem Along.and (hP : M.Along P s ls) (hQ : M.Along Q s ls) :
    M.Along (fun s l => P s l ∧ Q s l) s ls := by
  induction ls generalizing s with
  | nil => trivial
  | cons l ls ih =>
    intro t ht
    obtain ⟨hp, hps⟩ := hP t ht
    obtain ⟨hq, hqs⟩ := hQ t ht
    exact ⟨⟨hp, hq⟩, ih hps hqs⟩

theorem run_invariant (hstep : ∀ s l t, I s → P s l → M.step s l = some t → I t)
    (h0 : I s) (hP : M.Along P s ls) (hrun : M.run s ls = some t) : I t := by
  induction ls generalizing s with
  | nil =>
    obtain rfl : s = t := Option.some.inj hrun
    exact h0
  | cons l ls ih =>
    obtain ⟨u, hu, hrest⟩ := run_cons_eq_some.mp hrun
    obtain ⟨hl, hls⟩ := hP u hu
    exact ih (hstep s l u h0 hl hu) hls hrest

theorem Reachable.invariant (hstep : ∀ s l t, I s → M.step s l = some t → I t)
    (h0 : I s) (h : M.Reachable s t) : I t := by
  obtain ⟨ls, hls⟩ := h
  exact run_invariant (P := fun _ _ => True) (fun s l t hs _ => hstep s l t hs) h0
    (along_true s ls) hls

theorem Always.head (h : M.Always I s ls) : I s := by
  cases ls with
  | nil => exact h
  | cons _ _ => exact h.1

theorem Always.of_run (h : M.Always I s ls) (hrun : M.run s ls = some t) : I t := by
  induction ls generalizing s with
  | nil =>
    obtain rfl : s = t := Option.some.inj hrun
    exact h
  | cons l ls ih =>
    obtain ⟨u, hu, hrest⟩ := run_cons_eq_some.mp hrun
    exact ih (h.2 u hu) hrest

theorem always_of_invariant (hstep : ∀ s l t, I s → M.step s l = some t → I t)
    (hJ : ∀ s, I s → J s) (h0 : I s) (ls : List ℓ) : M.Always J s ls := by
  induction ls generalizing s with
  | nil => exact hJ s h0
  | cons l ls ih => exact ⟨hJ s h0, fun t ht => ih (hstep s l t h0 ht)⟩

/-- Steps that two laws judge alike wherever `I` holds, where `I` survives the steps of the
first law. -/
theorem along_congr_of_invariant (hI : ∀ s l t, I s → P s l → M.step s l = some t → I t)
    (hPQ : ∀ s l, I s → (P s l ↔ Q s l)) (h0 : I s) : M.Along P s ls ↔ M.Along Q s ls := by
  induction ls generalizing s with
  | nil => exact Iff.rfl
  | cons l ls ih =>
    refine forall₂_congr fun t ht => ?_
    rw [← hPQ s l h0]
    exact and_congr_right fun hp => ih (hI s l t h0 hp ht)

/-- `I` is what the steps within `P` keep, and a step outside `P` ends `J`: then `J` holds in
all states of a run exactly when all its steps are within `P`. -/
theorem always_iff_along_of (hI : ∀ s l t, I s → P s l → M.step s l = some t → I t)
    (hJ : ∀ s, I s → J s) (hP : ∀ s l t, I s → M.step s l = some t → J t → P s l) (h0 : I s) :
    M.Always J s ls ↔ M.Along P s ls := by
  induction ls generalizing s with
  | nil => exact iff_of_true (hJ s h0) trivial
  | cons l ls ih =>
    refine ⟨fun h t ht => ?_, fun h => ⟨hJ s h0, fun t ht => ?_⟩⟩
    · have htail := h.2 t ht
      have hp : P s l := hP s l t h0 ht htail.head
      exact ⟨hp, (ih (hI s l t h0 hp ht)).mp htail⟩
    · obtain ⟨hp, hls⟩ := h t ht
      exact (ih (hI s l t h0 hp ht)).mpr hls

/-- Where each step decides by itself whether a property of the states survives it, the
property holds in all states of a run exactly when all steps let it. -/
theorem always_iff_along (hI : ∀ s l t, I s → M.step s l = some t → I t)
    (hJ : ∀ s l t, I s → J s → M.step s l = some t → (J t ↔ P s l)) (h0 : I s) (hs : J s) :
    M.Always J s ls ↔ M.Along P s ls := by
  refine always_iff_along_of (I := fun s => I s ∧ J s) ?_ (fun _ h => h.2) ?_ ⟨h0, hs⟩
  · rintro s l t ⟨hi, hj⟩ hp ht
    exact ⟨hI s l t hi ht, (hJ s l t hi hj ht).mpr hp⟩
  · rintro s l t ⟨hi, hj⟩ ht hjt
    exact (hJ s l t hi hj ht).mp hjt

/-! ### Runs in two parts -/

theorem run_append : M.run s (ls ++ ms) = (M.run s ls).bind fun t => M.run t ms := by
  induction ls generalizing s with
  | nil => rfl
  | cons l ls ih =>
    simp only [List.cons_append, run, Option.bind_assoc]
    congr 1
    funext t
    exact ih

theorem run_append_eq_some : M.run s (ls ++ ms) = some u ↔
    ∃ t, M.run s ls = some t ∧ M.run t ms = some u := by
  rw [run_append, Option.bind_eq_some_iff]

theorem Along.left (h : M.Along P s (ls ++ ms)) : M.Along P s ls := by
  induction ls generalizing s with
  | nil => trivial
  | cons l ls ih => exact fun t ht => ⟨(h t ht).1, ih (h t ht).2⟩

theorem Along.right (h : M.Along P s (ls ++ ms)) (hrun : M.run s ls = some t) :
    M.Along P t ms := by
  induction ls generalizing s with
  | nil =>
    obtain rfl : s = t := Option.some.inj hrun
    exact h
  | cons l ls ih =>
    obtain ⟨u, hu, hrest⟩ := run_cons_eq_some.mp hrun
    exact ih (h u hu).2 hrest

/-- Each step of a run, with the steps before it. -/
theorem along_iff_splits : M.Along P s ls ↔ ∀ ls₁ l ls₂ u v, ls = ls₁ ++ l :: ls₂ →
    M.run s ls₁ = some u → M.step u l = some v → P u l := by
  induction ls generalizing s with
  | nil =>
    refine iff_of_true trivial fun ls₁ l ls₂ u v hls => ?_
    have hlen := congrArg List.length hls
    simp at hlen
  | cons l ls ih =>
    constructor
    · intro h ls₁ l' ls₂ u v hls hrun hstep
      cases ls₁ with
      | nil =>
        obtain ⟨rfl, rfl⟩ := List.cons.inj hls
        obtain rfl : s = u := Option.some.inj hrun
        exact (h v hstep).1
      | cons l₁ ls₁ =>
        obtain ⟨rfl, hrest⟩ := List.cons.inj hls
        obtain ⟨t, ht, hrun'⟩ := run_cons_eq_some.mp hrun
        exact ih.mp (h t ht).2 ls₁ l' ls₂ u v hrest hrun' hstep
    · intro h t ht
      refine ⟨h [] l ls s t rfl rfl ht, ih.mpr fun ls₁ l' ls₂ u v hls hrun hstep => ?_⟩
      refine h (l :: ls₁) l' ls₂ u v ?_ (run_cons_eq_some.mpr ⟨t, ht, hrun⟩) hstep
      rw [hls]
      rfl

/-- What does not hold at the start of a run and holds at its end is brought about by one of
the steps. -/
theorem exists_step_of_run {Q : σ → Prop} (hs : ¬ Q s) (ht : Q t) (hrun : M.run s ls = some t) :
    ∃ ls₁ l ls₂ u v, ls = ls₁ ++ l :: ls₂ ∧ M.run s ls₁ = some u ∧ ¬ Q u ∧
      M.step u l = some v ∧ Q v ∧ M.run v ls₂ = some t := by
  induction ls generalizing s with
  | nil =>
    obtain rfl : s = t := Option.some.inj hrun
    exact absurd ht hs
  | cons l ls ih =>
    obtain ⟨u, hu, hrest⟩ := run_cons_eq_some.mp hrun
    by_cases hQ : Q u
    · exact ⟨[], l, ls, s, u, rfl, rfl, hs, hu, hQ, hrest⟩
    · obtain ⟨ls₁, l', ls₂, v, w, rfl, hrun₁, hv, hstep, hw, hrun₂⟩ := ih hQ hrest
      exact ⟨l :: ls₁, l', ls₂, v, w, rfl, run_cons_eq_some.mpr ⟨u, hu, hrun₁⟩, hv, hstep, hw,
        hrun₂⟩

/-- `A` is what the steps keep while `J` holds; with `J` it is lost, and `B` holds for good. -/
theorem run_while {A B : σ → Prop} (hI : ∀ s l t, I s → M.step s l = some t → I t)
    (hkeep : ∀ s l t, I s → A s → M.step s l = some t → (J t → A t) ∧ (¬ J t → B t))
    (hlost : ∀ s l t, I s → B s → M.step s l = some t → B t) (h0 : I s) (hJ : J s) (hA : A s)
    (hrun : M.run s ls = some t) :
    (M.Always J s ls → A t) ∧ (¬ M.Always J s ls → B t) := by
  induction ls generalizing s with
  | nil =>
    obtain rfl : s = t := Option.some.inj hrun
    exact ⟨fun _ => hA, fun hno => absurd hJ hno⟩
  | cons l ls ih =>
    obtain ⟨u, hu, hrest⟩ := run_cons_eq_some.mp hrun
    have hu0 : I u := hI s l u h0 hu
    obtain ⟨hkept, hgone⟩ := hkeep s l u h0 hA hu
    have hlater : M.Always J s (l :: ls) ↔ M.Always J u ls := by
      refine ⟨fun h => h.2 u hu, fun h => ⟨hJ, fun v hv => ?_⟩⟩
      obtain rfl := Option.some.inj (hu.symm.trans hv)
      exact h
    rw [hlater]
    by_cases hnow : J u
    · exact ih hu0 hnow (hkept hnow) hrest
    · have hB : I t ∧ B t := run_invariant (I := fun v => I v ∧ B v) (P := fun _ _ => True)
        (fun v l w hv _ hw => ⟨hI v l w hv.1 hw, hlost v l w hv.1 hv.2 hw⟩) ⟨hu0, hgone hnow⟩
        (along_true u ls) hrest
      exact ⟨fun h => absurd h.head hnow, fun _ => hB.2⟩

/-- `I n` is what holds after `n` of the steps that `p` counts. -/
theorem run_counted {I : ℕ → σ → Prop} {p : ℓ → Bool} {n : ℕ}
    (hstep : ∀ n s l t, I n s → M.step s l = some t → I (n + if p l then 1 else 0) t)
    (h0 : I n s) (hrun : M.run s ls = some t) : I (n + ls.countP p) t := by
  induction ls generalizing s n with
  | nil =>
    obtain rfl : s = t := Option.some.inj hrun
    exact h0
  | cons l ls ih =>
    obtain ⟨u, hu, hrest⟩ := run_cons_eq_some.mp hrun
    have htail := ih (hstep n s l u h0 hu) hrest
    rw [List.countP_cons]
    rwa [Nat.add_assoc, Nat.add_comm (if p l then 1 else 0)] at htail

variable (M) in
/-- The steps of the run that `q` counts, by the state before, the label and the state after. -/
def countSteps (q : σ → ℓ → σ → Bool) : σ → List ℓ → ℕ
  | _, [] => 0
  | s, l :: ls => (M.step s l).elim 0 fun t => (if q s l t then 1 else 0) + countSteps q t ls

/-- Each step that `q` counts saves `n` units at most, and each that `p` counts uses up one. -/
theorem run_count_le {Φ : σ → ℕ} {p : ℓ → Bool} {q : σ → ℓ → σ → Bool} {n : ℕ}
    (hI : ∀ s l t, I s → M.step s l = some t → I t)
    (hstep : ∀ s l t, I s → M.step s l = some t →
      Φ t + (if p l then 1 else 0) ≤ Φ s + if q s l t then n else 0)
    (h0 : I s) (hrun : M.run s ls = some t) :
    Φ t + ls.countP p ≤ Φ s + n * M.countSteps q s ls := by
  induction ls generalizing s with
  | nil =>
    obtain rfl : s = t := Option.some.inj hrun
    exact Nat.le_refl _
  | cons l ls ih =>
    obtain ⟨u, hu, hrest⟩ := run_cons_eq_some.mp hrun
    have hfirst := hstep s l u h0 hu
    have htail := ih (hI s l u h0 hu) hrest
    have hsaved : n * (if q s l u then 1 else 0) = if q s l u then n else 0 := by
      split_ifs <;> simp
    have hcount : M.countSteps q s (l :: ls) =
        (if q s l u then 1 else 0) + M.countSteps q u ls := by
      rw [countSteps, hu, Option.elim_some]
    rw [List.countP_cons, hcount, Nat.mul_add, hsaved]
    omega

/-! ### Two machines -/

variable {τ κ : Type*} {N : Machine τ κ} {a : τ}

/-- Each step of `M` is answered by some steps of `N`; the relation sees all the labels. -/
theorem run_simulated_along {R : List ℓ → σ → List κ → τ → Prop}
    (hstep : ∀ ls s l t ks a, R ls s ks a → M.step s l = some t →
      ∃ ks' b, N.run a ks' = some b ∧ R (ls ++ [l]) t (ks ++ ks') b)
    (h0 : R [] s [] a) (hrun : M.run s ls = some t) :
    ∃ ks b, N.run a ks = some b ∧ R ls t ks b := by
  have key : ∀ (ls pre : List ℓ) (u : σ) (ks : List κ) (b : τ), N.run a ks = some b →
      R pre u ks b → M.run u ls = some t → ∃ ks b, N.run a ks = some b ∧ R (pre ++ ls) t ks b := by
    intro ls
    induction ls with
    | nil =>
      intro pre u ks b hb hR hu
      obtain rfl : u = t := Option.some.inj hu
      exact ⟨ks, b, hb, (List.append_nil pre).symm ▸ hR⟩
    | cons l ls ih =>
      intro pre u ks b hb hR hu
      obtain ⟨v, hv, hrest⟩ := run_cons_eq_some.mp hu
      obtain ⟨ks', c, hc, hR'⟩ := hstep pre u l v ks b hR hv
      have hboth : N.run a (ks ++ ks') = some c := run_append_eq_some.mpr ⟨b, hb, hc⟩
      have hlater := ih (pre ++ [l]) v (ks ++ ks') c hboth hR' hrest
      rwa [List.append_assoc] at hlater
  exact key ls [] s [] a rfl h0 hrun

theorem run_simulated {R : σ → List κ → τ → Prop}
    (hstep : ∀ s l t ks a, R s ks a → M.step s l = some t →
      ∃ ks' b, N.run a ks' = some b ∧ R t (ks ++ ks') b)
    (h0 : R s [] a) (hrun : M.run s ls = some t) :
    ∃ ks b, N.run a ks = some b ∧ R t ks b :=
  run_simulated_along (R := fun _ => R) (fun _ => hstep) h0 hrun

end Machine
