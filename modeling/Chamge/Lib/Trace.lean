import Mathlib.Data.List.Basic

/-! Finite and infinite traces of outcomes, and programs that read them from the front:
a program is a function of the outcomes read so far, `none` while it wants more. -/

inductive Trace (α : Type*)
  | finite (l : List α)
  | infinite (f : ℕ → α)

namespace Trace

variable {α β : Type*}

def take : Trace α → ℕ → List α
  | finite l, n => l.take n
  | infinite f, n => (List.range n).map f

/-- The program returns `b` once it has read enough of the trace. -/
def Returns (p : List α → Option β) (t : Trace α) (b : β) : Prop := ∃ n, p (t.take n) = some b

theorem take_prefix (t : Trace α) {m n : ℕ} (h : m ≤ n) : t.take m <+: t.take n := by
  cases t with
  | finite l => exact List.take_prefix_take_left h
  | infinite f =>
    obtain ⟨k, rfl⟩ := Nat.exists_eq_add_of_le h
    simp only [take, List.range_add, List.map_append]
    exact List.prefix_append ..

/-- A program that sticks to its result as more outcomes arrive returns one result only. -/
theorem Returns.unique {p : List α → Option β} {t : Trace α} {b c : β}
    (hp : ∀ l m x, p l = some x → l <+: m → p m = some x)
    (hb : Returns p t b) (hc : Returns p t c) : b = c := by
  obtain ⟨m, hm⟩ := hb
  obtain ⟨n, hn⟩ := hc
  have hbm := hp _ _ _ hm (t.take_prefix (Nat.le_max_left m n))
  have hcn := hp _ _ _ hn (t.take_prefix (Nat.le_max_right m n))
  exact Option.some.inj (hbm.symm.trans hcn)

end Trace
