import Chamge.Lib.Machine

/-! A queue with one reader: what arrives waits in order, and the reader takes it from the
front and serves it or not. -/

@[ext] structure Fifo (α : Type*) where
  arrived : List α
  waiting : List α
  served : List α

namespace Fifo

variable {α : Type*}

inductive Op (α : Type*)
  | arrive (a : α)
  | take (serve : Bool)

def step (f : Fifo α) : Op α → Option (Fifo α)
  | .arrive a => some { f with arrived := f.arrived ++ [a], waiting := f.waiting ++ [a] }
  | .take serve =>
    match f.waiting with
    | [] => none
    | a :: rest =>
      some { f with waiting := rest, served := f.served ++ if serve then [a] else [] }

def machine (α : Type*) : Machine (Fifo α) (Op α) := ⟨step⟩

/-- `g` is what some operations make of `f`. -/
def Leads (f g : Fifo α) : Prop := (machine α).Reachable f g

variable {f g : Fifo α} {a : α} {keep : α → Bool} {n : ℕ}

theorem Leads.refl (f : Fifo α) : f.Leads f := ⟨[], rfl⟩

theorem Leads.trans {h : Fifo α} (hfg : f.Leads g) (hgh : g.Leads h) : f.Leads h := by
  obtain ⟨ls, hls⟩ := hfg
  obtain ⟨ms, hms⟩ := hgh
  exact ⟨ls ++ ms, Machine.run_append_eq_some.mpr ⟨g, hls, hms⟩⟩

theorem leads_arrive : f.Leads
    { f with arrived := f.arrived ++ [a], waiting := f.waiting ++ [a] } := ⟨[.arrive a], rfl⟩

theorem leads_take (serve : Bool) {rest : List α} (h : f.waiting = a :: rest) : f.Leads
    { f with waiting := rest, served := f.served ++ if serve then [a] else [] } := by
  refine ⟨[.take serve], Machine.run_cons_eq_some.mpr ⟨_, ?_, rfl⟩⟩
  simp only [machine, step, h]

theorem leads_skip {rest : List α} (h : rest <:+ f.waiting) :
    f.Leads { f with waiting := rest } := by
  obtain ⟨front, hfront⟩ := h
  induction front generalizing f with
  | nil =>
    obtain rfl : rest = f.waiting := hfront
    exact Leads.refl f
  | cons a front ih =>
    have htake : f.Leads { f with
        waiting := front ++ rest, served := f.served ++ if false then [a] else [] } :=
      leads_take false hfront.symm
    have hsame : f.served ++ (if false then [a] else []) = f.served := List.append_nil _
    rw [hsame] at htake
    exact htake.trans (ih rfl)

/-! ### The order of service -/

/-- What is served and what waits has arrived in this order, the one before the other. -/
def Ordered (f : Fifo α) : Prop := (f.served ++ f.waiting).Sublist f.arrived

theorem ordered_step {op : Op α} (h : f.Ordered) (hstep : f.step op = some g) : g.Ordered := by
  cases op with
  | arrive a =>
    obtain rfl := Option.some.inj hstep
    have happend : (f.served ++ f.waiting ++ [a]).Sublist (f.arrived ++ [a]) :=
      h.append (List.Sublist.refl _)
    rwa [List.append_assoc] at happend
  | take serve =>
    cases hwaiting : f.waiting with
    | nil => simp [step, hwaiting] at hstep
    | cons b rest =>
      simp only [step, hwaiting, Option.some.injEq] at hstep
      subst hstep
      have hkept : (f.served ++ b :: rest).Sublist f.arrived := hwaiting ▸ h
      refine List.Sublist.trans ?_ hkept
      rw [List.append_assoc]
      refine (List.Sublist.refl _).append ?_
      cases serve with
      | false => exact List.sublist_cons_self ..
      | true => exact List.Sublist.refl _

theorem Leads.ordered (h : f.Leads g) (hf : f.Ordered) : g.Ordered :=
  Machine.Reachable.invariant (fun _ _ _ hu hstep => ordered_step hu hstep) hf h

/-! ### A reader that skips nothing -/

/-- The reader has taken the first `n` arrivals and served those that `keep` says. -/
structure Prompt (keep : α → Bool) (n : ℕ) (f : Fifo α) : Prop where
  enough : n ≤ f.arrived.length
  served : f.served = (f.arrived.take n).filter keep
  waiting : f.waiting = f.arrived.drop n

theorem Prompt.arrive (new : List α) (h : f.Prompt keep n)
    (harrived : g.arrived = f.arrived ++ new) (hwaiting : g.waiting = f.waiting ++ new)
    (hserved : g.served = f.served) : g.Prompt keep n := by
  refine ⟨?_, ?_, ?_⟩
  · rw [harrived, List.length_append]
    exact Nat.le_add_right_of_le h.enough
  · rw [hserved, h.served, harrived, List.take_append_of_le_length h.enough]
  · rw [hwaiting, h.waiting, harrived, List.drop_append_of_le_length h.enough]

theorem Prompt.take (h : f.Prompt keep n) (hwaiting : f.waiting = a :: g.waiting)
    (harrived : g.arrived = f.arrived) (hserved : g.served = f.served ++ [a].filter keep) :
    g.Prompt keep (n + 1) := by
  have hdrop : f.arrived.drop n = a :: g.waiting := h.waiting ▸ hwaiting
  have hlt : n < f.arrived.length := by
    rw [← Nat.not_le, ← List.drop_eq_nil_iff, hdrop]
    exact List.cons_ne_nil a g.waiting
  have hhead : f.arrived[n] :: f.arrived.drop (n + 1) = a :: g.waiting :=
    (List.getElem_cons_drop hlt).trans hdrop
  obtain ⟨hget, hrest⟩ := List.cons.inj hhead
  refine ⟨?_, ?_, ?_⟩
  · rw [harrived]
    exact hlt
  · rw [hserved, h.served, harrived, ← List.filter_append, List.take_add_one,
      List.getElem?_eq_getElem hlt, hget]
    rfl
  · rw [harrived, hrest]

/-- Whatever has arrived is served when all before it have been taken, and it too. -/
theorem Prompt.mem_served {i : ℕ} (h : f.Prompt keep n) (hget : f.arrived[i]? = some a)
    (hkeep : keep a = true) (hi : i < n) : a ∈ f.served := by
  rw [h.served, List.mem_filter]
  refine ⟨?_, hkeep⟩
  apply List.mem_of_getElem? (i := i)
  rw [List.getElem?_take_of_lt hi, hget]

end Fifo
