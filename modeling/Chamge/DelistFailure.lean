import Chamge.BackendObjects
import Chamge.Lib.Machine

/-! What a failed delist leaves: the state of the base class, and the backend object that
the subclass has dropped. -/

namespace Chamge
open CString

/-- What the AMQP and the mock backend of an edge answer. -/
def targetUri : Bytes := cstr "srt://localhost:8888"

def chamgeEdgeBackendRequestTargetUri (backend : Option ℕ) : Option Bytes :=
  backend.map fun _ => targetUri

def chamgeEdgeRequestTargetUri (n : ChamgeNode) : Option Bytes :=
  if n.state = .activated then chamgeEdgeBackendRequestTargetUri n.backend else none

/-- The backend object that the node holds, and whether its source is in the main loop. -/
def Objects.held (s : Objects) : Option (ℕ × Bool) :=
  s.node.backend.map fun obj => (obj, (s.object obj).source)

/-- Calls and timer firings with any results of the backends. -/
def nodeObjects : Machine Objects (NodeAction × MethodOutcome) where
  step s l := if s.node.canAct l.1 then some (s.act l.1 l.2) else none

def Usable (s : Objects) : Prop := s.node.state ≠ .null → s.node.backend ≠ none

/-- The law of the failed delist for the call `a` that takes `s` to `t`. -/
structure DelistLawful (s : Objects) (a : NodeAction) (ret : Option ChamgeReturn)
    (t : Objects) : Prop where
  usable : Usable t
  unchanged : a = .delist → ret = some .fail →
    t.node.state = s.node.state ∧ t.held = s.held
  retried : t.node.state ≠ .null →
    (chamgeNodeDelist t.node .ok).ret = .ok ∧ (chamgeNodeDelist t.node .ok).node.state = .null
  answered : t.node.kind = .edge → t.node.state = .activated →
    chamgeEdgeRequestTargetUri t.node ≠ none

/-- The backend's delist does not fail; it may be unfinished on a node in `NULL`. -/
def DelistKept (s : Objects) (a : NodeAction) (r : ChamgeReturn) : Prop :=
  a = .delist → s.node.backend = none ∨ r = .ok ∨ r = .async ∧ s.node.state = .null

variable {s : Objects} {a : NodeAction} {out : MethodOutcome} {n : ChamgeNode}

theorem chamgeEdgeRequestTargetUri_ne_none (hs : n.state = .activated) (hb : n.backend ≠ none) :
    chamgeEdgeRequestTargetUri n ≠ none := by
  rw [chamgeEdgeRequestTargetUri, if_pos hs]
  exact fun h => hb (Option.map_eq_none_iff.mp h)

theorem chamgeNodeDelist_ok (hb : n.backend ≠ none) :
    (chamgeNodeDelist n .ok).ret = .ok ∧ (chamgeNodeDelist n .ok).node.state = .null := by
  obtain ⟨obj, hobj⟩ := Option.ne_none_iff_exists'.mp hb
  have hdelist := delist_backed hobj .ok
  have hret := congrArg CallOutcome.ret hdelist
  have hnode := congrArg CallOutcome.node hdelist
  refine ⟨Option.some.inj hret, ?_⟩
  exact (congrArg ChamgeNode.state hnode).trans (settle_state ..)

/-- With a backend that does not fail its delist, all that the law asks for is a backend
object in the states that need one. -/
theorem DelistLawful.of_usable {ret : Option ChamgeReturn} {t : Objects} (ht : Usable t)
    (hret : a = .delist → ret = some .fail → t = s) : DelistLawful s a ret t := by
  refine ⟨ht, fun ha hfail => ?_, fun hs => chamgeNodeDelist_ok (ht hs), fun _ hs => ?_⟩
  · obtain rfl := hret ha hfail
    exact ⟨rfl, rfl⟩
  · have hnull : t.node.state ≠ .null := by
      rw [hs]
      decide
    exact chamgeEdgeRequestTargetUri_ne_none hs (ht hnull)

theorem act_usable (hs : Usable s) (hkept : DelistKept s a out.ret) : Usable (s.act a out) := by
  have hcall := nodeCall s.node a out.ret
  have hnode : (s.act a out).node = (nodeAction s.node a out.ret).node := rfl
  rw [Usable, hnode]
  have hdelist : methodReached s.node a = some .delist → a = .delist := eq_delist_of_reached
  generalize methodReached s.node a = method at hcall hdelist
  intro hstate
  cases hcall with
  | none hstate' hbackend =>
    rw [hbackend]
    exact hs (hstate' ▸ hstate)
  | enroll hn hbackend => exact hbackend
  | activate hn hb hbackend => exact hbackend ▸ hb
  | deactivate hn hb hbackend => exact hbackend ▸ hb
  | delist hb hbackend hstate' =>
    rw [hstate'] at hstate
    rcases hkept (hdelist rfl) with hnone | hok | ⟨hasync, hnull⟩
    · exact absurd hnone hb
    · simp [hok] at hstate
    · simp [hasync, hnull] at hstate

/-- The law of one call, on a node that has its backend wherever it needs it. -/
theorem delistLawful_iff (hs : Usable s) :
    DelistLawful s a (nodeAction s.node a out.ret).ret (s.act a out) ↔
      DelistKept s a out.ret := by
  refine ⟨fun h ha => ?_, fun h => .of_usable (act_usable hs h) fun ha hret => ?_⟩
  · subst ha
    cases hb : s.node.backend with
    | none => exact Or.inl rfl
    | some obj =>
      have hnode : (s.act .delist out).node =
        { s.node with backend := none }.settle out.ret .null :=
          congrArg CallOutcome.node (delist_backed hb out.ret)
      have hgone : (s.act .delist out).node.backend = none := by
        rw [hnode, settle_backend]
      cases hr : out.ret with
      | ok => exact Or.inr (Or.inl rfl)
      | fail =>
        have hret : (nodeAction s.node .delist out.ret).ret = some .fail := by
          rw [delist_backed hb, hr]
        have hheld := (h.unchanged rfl hret).2
        simp [Objects.held, hgone, hb] at hheld
      | async =>
        refine Or.inr (Or.inr ⟨rfl, not_not.mp fun hstate => h.usable ?_ hgone⟩)
        rw [hnode, settle_state, hr]
        exact hstate
  · subst ha
    cases hb : s.node.backend with
    | none =>
      rw [Objects.act, delist_unbacked hb]
      rfl
    | some obj =>
      rw [delist_backed hb] at hret
      have hfail : out.ret = .fail := Option.some.inj hret
      rcases h rfl with hnone | hok | ⟨hasync, -⟩
      · simp [hb] at hnone
      · simp [hfail] at hok
      · simp [hfail] at hasync

/-- A run of calls and firings keeps to the law of the failed delist exactly when no delist
call gets a failure from a backend object (or, outside `NULL`, an unfinished answer). -/
theorem failed_delist_iff (kind : NodeKind) (uid : Bytes) (ls : List (NodeAction × MethodOutcome)) :
    nodeObjects.Along (fun s l => DelistLawful s l.1 (nodeAction s.node l.1 l.2.ret).ret
        (s.act l.1 l.2)) (.init kind uid) ls ↔
      nodeObjects.Along (fun s l => DelistKept s l.1 l.2.ret) (.init kind uid) ls := by
  apply Machine.along_congr_of_invariant (I := Usable)
  · intro s l t _ hlaw hstep
    simp only [nodeObjects, Option.ite_none_right_eq_some, Option.some.injEq] at hstep
    exact hstep.2 ▸ hlaw.usable
  · exact fun s l hs => delistLawful_iff hs
  · exact fun h => absurd rfl h

/-- An activated edge whose delist request fails stays `ACTIVATED` without a backend. -/
theorem failed_delist_unlawful :
    ¬ nodeObjects.Along (fun s l => DelistLawful s l.1 (nodeAction s.node l.1 l.2.ret).ret
        (s.act l.1 l.2)) (.init .edge (cstr "abc-987-123"))
      [(.enroll none, ⟨.ok, true⟩), (.activate, ⟨.ok, false⟩), (.delist, ⟨.fail, false⟩)] := by
  intro h
  have h3 := (((h _ rfl).2 _ rfl).2 _ rfl).1
  exact h3.answered rfl rfl rfl

end Chamge
