import Mathlib.Logic.Function.Iterate
import Chamge.Device

/-! Handlers of `state-changed` that use the node, against its mutex, which does not let the
thread that holds it in a second time. -/

namespace Chamge
open CString

inductive NodeOperation
  | enroll (lazily : Option LazyClock)
  | delist
  | activate
  | deactivate

def NodeOperation.action : NodeOperation → NodeAction
  | enroll lazily => .enroll lazily
  | delist => .delist
  | activate => .activate
  | deactivate => .deactivate

/-- A handler's program; it goes on with what it has read, or with what the operation has
returned. -/
inductive Handler
  | done
  | readState (k : ChamgeNodeState → Handler)
  | operate (op : NodeOperation) (k : Option ChamgeReturn → Handler)

inductive CallFrame
  | handler (h : Handler)
  | events (es : List NodeEvent)

/-- `locked` is whether this execution holds the mutex; `calls` counts the operations begun;
`stuck` is set when it tries to acquire the mutex that it holds. -/
structure Execution where
  node : ChamgeNode
  locked : Bool
  frames : List CallFrame
  calls : ℕ
  stuck : Bool

section
variable (handlers : ChamgeNodeState → List Handler) (results : ℕ → ChamgeReturn)

/-- `g_mutex_locker_new`. -/
def Execution.acquire (s : Execution) (rest : List CallFrame) : Execution :=
  if s.locked then { s with stuck := true } else { s with locked := true, frames := rest }

def Execution.event (s : Execution) (e : NodeEvent) (rest : List CallFrame) : Execution :=
  match e with
  | .backendCalled _ _ => { s with frames := rest }
  | .lock => s.acquire rest
  | .unlock => { s with locked := false, frames := rest }
  | .stateChanged state => { s with frames := (handlers state).map .handler ++ rest }

def Execution.begin (s : Execution) (a : NodeAction) (k : Option ChamgeReturn → List CallFrame) :
    Execution :=
  let o := nodeAction s.node a (results s.calls)
  { s with node := o.node, calls := s.calls + 1, frames := .events o.trace :: k o.ret }

/-- One step of the topmost frame. A read takes the mutex and gives it back. -/
def Execution.step (s : Execution) : Execution :=
  if s.stuck then s else
  match s.frames with
  | [] => s
  | .handler .done :: rest => { s with frames := rest }
  | .handler (.readState k) :: rest =>
    if s.locked then { s with stuck := true }
    else { s with frames := .handler (k s.node.state) :: rest }
  | .handler (.operate op k) :: rest =>
    s.begin results op.action fun ret => .handler (k ret) :: rest
  | .events [] :: rest => { s with frames := rest }
  | .events (e :: es) :: rest => s.event handlers e (.events es :: rest)

/-- An operation, or a firing, on a node that nobody else uses. -/
def Execution.start (n : ChamgeNode) (a : NodeAction) : Execution :=
  { node := n, locked := false, frames := [], calls := 0, stuck := false : Execution }.begin
    results a fun _ => []

def NeverStuck (s : Execution) : Prop :=
  ∀ k, ((Execution.step handlers results)^[k] s).stuck = false

/-! ### Handlers that leave the mutex alone -/

/-- The operation gets to its state write: it reaches its backend, which returns OK. -/
def storesState (n : ChamgeNode) (a : NodeAction) (r : ChamgeReturn) : Bool :=
  (methodReached n a).isSome && r = .ok

/-- A node and the number of operations begun on it. -/
abbrev Evaluation := ChamgeNode × ℕ

/-- Handlers that run one after another; `none` as soon as one of them has failed. -/
def runAll (run : Handler → Evaluation → Option Evaluation) :
    List Handler → Evaluation → Option Evaluation
  | [], p => some p
  | h :: hs, p => (run h p).bind (runAll run hs)

/-- A run that reads no state and has no operation that gets to its state write. -/
def Handler.quiet : Handler → Evaluation → Option Evaluation
  | .done, p => some p
  | .readState _, _ => none
  | .operate op k, (n, i) =>
    let o := nodeAction n op.action (results i)
    if storesState n op.action (results i) then none else (k o.ret).quiet (o.node, i + 1)

/-- An operation whose own emission, if there is one, runs quiet handlers only. -/
def calmOperation (n : ChamgeNode) (a : NodeAction) (i : ℕ) : Option Evaluation :=
  let p := ((nodeAction n a (results i)).node, i + 1)
  if storesState n a (results i) then runAll (Handler.quiet results) (handlers (targetState a)) p
  else some p

/-- A run in which every operation is calm. -/
def Handler.calm : Handler → Evaluation → Option Evaluation
  | .done, p => some p
  | .readState k, (n, i) => (k n.state).calm (n, i)
  | .operate op k, (n, i) =>
    (calmOperation handlers results n op.action i).bind
      (k (nodeAction n op.action (results i)).ret).calm

/-- The handlers that an emission under the mutex runs are quiet. A timer's emission comes
after the unlock, so that its handlers only have to be calm. -/
def CalmEmissions (n : ChamgeNode) (a : NodeAction) : Prop :=
  match a with
  | .fire _ => storesState n a (results 0) →
    (runAll (Handler.calm handlers results) (handlers .enrolled)
      ((nodeAction n a (results 0)).node, 1)).isSome
  | _ => (calmOperation handlers results n a 0).isSome

end

/-! ### Step by step -/

variable {handlers : ChamgeNodeState → List Handler} {results : ℕ → ChamgeReturn}
  {n : ChamgeNode} {i : ℕ} {rest : List CallFrame}

theorem neverStuck_step {s : Execution} (h : s.stuck = false) :
    NeverStuck handlers results s ↔ NeverStuck handlers results (s.step handlers results) := by
  refine ⟨fun hs k => hs (k + 1), fun hs k => ?_⟩
  cases k with
  | zero => exact h
  | succ k => exact hs k

theorem not_neverStuck {s : Execution} (h : s.stuck = true) : ¬ NeverStuck handlers results s :=
  fun hs => Bool.noConfusion (h.symm.trans (hs 0))

theorem neverStuck_finished {locked : Bool} :
    NeverStuck handlers results ⟨n, locked, [], i, false⟩ := by
  intro k
  induction k with
  | zero => rfl
  | succ k ih => exact ih

/-- Events that do not come near the mutex. -/
def Silent (es : List NodeEvent) : Prop := es = [] ∨ ∃ obj m, es = [.backendCalled obj m]

theorem neverStuck_silent {locked : Bool} {es : List NodeEvent} (h : Silent es) :
    NeverStuck handlers results ⟨n, locked, .events es :: rest, i, false⟩ ↔
      NeverStuck handlers results ⟨n, locked, rest, i, false⟩ := by
  rcases h with rfl | ⟨obj, m, rfl⟩
  · exact neverStuck_step rfl
  · exact (neverStuck_step rfl).trans (neverStuck_step rfl)

theorem operation_trace (n : ChamgeNode) (op : NodeOperation) (r : ChamgeReturn) :
    if storesState n op.action r then
      ∃ obj m, (nodeAction n op.action r).trace =
        [.backendCalled obj m, .lock, .stateChanged (targetState op.action), .unlock]
    else Silent (nodeAction n op.action r).trace := by
  have hstep := actionStep n op.action r
  rw [storesState, methodReached_eq hstep]
  generalize nodeAction n op.action r = o at hstep ⊢
  generalize ha : op.action = a at hstep ⊢
  have hsilent : ∀ obj m state, r ≠ .ok →
      Silent (.backendCalled obj m :: eagerEmission r state) := by
    intro obj m state hr
    rw [eagerEmission, if_neg hr]
    exact Or.inr ⟨obj, m, rfl⟩
  cases hstep with
  | refused | unbacked | lazily => exact Or.inl rfl
  | fire => cases op <;> cases ha
  | enroll | activate | deactivate | delist =>
    by_cases hr : r = .ok
    · subst hr
      exact ⟨_, _, rfl⟩
    · simp only [hr, decide_false, Bool.and_false, Bool.false_eq_true, if_false]
      exact hsilent _ _ _ hr

/-- A handler that runs under the mutex. -/
theorem neverStuck_quiet (h : Handler) (n : ChamgeNode) (i : ℕ) (rest : List CallFrame) :
    NeverStuck handlers results ⟨n, true, .handler h :: rest, i, false⟩ ↔
      ∃ p, h.quiet results (n, i) = some p ∧
        NeverStuck handlers results ⟨p.1, true, rest, p.2, false⟩ := by
  induction h generalizing n i with
  | done =>
    rw [neverStuck_step rfl]
    simp only [Handler.quiet, Option.some.injEq, exists_eq_left']
    exact Iff.rfl
  | readState k =>
    rw [neverStuck_step rfl]
    simp only [Handler.quiet, reduceCtorEq, false_and, exists_false, iff_false]
    exact not_neverStuck rfl
  | operate op k ih =>
    rw [neverStuck_step rfl]
    have htrace := operation_trace n op (results i)
    simp only [Handler.quiet]
    split_ifs at htrace ⊢ with hstores
    · obtain ⟨obj, m, heq⟩ := htrace
      simp only [false_and, exists_false, iff_false]
      change ¬ NeverStuck handlers results ⟨_, true, .events _ :: _, i + 1, false⟩
      rw [heq, neverStuck_step rfl, neverStuck_step rfl]
      exact not_neverStuck rfl
    · exact (neverStuck_silent htrace).trans (ih ..)

/-- The handlers of one emission, where `run` tells for a single one what it comes to. -/
theorem neverStuck_runAll {locked : Bool} {run : Handler → Evaluation → Option Evaluation}
    (hrun : ∀ h n i rest, NeverStuck handlers results ⟨n, locked, .handler h :: rest, i, false⟩ ↔
      ∃ p, run h (n, i) = some p ∧ NeverStuck handlers results ⟨p.1, locked, rest, p.2, false⟩)
    (hs : List Handler) (n : ChamgeNode) (i : ℕ) (rest : List CallFrame) :
    NeverStuck handlers results ⟨n, locked, hs.map .handler ++ rest, i, false⟩ ↔
      ∃ p, runAll run hs (n, i) = some p ∧
        NeverStuck handlers results ⟨p.1, locked, rest, p.2, false⟩ := by
  induction hs generalizing n i with
  | nil =>
    simp only [runAll, Option.some.injEq, exists_eq_left']
    exact Iff.rfl
  | cons h hs ih =>
    rw [List.map_cons, List.cons_append, hrun]
    simp only [runAll, Option.bind_eq_some_iff, ih]
    exact ⟨fun ⟨p, hp, q, hq, hsafe⟩ => ⟨q, ⟨p, hp, hq⟩, hsafe⟩,
      fun ⟨q, ⟨p, hp, hq⟩, hsafe⟩ => ⟨p, hp, q, hq, hsafe⟩⟩

/-- An operation that starts with the mutex free. -/
theorem neverStuck_operation (n : ChamgeNode) (op : NodeOperation) (i : ℕ) (rest : List CallFrame) :
    NeverStuck handlers results ⟨(nodeAction n op.action (results i)).node, false,
        .events (nodeAction n op.action (results i)).trace :: rest, i + 1, false⟩ ↔
      ∃ p, calmOperation handlers results n op.action i = some p ∧
        NeverStuck handlers results ⟨p.1, false, rest, p.2, false⟩ := by
  have htrace := operation_trace n op (results i)
  unfold calmOperation
  split_ifs at htrace ⊢ with hstores
  · obtain ⟨obj, m, heq⟩ := htrace
    -- the call of the backend, the acquisition and the start of the emission
    rw [heq, neverStuck_step rfl, neverStuck_step rfl, neverStuck_step rfl]
    refine (neverStuck_runAll neverStuck_quiet ..).trans (exists_congr fun p => ?_)
    -- the release, and the end of the trace
    refine and_congr_right fun _ => (neverStuck_step rfl).trans (neverStuck_step rfl)
  · simp only [Option.some.injEq, exists_eq_left']
    exact neverStuck_silent htrace

/-- A handler that runs with the mutex free. -/
theorem neverStuck_calm (h : Handler) (n : ChamgeNode) (i : ℕ) (rest : List CallFrame) :
    NeverStuck handlers results ⟨n, false, .handler h :: rest, i, false⟩ ↔
      ∃ p, h.calm handlers results (n, i) = some p ∧
        NeverStuck handlers results ⟨p.1, false, rest, p.2, false⟩ := by
  induction h generalizing n i with
  | done =>
    rw [neverStuck_step rfl]
    simp only [Handler.calm, Option.some.injEq, exists_eq_left']
    exact Iff.rfl
  | readState k ih =>
    rw [neverStuck_step rfl]
    exact ih ..
  | operate op k ih =>
    rw [neverStuck_step rfl]
    refine (neverStuck_operation ..).trans ?_
    simp only [Handler.calm, Option.bind_eq_some_iff, ih]
    exact ⟨fun ⟨p, hp, q, hq, hsafe⟩ => ⟨q, ⟨p, hp, hq⟩, hsafe⟩,
      fun ⟨q, ⟨p, hp, hq⟩, hsafe⟩ => ⟨p, hp, q, hq, hsafe⟩⟩

theorem fire_trace (n : ChamgeNode) (t : ℕ) (r : ChamgeReturn) :
    if storesState n (.fire t) r then
      ∃ obj m, (nodeAction n (.fire t) r).trace =
        [.backendCalled obj m, .lock, .unlock, .stateChanged .enrolled]
    else Silent (nodeAction n (.fire t) r).trace := by
  have hstep := actionStep n (.fire t) r
  rw [storesState, methodReached_eq hstep]
  generalize nodeAction n (.fire t) r = o at hstep ⊢
  cases hstep with
  | refused | unbacked => exact Or.inl rfl
  | fire =>
    by_cases hr : r = .ok
    · subst hr
      exact ⟨_, _, rfl⟩
    · simp only [hr, decide_false, Bool.and_false, Bool.false_eq_true, if_false]
      rw [lazyEmission, if_neg hr]
      exact Or.inr ⟨_, _, rfl⟩

theorem neverStuck_end (handlers : ChamgeNodeState → List Handler)
    (results : ℕ → ChamgeReturn) {x : Option Evaluation} :
    (∃ p, x = some p ∧ NeverStuck handlers results ⟨p.1, false, [], p.2, false⟩) ↔ x.isSome := by
  rw [Option.isSome_iff_exists]
  exact exists_congr fun p => and_iff_left neverStuck_finished

/-- No execution of an operation or a firing tries to acquire the mutex that it holds exactly
when its emissions are calm. -/
theorem never_reacquires_iff (handlers : ChamgeNodeState → List Handler)
    (results : ℕ → ChamgeReturn) (n : ChamgeNode) (a : NodeAction) :
    NeverStuck handlers results (.start results n a) ↔ CalmEmissions handlers results n a := by
  cases a with
  | enroll lazily => exact (neverStuck_operation n (.enroll lazily) 0 []).trans (neverStuck_end ..)
  | delist => exact (neverStuck_operation n .delist 0 []).trans (neverStuck_end ..)
  | activate => exact (neverStuck_operation n .activate 0 []).trans (neverStuck_end ..)
  | deactivate => exact (neverStuck_operation n .deactivate 0 []).trans (neverStuck_end ..)
  | fire t =>
    have htrace := fire_trace n t (results 0)
    have hstart : Execution.start results n (.fire t) =
      ⟨(nodeAction n (.fire t) (results 0)).node, false,
        [.events (nodeAction n (.fire t) (results 0)).trace], 1, false⟩ := rfl
    rw [hstart, CalmEmissions]
    split_ifs at htrace with hstores
    · obtain ⟨obj, m, heq⟩ := htrace
      -- the emission starts with the mutex free again
      rw [heq, neverStuck_step rfl, neverStuck_step rfl, neverStuck_step rfl, neverStuck_step rfl]
      refine (neverStuck_runAll neverStuck_calm ..).trans ?_
      simp only [hstores, forall_const]
      rw [← neverStuck_end handlers results]
      exact exists_congr fun p => and_congr_right fun _ => neverStuck_step rfl
    · rw [neverStuck_silent htrace]
      exact iff_of_true neverStuck_finished fun h => absurd h hstores

/-- A handler that reads the property whose change it is told of. -/
def readingHandler : ChamgeNodeState → List Handler := fun _ => [.readState fun _ => .done]

theorem eager_enroll_reacquires : ¬ NeverStuck readingHandler (fun _ => .ok)
    (.start (fun _ => .ok) (.init .edge (cstr "abc-987-123")) (.enroll none)) :=
  fun h => Bool.noConfusion (h 4)

end Chamge
