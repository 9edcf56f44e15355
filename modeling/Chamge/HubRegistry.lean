import Chamge.HubCommands
import Chamge.Registration

/-! The arbiter's registry where hubs send commands to any queue, the enroll queue among them. -/

namespace Chamge
open CString JsonGlib OrderedSet

variable {ι : Type} [DecidableEq ι] {cfg : Config ι} {s t : HubSystem ι} {d : ι} {fin : Finish}

omit [DecidableEq ι] in
/-- What is recorded of the registry stays, and the next request asks the arbiter nothing. -/
theorem Tracked.update {u v : System ι} (h : Tracked cfg u) (hlegal : Legal cfg v)
    (hagent : v.agent = u.agent) (hdevice : v.device = u.device)
    (hdis : v.dispatched = u.dispatched)
    (hreq : v.requests = u.requests ∨ ∃ r, v.requests = u.requests ++ [r] ∧
      (r.target = cfg.enrollQueue → NoRequest cfg.json r.body)) : Tracked cfg v := by
  refine ⟨hlegal, ?_, ?_, ?_⟩
  · rcases hreq with hsame | ⟨r, hnew, hno⟩
    · exact hsame ▸ h.requests
    · intro r' hr' htarget
      rcases List.mem_append.mp (hnew ▸ hr') with hold | hlast
      · exact h.requests r' hold htarget
      · obtain rfl := List.mem_singleton.mp hlast
        exact Or.inr (hno htarget)
  · rw [hagent, hdis]
    exact h.lists
  · rw [hdevice, hdis]
    exact h.enrolled

/-- An enroll in the name of an edge that is none of the system's. -/
def strangersEnroll : Bytes :=
  objectText [(cstr "to", cstr "enroll"), (cstr "method", cstr "enroll"),
    (cstr "deviceType", cstr "edge"), (cstr "edgeId", cstr "edge-2")]

def strangerRun : List (HubLabel Bool) :=
  bothActivated ++ [.userCommand true strangersEnroll (sentAs 4), .base (.deliver 0 .arbiter),
    .base .pumpArbiter]

/-- Without the condition a hub can have the arbiter list an edge that does not exist. -/
theorem hub_command_lists_stranger :
    ∃ s, (hubSystem hubAndEdge).Along HubTraffic (.init hubAndEdge) strangerRun ∧
      (hubSystem hubAndEdge).run (.init hubAndEdge) strangerRun = some s ∧
      ¬ RegistryTracks hubAndEdge s.base := by
  have hrun : ((hubSystem hubAndEdge).run (.init hubAndEdge) strangerRun).any (fun s =>
      cstr "edge-2" ∈ s.base.agent.listOf .edge) = true := by decide +kernel
  obtain ⟨s, hs, hlisted⟩ := (Option.any_eq_true ..).mp hrun
  refine ⟨s, by decide +kernel, hs, fun htracks => ?_⟩
  have hmem := ((htracks.lists .edge).mem_iff _).mp (of_decide_eq_true hlisted)
  obtain ⟨pre, e, post, -, ⟨-, -, d, -, hd⟩, -⟩ := hmem
  cases d with
  | false => exact absurd hd (by decide)
  | true => exact absurd hd (by decide)

end Chamge
