import Chamge.CommandRouting
import Chamge.History
import Chamge.RequestBody

/-! The arbiter's registry in runs with any failures: what its lists hold, and what a device
may take from its own state. -/

namespace Chamge
open CString JsonGlib OrderedSet

variable {ι : Type} [DecidableEq ι] {cfg : Config ι} {s t : System ι} {d : ι} {l : Label ι}
  {type : DeviceType}

/-- The handled message is the request for `m` that a device of this type and uid sends. -/
def Asked (cfg : Config ι) (type : DeviceType) (m : BackendMethod) (e : Dispatched ι)
    (u : Bytes) : Prop :=
  e.queue = cfg.enrollQueue ∧ e.message.body = requestBody type m u ∧
    ∃ d, cfg.kind d = type ∧ cfg.uid d = u

/-- The arbiter finds no request of a device in the body. -/
def NoRequest (json : JsonParser) (body : Bytes) : Prop :=
  ∀ type idKey m u, ¬ Asks json type idKey m body u

/-- A request to the arbiter is a device's, or it says nothing to the arbiter. -/
def OwnRequests (cfg : Config ι) (requests : List (Request ι)) : Prop :=
  ∀ r ∈ requests, r.target = cfg.enrollQueue →
    (∃ d m, r.body = requestBody (cfg.kind d) m (cfg.uid d)) ∨ NoRequest cfg.json r.body

/-- The lists change with what the arbiter's pump hands on, and with nothing else. -/
theorem step_agent (h : (system cfg).step s l = some t) :
    (t.agent = s.agent ∧ (l = .pumpArbiter → t.dispatched = s.dispatched)) ∨
      ∃ e, t.dispatched = s.dispatched ++ [e] ∧ l = .pumpArbiter ∧
        t.agent = (arbiterProcessJsonMessage cfg.json amqpArbiterBackend e.message.body
          s.agent).2 := by
  by_cases hl : l = .pumpArbiter
  · subst hl
    obtain ⟨-, q, m, broker, hrec, ⟨-, rfl⟩ | ⟨address, -, rfl⟩⟩ := pumpArbiter_cases h
    · exact Or.inl ⟨rfl, fun _ => rfl⟩
    · refine Or.inr ⟨⟨q, m, .arbiter s.agent⟩, by rw [dispatch_frame], rfl, ?_⟩
      rw [dispatch_frame]
  refine Or.inl ⟨?_, fun hc => absurd hc hl⟩
  by_cases hdeliver : ∃ i c, l = .deliver i c
  · obtain ⟨i, c, rfl⟩ := hdeliver
    obtain ⟨q, m, broker, -, rfl⟩ := deliver_cases h
    rfl
  · exact (step_records hl (fun i c hc => hdeliver ⟨i, c, hc⟩) h).1

omit [DecidableEq ι] in
/-- The arbiter's handler gets what came over the enroll queue, a device's never that. -/
theorem hands_enrollQueue (h : Legal cfg s) (huid : ∀ d, cfg.uid d ≠ cfg.enrollQueue)
    {e : Dispatched ι} (hands : Hands s l e) : e.queue = cfg.enrollQueue ↔ l = .pumpArbiter := by
  have hreply : ∀ {k : ℕ} {r : Request ι}, s.requests[k]? = some r →
      r.replyQueue ≠ cfg.enrollQueue := by
    intro k r hr hq
    have hserver := (h.wired.proper r (List.mem_of_getElem? hr)).serverNamed
    rw [hq, cfg.enrollQueue_client] at hserver
    cases hserver
  cases hands with
  | device _ hinbox =>
    refine iff_of_false (fun hq => ?_) nofun
    rcases h.received _ _ _ hinbox with ⟨hc, -⟩ | ⟨d, -, hd, -⟩ | ⟨k, r, hr, -, hrq⟩
    · cases hc
    · exact huid d (hd.symm.trans hq)
    · exact hreply hr (hrq.trans hq)
  | arbiter hinbox =>
    refine iff_of_true ?_ rfl
    rcases h.received _ _ _ hinbox with ⟨-, hq⟩ | ⟨d, hc, -⟩ | ⟨k, r, hr, hc, -⟩
    · exact hq
    · cases hc
    · rcases h.shaped.linked k r hr with hlink | ⟨d, hlink, -⟩
      · have hclash := hc.symm.trans hlink
        cases hclash
      · have hclash := hc.symm.trans hlink
        cases hclash

/-! ### The devices' states -/

theorem waitVerdict_reply_eq {cid : Bytes} {o : ConsumeOutcome} {e : AmqpEnvelope}
    (h : waitVerdict cid o = .reply e) : o.reply = .normal ∧ e = o.envelope := by
  unfold waitVerdict at h
  cases hreply : o.reply with
  | normal =>
    simp only [hreply] at h
    split_ifs at h
    exact ⟨rfl, (WaitVerdict.reply.inj h).symm⟩
  | missing | serverException =>
    simp only [hreply] at h
    cases h
  | libraryException =>
    simp only [hreply] at h
    split_ifs at h

theorem verdict_of_waitLoop {limit : Option ℕ} {cid : Bytes} {k : ℕ} {o : ConsumeOutcome}
    {e : AmqpEnvelope} (h : waitLoop limit cid k [o] = some (.reply e)) :
    waitVerdict cid o = .reply e := by
  obtain ⟨pre, o', post, hsplit, -, -, hverdict⟩ := waitLoop_reply h
  obtain ⟨-, hlast⟩ | ⟨-, hclash⟩ := List.append_eq_singleton_iff.mp hsplit.symm
  · rwa [(List.cons.inj hlast).1.symm]
  · cases hclash

structure Tracked (cfg : Config ι) (s : System ι) : Prop where
  legal : Legal cfg s
  requests : OwnRequests cfg s.requests
  lists : ∀ type, Follows (Asked cfg type .enroll) (Asked cfg type .delist) s.dispatched
    (s.agent.listOf type)
  enrolled : ∀ d, (s.device d).node.state ≠ .null →
    ∃ e ∈ s.dispatched, Asked cfg (cfg.kind d) .enroll e (cfg.uid d)

/-- A delist of the device has been handled after an enroll of it. -/
def Withdrawn (cfg : Config ι) (s : System ι) (d : ι) : Prop :=
  ∃ pre e post, s.dispatched = pre ++ e :: post ∧
    Asked cfg (cfg.kind d) .delist e (cfg.uid d) ∧
    ∃ e' ∈ pre, Asked cfg (cfg.kind d) .enroll e' (cfg.uid d)

/-- What the registry and the devices' states have to do with each other whatever fails: the
lists are the ordered sets of the enrolls and delists that the arbiter has handled, and a
device that is not in `NULL` is listed or has been withdrawn by a delist of its own. -/
structure RegistryTracks (cfg : Config ι) (s : System ι) : Prop where
  lists : ∀ type, Follows (Asked cfg type .enroll) (Asked cfg type .delist) s.dispatched
    (s.agent.listOf type)
  enrolled : ∀ d, (s.device d).node.state ≠ .null →
    cfg.uid d ∈ s.agent.listOf (cfg.kind d) ∨ Withdrawn cfg s d

end Chamge
