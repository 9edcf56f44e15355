import Chamge.Waits

/-! What becomes of the user commands delivered to a device: which of them are swallowed. -/

namespace Chamge
open CString JsonGlib

variable {ι : Type} [DecidableEq ι] {cfg : Config ι} {s t : System ι}

/-- A well-formed user command: JSON content, a body, a reply queue and a correlation id, from
the queue named by the device's uid. -/
def IsCommand (cfg : Config ι) (d : ι) (p : Bytes × Message) : Prop :=
  p.1 = cfg.uid d ∧ ∃ address, replyAddress p.2.envelope = some address ∧
    address.correlationId ≠ none

/-! ### The ledger of a device's connection -/

def System.deliveredTo (s : System ι) (d : ι) : List (Bytes × Message) :=
  (s.delivered.filter fun x => x.1 = .device d).map Prod.snd

def Dispatched.handedTo (json : JsonParser) (d : ι) (e : Dispatched ι) : Bool :=
  match e.responder with
  | .arbiter _ => false
  | .device d' _ => d' = d && reachesHandler json e.message.body

def System.handedTo (cfg : Config ι) (s : System ι) (d : ι) : List (Bytes × Message) :=
  (s.dispatched.filter (Dispatched.handedTo cfg.json d)).map fun e => (e.queue, e.message)

def lostFrom (d : ι) (lost : List (Lost ι)) : List (Lost ι) :=
  lost.filter fun e => e.conn = .device d

def Lost.entry (e : Lost ι) : Bytes × Message := (e.queue, e.message)

/-- Every command that has been delivered on a device's connection is unread there, or has
come to the handler, or was lost while the device was not in the registry. A command that is
lost after the arbiter has handled the device's delist is of the last kind, although the device
itself may not have returned from the call. -/
def CommandsKept (cfg : Config ι) (s : System ι) : Prop :=
  ∀ d p, IsCommand cfg d p → (s.deliveredTo d).count p =
    (s.broker.inboxOf (.device d)).count p + (s.handedTo cfg d).count p +
      (((lostFrom d s.lost).filter fun e => !e.registered).map Lost.entry).count p

/-- Nothing delivered is unaccounted for. -/
def Conserved (cfg : Config ι) (s : System ι) : Prop :=
  ∀ d p, (s.deliveredTo d).count p =
    (s.broker.inboxOf (.device d)).count p + (s.handedTo cfg d).count p +
      ((lostFrom d s.lost).map Lost.entry).count p

/-- None of these losses is a command of a registered device. -/
def Spares (cfg : Config ι) (lost : List (Lost ι)) : Prop :=
  ∀ e ∈ lost, ∀ d, e.conn = .device d → IsCommand cfg d e.entry → e.registered = false

omit [DecidableEq ι] in
theorem spares_append {l m : List (Lost ι)} :
    Spares cfg (l ++ m) ↔ Spares cfg l ∧ Spares cfg m := List.forall_mem_append

theorem commandsKept_iff (h : Conserved cfg s) : CommandsKept cfg s ↔ Spares cfg s.lost := by
  have hsplit : ∀ (d : ι) p, ((lostFrom d s.lost).map Lost.entry).count p =
      (((lostFrom d s.lost).filter Lost.registered).map Lost.entry).count p +
        (((lostFrom d s.lost).filter fun e => !e.registered).map Lost.entry).count p := by
    intro d p
    simp only [List.count, List.countP_map]
    exact List.countP_eq_countP_filter_add ..
  constructor
  · intro hkept e he d hconn hcmd
    -- a registered loss would be one delivery more than the right side counts
    have hcount := hkept d e.entry hcmd
    rw [h d, hsplit] at hcount
    by_contra hreg
    have hpos : 0 < (((lostFrom d s.lost).filter Lost.registered).map Lost.entry).count
        e.entry := by
      refine List.count_pos_iff.mpr (List.mem_map_of_mem ?_)
      simpa [lostFrom, he, hconn] using hreg
    omega
  · intro hspare d p hcmd
    have hzero : (((lostFrom d s.lost).filter Lost.registered).map Lost.entry).count p = 0 := by
      refine List.count_eq_zero.mpr fun hp => ?_
      obtain ⟨e, he, rfl⟩ := List.mem_map.mp hp
      simp only [lostFrom, List.mem_filter, decide_eq_true_eq] at he
      have hclash := (hspare e he.1.1 d he.1.2 hcmd).symm.trans he.2
      cases hclash
    rw [h d, hsplit, hzero]
    omega

/-! ### The condition -/

/-- None of these messages on the device's connection is a command, while the device is
registered. -/
def NoCommand (cfg : Config ι) (s : System ι) (d : ι) (l : List (Bytes × Message)) : Prop :=
  s.registered cfg d = true → ∀ p ∈ l, ¬ IsCommand cfg d p

def System.consumed (s : System ι) (c : ConnId ι) (failed : Option AmqpRpcReply) :
    Option ConsumeOutcome :=
  match failed with
  | some reply => some (failedOutcome reply)
  | none => (s.broker.receive c).map fun (_, m, _) => ⟨.normal, m.envelope⟩

/-- With this outcome the wait is over and the backend's connection is given up: a delist
ends, or a hub is left without a response. -/
def GivesUp (cfg : Config ι) (d : ι) (w : DeviceWait) (r : Request ι) (o : ConsumeOutcome) :
    Prop :=
  waitLoop (some 10) r.correlationId w.retry [o] ≠ none ∧
    (w.method = .delist ∨ (cfg.kind d = .hub ∧
      ∀ e, waitLoop (some 10) r.correlationId w.retry [o] = some (.reply e) → e.body = []))

/-- No wait loop takes a command from the device's connection, no delist or hub gives the
connection up with a command unread, and no command that is pumped fails to parse. -/
def SparesCommands (cfg : Config ι) (s : System ι) : Label ι → Prop
  | .call d a start =>
    methodReached (s.device d).node a = some .delist → (∀ cid rq, start ≠ .sent cid rq) →
      NoCommand cfg s d (s.broker.inboxOf (.device d))
  | .waitDevice d failed _ =>
    ∀ w r, (s.device d).wait = some w → s.requests[w.request]? = some r →
      (failed = none → r.conn = .device d →
        NoCommand cfg s d ((s.broker.inboxOf (.device d)).take 1)) ∧
      ∀ o, s.consumed r.conn failed = some o → GivesUp cfg d w r o →
        NoCommand cfg s d (s.broker.inboxOf (.device d))
  | .pumpDevice d _ =>
    ∀ p ∈ (s.broker.inboxOf (.device d)).take 1, reachesHandler cfg.json p.2.body = false →
      NoCommand cfg s d [p]
  | _ => True

omit [DecidableEq ι] in
theorem spares_iff {d : ι} {l : List (Bytes × Message)} :
    Spares cfg (l.map fun p => ⟨.device d, p.1, p.2, s.registered cfg d⟩) ↔
      NoCommand cfg s d l := by
  unfold Spares NoCommand
  simp only [List.forall_mem_map, Lost.entry]
  constructor
  · intro h hreg p hp hcmd
    have hclash := hreg.symm.trans (h p hp d rfl hcmd)
    cases hclash
  · intro h p hp d' hd hcmd
    obtain rfl := ConnId.device.inj hd
    by_contra hreg
    exact h (by simpa using hreg) p hp hcmd

/-! ### Steps that consume nothing -/

structure Quiet (s t : System ι) : Prop where
  delivered : t.delivered = s.delivered
  dispatched : t.dispatched = s.dispatched
  lost : t.lost = s.lost
  agent : t.agent = s.agent
  inbox : ∀ d, t.broker.inboxOf (.device d) = s.broker.inboxOf (.device d)

/-- The connection of one device is gone with what was unread on it. -/
structure Drops (cfg : Config ι) (s t : System ι) (d : ι) : Prop where
  delivered : t.delivered = s.delivered
  dispatched : t.dispatched = s.dispatched
  lost : t.lost = s.lost ++ s.unread cfg d
  own : t.broker.inboxOf (.device d) = []
  others : ∀ e, e ≠ d → t.broker.inboxOf (.device e) = s.broker.inboxOf (.device e)

theorem Quiet.refl (s : System ι) : Quiet s s := ⟨rfl, rfl, rfl, rfl, fun _ => rfl⟩

theorem Quiet.of_broker {broker : Broker (ConnId ι) Bytes Message}
    (h : ∀ d, broker.inboxOf (.device d) = s.broker.inboxOf (.device d)) :
    Quiet s { s with broker } := ⟨rfl, rfl, rfl, rfl, h⟩

theorem Quiet.setDevice (s : System ι) (d : ι) (dev : Device) : Quiet s (s.setDevice d dev) :=
  ⟨rfl, rfl, rfl, rfl, fun _ => rfl⟩

theorem Quiet.trans {u : System ι} (h : Quiet s t) (h' : Quiet t u) : Quiet s u :=
  ⟨h'.delivered.trans h.delivered, h'.dispatched.trans h.dispatched, h'.lost.trans h.lost,
    h'.agent.trans h.agent, fun d => (h'.inbox d).trans (h.inbox d)⟩

theorem Quiet.registered (h : Quiet s t) (d : ι) : t.registered cfg d = s.registered cfg d := by
  unfold System.registered
  rw [h.agent]

theorem Quiet.unread (h : Quiet s t) (d : ι) : t.unread cfg d = s.unread cfg d := by
  rw [System.unread, System.unread, h.inbox, h.registered]

theorem Quiet.drops {u : System ι} {d : ι} (h : Quiet s t) (h' : Drops cfg t u d) :
    Drops cfg s u d :=
  ⟨h'.delivered.trans h.delivered, h'.dispatched.trans h.dispatched,
    by rw [h'.lost, h.lost, h.unread], h'.own, fun e he => (h'.others e he).trans (h.inbox e)⟩

theorem conserved_of_eq (hs : Conserved cfg s) (hdelivered : t.delivered = s.delivered)
    (hhanded : ∀ d, t.handedTo cfg d = s.handedTo cfg d)
    (hlost : t.lost = s.lost)
    (hinbox : ∀ d, t.broker.inboxOf (.device d) = s.broker.inboxOf (.device d)) :
    Conserved cfg t := by
  intro d p
  have := hs d p
  simpa only [System.deliveredTo, hdelivered, hhanded, hlost, hinbox] using this

theorem Quiet.conserved (h : Quiet s t) (hs : Conserved cfg s) : Conserved cfg t :=
  conserved_of_eq hs h.delivered (fun d => by rw [System.handedTo, System.handedTo, h.dispatched])
    h.lost h.inbox

theorem lostFrom_unread {d e : ι} : lostFrom e (s.unread cfg d) =
    if e = d then s.unread cfg d else [] := by
  have hconn : ∀ x ∈ s.unread cfg d, x.conn = .device d := by
    intro x hx
    obtain ⟨p, -, rfl⟩ := List.mem_map.mp hx
    rfl
  split_ifs with h
  · subst h
    exact List.filter_eq_self.mpr fun x hx => decide_eq_true (hconn x hx)
  · refine List.filter_eq_nil_iff.mpr fun x hx => ?_
    rw [hconn x hx, decide_eq_true_eq]
    exact device_ne_device (Ne.symm h)

theorem entry_unread {d : ι} :
    (s.unread cfg d).map Lost.entry = s.broker.inboxOf (.device d) := by
  simp [System.unread, Lost.entry, Function.comp_def]

theorem Drops.conserved {d : ι} (h : Drops cfg s t d) (hs : Conserved cfg s) :
    Conserved cfg t := by
  intro e p
  have hcount := hs e p
  simp only [System.deliveredTo, System.handedTo, h.delivered, h.dispatched, h.lost, lostFrom,
    List.filter_append, List.map_append, List.count_append] at hcount ⊢
  have hnew : (s.unread cfg d).filter (fun x => x.conn = .device e) =
      if e = d then s.unread cfg d else [] := lostFrom_unread
  rw [hnew, hcount]
  by_cases hed : e = d
  · subst hed
    rw [if_pos rfl, entry_unread, h.own, List.count_nil]
    omega
  · rw [if_neg hed, h.others e hed, List.map_nil, List.count_nil]
    omega

theorem startRequest_quiet {who : Caller ι} {c : ConnId ι} {target body : Bytes} {start : Start}
    {w : Option ℕ} (h : s.startRequest who c target body start = some (t, w)) : Quiet s t := by
  rcases startRequest_cases h with
    ⟨-, rfl | ⟨-, rfl⟩, -⟩ | ⟨cid, rq, -, ⟨-, -, rfl⟩ | ⟨-, -, rfl⟩⟩
  · exact Quiet.refl _
  · exact Quiet.of_broker fun d => Broker.inboxOf_cancel
  · exact ⟨rfl, rfl, rfl, rfl, fun d => by simp [System.send]⟩
  · exact ⟨rfl, rfl, rfl, rfl, fun d => by simp [System.send]⟩

theorem openFor_quiet {d : ι} {method : BackendMethod} {start : Start} {c : ConnId ι}
    (h : s.openFor d method start = some (t, c)) : Quiet s t := by
  rcases openFor_cases h with ⟨-, -, rfl⟩ | ⟨-, -, -, rfl⟩ | ⟨-, -, rfl⟩
  · exact Quiet.refl _
  · exact ⟨rfl, rfl, rfl, rfl, fun _ => rfl⟩
  · exact Quiet.of_broker fun _ => rfl

theorem subscribe_quiet {d : ι} {fin : Finish} {ret : ChamgeReturn}
    (h : s.subscribe cfg d fin = some (t, ret)) : Quiet s t := by
  rcases subscribe_cases h with ⟨-, rfl | ⟨-, rfl⟩ | ⟨-, rfl⟩⟩ | ⟨-, -, -, rfl⟩
  · exact Quiet.refl _
  · exact Quiet.of_broker fun d => Broker.inboxOf_cancel
  · exact Quiet.of_broker fun d => Broker.inboxOf_declare
  · exact Quiet.of_broker fun d => by simp

theorem closeLink_quiet {c : ConnId ι} {fin : Finish} (hc : ∀ d, c ≠ .device d) :
    Quiet s (s.closeLink c fin) := by
  cases fin with
  | ok => exact Quiet.of_broker fun d => Broker.inboxOf_close_ne (hc d).symm
  | failed => exact Quiet.refl s
  | partly => exact Quiet.of_broker fun d => Broker.inboxOf_cancel

/-- With `p` the device's connection is dropped, without it nothing happens to it. -/
structure Settles (cfg : Config ι) (s t : System ι) (d : ι) (p : Prop) : Prop where
  drops : p → Drops cfg s t d
  quiet : ¬ p → Quiet s t

theorem Quiet.settles {u : System ι} {d : ι} {p : Prop} (h : Quiet s t)
    (h' : Settles cfg t u d p) : Settles cfg s u d p :=
  ⟨fun hp => h.drops (h'.drops hp), fun hp => h.trans (h'.quiet hp)⟩

theorem Settles.conserved {d : ι} {p : Prop} (h : Settles cfg s t d p)
    (hs : Conserved cfg s) : Conserved cfg t := by
  by_cases hp : p
  · exact (h.drops hp).conserved hs
  · exact (h.quiet hp).conserved hs

theorem Settles.spares {d : ι} {p : Prop} (h : Settles cfg s t d p) :
    Spares cfg t.lost ↔
      Spares cfg s.lost ∧ (p → NoCommand cfg s d (s.broker.inboxOf (.device d))) := by
  by_cases hp : p
  · rw [(h.drops hp).lost, spares_append, System.unread, spares_iff]
    simp only [hp, forall_const]
  · rw [(h.quiet hp).lost]
    exact ⟨fun hs => ⟨hs, fun h => absurd h hp⟩, And.left⟩

theorem finishCall_settles {d : ι} {w : NodeAction × BackendMethod} {r : ChamgeReturn} :
    Settles cfg s (s.finishCall cfg d w r) d (w.2 = .delist) := by
  constructor <;> intro hm
  · refine ⟨by rw [finishCall_frame], by rw [finishCall_frame], ?_, ?_, fun e he => ?_⟩
    · rw [finishCall_lost, if_pos hm]
    · rw [finishCall_broker, if_pos hm, Broker.inboxOf_close_self]
    · rw [finishCall_broker, if_pos hm]
      exact Broker.inboxOf_close_ne (device_ne_device he)
  · refine ⟨by rw [finishCall_frame], by rw [finishCall_frame], ?_, by rw [finishCall_frame],
      fun e => ?_⟩
    · rw [finishCall_lost, if_neg hm]
    · rw [finishCall_broker, if_neg hm]

theorem validate_eq_none_iff {type : DeviceType} {json : JsonParser} {response : Option Bytes}
    {shouldbe : Bytes} :
    type.validate json response shouldbe = none ↔ type = .hub ∧ response = none := by
  cases response <;> cases type <;> simp [DeviceType.validate]

theorem endWait_settles {d : ι} {w : DeviceWait} {r : Request ι} {response : Option Bytes}
    {fin : Finish}
    (hconn : r.conn = if w.method = .delist then .temp w.request else .device d)
    (hend : s.endWait cfg d w r response fin = some t) :
    Settles cfg s t d (w.method = .delist ∨ (cfg.kind d = .hub ∧ response = none)) := by
  have hfinish : ∀ {u : System ι} {ret : ChamgeReturn}, Quiet s u →
      (cfg.kind d).validate cfg.json response w.method.shouldbe ≠ none →
      Settles cfg s (u.finishCall cfg d (w.action, w.method) ret) d
        (w.method = .delist ∨ (cfg.kind d = .hub ∧ response = none)) := by
    intro u ret hu hv
    have hno : ¬ (cfg.kind d = .hub ∧ response = none) := fun h => hv (validate_eq_none_iff.mpr h)
    simpa only [hno, or_false] using hu.settles finishCall_settles
  rcases endWait_cases hend with ⟨hv, rfl⟩ | ⟨ret, hv, -, rfl⟩ | ⟨hv, ⟨-, rfl⟩ | ⟨hm, ret, -, rfl⟩ |
    ⟨hm, s₁, ret, hsub, rfl⟩⟩
  · -- the crash: the backend's connection is closed, and those of single requests
    have hlinks : ∀ e : ι, ((s.broker.close (.device d)).closeAll (s.linksOf d)).inboxOf
        (.device e) = (s.broker.close (.device d)).inboxOf (.device e) := fun e =>
      Broker.inboxOf_closeAll (not_mem_linksOf (by simp))
    refine ⟨fun _ => ⟨rfl, rfl, rfl, ?_, fun e he => ?_⟩, fun hno => ?_⟩
    · exact (hlinks d).trans Broker.inboxOf_close_self
    · exact (hlinks e).trans (Broker.inboxOf_close_ne (device_ne_device he))
    · exact absurd (Or.inr (validate_eq_none_iff.mp hv)) hno
  · exact hfinish (Quiet.refl s) (by simp [hv])
  · exact hfinish (Quiet.refl s) (by simp [hv])
  · have htemp : r.conn = .temp w.request := hconn.trans (if_pos hm)
    exact hfinish (closeLink_quiet fun e => by simp [htemp]) (by simp [hv])
  · refine ⟨fun hp => ?_, fun _ => (subscribe_quiet hsub).trans (Quiet.setDevice ..)⟩
    rcases hp with hp | hp
    · have hclash := hm.symm.trans hp
      cases hclash
    · have hclash := hv.symm.trans (validate_eq_none_iff.mpr hp)
      cases hclash

theorem waitPass_settles {d : ι} {w : DeviceWait} {r : Request ι} {o : ConsumeOutcome}
    {fin : Finish}
    (hconn : r.conn = if w.method = .delist then .temp w.request else .device d)
    (hpass : s.waitPass cfg d w r o fin = some t) :
    Settles cfg s t d (GivesUp cfg d w r o) := by
  rcases waitPass_cases hpass with ⟨hloop, rfl⟩ | ⟨e, hloop, hend⟩ | ⟨x, hloop, hne, hend⟩
  · exact ⟨fun hgive => absurd hloop hgive.1, fun _ => Quiet.setDevice ..⟩
  · have hgive : GivesUp cfg d w r o ↔
        (w.method = .delist ∨ (cfg.kind d = .hub ∧ strndup e.body = none)) := by
      simp [GivesUp, hloop, strndup_eq_none_iff]
    rw [hgive]
    exact endWait_settles hconn hend
  · have hgive : GivesUp cfg d w r o ↔
        (w.method = .delist ∨ (cfg.kind d = .hub ∧ (none : Option Bytes) = none)) := by
      simp [GivesUp, hloop, hne]
    rw [hgive]
    exact endWait_settles hconn hend

theorem call_settles {d : ι} {a : NodeAction} {start : Start}
    (h : s.call cfg d a start = some t) :
    Settles cfg s t d (methodReached (s.device d).node a = some .delist ∧
      ∀ cid rq, start ≠ .sent cid rq) := by
  obtain ⟨-, ⟨hm, rfl⟩ | ⟨hm, rfl⟩ | ⟨method, s₁, c, s₂, w, hm, hne, hopen, hstart, hw⟩⟩ :=
    call_cases h
  · refine ⟨fun hp => ?_, fun _ => Quiet.setDevice ..⟩
    have hclash := hm.symm.trans hp.1
    cases hclash
  · refine ⟨fun hp => ?_, fun _ => Quiet.setDevice ..⟩
    have hclash := hm.symm.trans hp.1
    cases hclash
  have hquiet : Quiet s s₂ := (openFor_quiet hopen).trans (startRequest_quiet hstart)
  rw [hm, Option.some.injEq]
  rcases hw with ⟨rfl, rfl⟩ | ⟨k, rfl, rfl⟩
  · have hunsent : ∀ cid rq, start ≠ .sent cid rq := by
      rcases startRequest_cases hstart with ⟨-, -, hno⟩ | ⟨_, _, -, ⟨-, rfl, -⟩ | ⟨hw, -⟩⟩
      · exact hno
      · intro cid rq hsent
        cases hsent
      · cases hw
    simpa only [hunsent, ne_eq, not_false_eq_true, implies_true, and_true] using
      hquiet.settles finishCall_settles
  · refine ⟨fun hp => ?_, fun _ => hquiet.trans (Quiet.setDevice ..)⟩
    rcases startRequest_cases hstart with ⟨hw, -⟩ | ⟨cid, rq, -, ⟨hw, -⟩ | ⟨-, hsent, -⟩⟩
    · cases hw
    · cases hw
    · exact absurd hsent (hp.2 cid rq)

/-! ### Steps that consume a message -/

/-- A message is taken from a connection and goes to the losses. -/
structure Takes (cfg : Config ι) (s t : System ι) (d : ι) (c : ConnId ι)
    (p : Bytes × Message) : Prop where
  delivered : t.delivered = s.delivered
  dispatched : t.dispatched = s.dispatched
  lost : t.lost = s.lost ++ [⟨c, p.1, p.2, s.registered cfg d⟩]
  agent : t.agent = s.agent
  own : s.broker.inboxOf c = p :: t.broker.inboxOf c
  others : ∀ e, ConnId.device e ≠ c →
    t.broker.inboxOf (.device e) = s.broker.inboxOf (.device e)

theorem Takes.conserved {d : ι} {c : ConnId ι} {p : Bytes × Message} (h : Takes cfg s t d c p)
    (hs : Conserved cfg s) : Conserved cfg t := by
  intro e p'
  obtain ⟨q, m⟩ := p
  have hcount := hs e p'
  simp only [System.deliveredTo, System.handedTo, h.delivered, h.dispatched, h.lost, lostFrom,
    List.filter_append, List.map_append, List.count_append] at hcount ⊢
  rw [hcount]
  by_cases hc : .device e = c
  · subst hc
    simp only [h.own, List.count_cons, List.filter_cons, decide_true, if_true, List.filter_nil,
      List.map_cons, List.map_nil, Lost.entry, List.count_nil]
    omega
  · simp [h.others e hc, Ne.symm hc]

theorem spares_taken {d : ι} {c : ConnId ι} {p : Bytes × Message}
    (hown : s.broker.inboxOf c = p :: t.broker.inboxOf c)
    (hc : c = .device d ∨ ∀ e, c ≠ .device e) :
    Spares cfg [⟨c, p.1, p.2, s.registered cfg d⟩] ↔
      (c = .device d → NoCommand cfg s d ((s.broker.inboxOf (.device d)).take 1)) := by
  rcases hc with rfl | hc
  · rw [hown, List.take_succ_cons, List.take_zero, ← spares_iff]
    simp
  · refine iff_of_true ?_ fun h => absurd h (hc d)
    intro e he d' hd'
    rw [List.mem_singleton.mp he] at hd'
    exact absurd hd' (hc d')

theorem Takes.noCommand {d : ι} {c : ConnId ι} {p : Bytes × Message}
    (h : Takes cfg s t d c p) (hc : c = .device d ∨ ∀ e, c ≠ .device e)
    (hp : Spares cfg [⟨c, p.1, p.2, s.registered cfg d⟩]) :
    NoCommand cfg t d (t.broker.inboxOf (.device d)) ↔
      NoCommand cfg s d (s.broker.inboxOf (.device d)) := by
  have hreg : t.registered cfg d = s.registered cfg d := by
    unfold System.registered
    rw [h.agent]
  rcases hc with rfl | hc
  · rw [spares_taken h.own (Or.inl rfl)] at hp
    have hhead := hp rfl
    rw [h.own] at hhead ⊢
    simp only [NoCommand, hreg, List.take_succ_cons, List.take_zero,
      List.forall_mem_cons] at hhead ⊢
    exact ⟨fun ht hr => ⟨(hhead hr).1, ht hr⟩, fun hs hr => (hs hr).2⟩
  · unfold NoCommand
    rw [hreg, h.others d (hc d).symm]

theorem receive_inbox {c : ConnId ι} {q : Bytes} {m : Message}
    {broker : Broker (ConnId ι) Bytes Message} (h : s.broker.receive c = some (q, m, broker)) :
    s.broker.inboxOf c = (q, m) :: broker.inboxOf c ∧ ∀ e, ConnId.device e ≠ c →
      broker.inboxOf (.device e) = s.broker.inboxOf (.device e) :=
  ⟨Broker.inboxOf_receive_self h, fun _ he => Broker.inboxOf_receive_ne h he⟩

/-! ### Runs -/

/-- A step keeps the ledger, and decides by itself whether a command is swallowed. -/
structure Decides (cfg : Config ι) (s t : System ι) (p : Prop) : Prop where
  conserved : Conserved cfg s → Conserved cfg t
  spares : Spares cfg s.lost → (Spares cfg t.lost ↔ p)

theorem Settles.decides {d : ι} {p : Prop} (h : Settles cfg s t d p) :
    Decides cfg s t (p → NoCommand cfg s d (s.broker.inboxOf (.device d))) :=
  ⟨h.conserved, fun hs => h.spares.trans (and_iff_right hs)⟩

theorem Quiet.decides (h : Quiet s t) : Decides cfg s t True :=
  ⟨h.conserved, fun hs => iff_of_true (by rwa [h.lost]) trivial⟩

theorem waitDevice_decides {d : ι} {failed : Option AmqpRpcReply} {fin : Finish}
    (hshape : Shaped cfg s) (h : s.waitDevice cfg d failed fin = some t) :
    Decides cfg s t (SparesCommands cfg s (.waitDevice d failed fin)) := by
  obtain ⟨w, r, hw, hr, hpass⟩ := waitDevice_cases h
  obtain ⟨r', hr', hconn, -⟩ := (hshape.device d w hw).request
  obtain rfl := Option.some.inj (hr.symm.trans hr')
  have hcond : SparesCommands cfg s (.waitDevice d failed fin) ↔
      (failed = none → r.conn = .device d →
        NoCommand cfg s d ((s.broker.inboxOf (.device d)).take 1)) ∧
      ∀ o, s.consumed r.conn failed = some o → GivesUp cfg d w r o →
        NoCommand cfg s d (s.broker.inboxOf (.device d)) := by
    refine ⟨fun hall => hall w r hw hr, fun hone w' r' hw' hr' => ?_⟩
    obtain rfl := Option.some.inj (hw.symm.trans hw')
    obtain rfl := Option.some.inj (hr.symm.trans hr')
    exact hone
  rw [hcond]
  rcases hpass with ⟨reply, rfl, -, hpass⟩ | ⟨q, m, broker, rfl, hrec, hpass⟩
  · have := (waitPass_settles hconn hpass).decides
    simpa [System.consumed] using this
  · have hc : r.conn = .device d ∨ ∀ e, r.conn ≠ .device e := by
      rw [hconn]
      split_ifs
      · exact Or.inr fun e => by simp
      · exact Or.inl rfl
    obtain ⟨hown, hothers⟩ := receive_inbox hrec
    -- the message is gone to the losses before the loop sees whether it is the answer
    obtain ⟨s₁, hs₁⟩ : ∃ s₁, s₁ = ({ s with broker }.logLost cfg d r.conn q m).logAccepted
        w.request r.correlationId m := ⟨_, rfl⟩
    rw [← hs₁] at hpass
    rw [logAccepted_frame] at hs₁
    have htakes : Takes cfg s s₁ d r.conn (q, m) := by
      rw [hs₁]
      exact ⟨rfl, rfl, rfl, rfl, hown, hothers⟩
    have hsettles := waitPass_settles hconn hpass
    refine ⟨fun hs => hsettles.conserved (htakes.conserved hs), fun hs => ?_⟩
    rw [hsettles.spares, htakes.lost, spares_append, and_iff_right hs, ← spares_taken htakes.own hc]
    simp only [System.consumed, hrec, Option.map_some, Option.some.injEq, forall_eq',
      forall_const]
    apply and_congr_right
    intro htaken
    apply imp_congr_right
    intro _
    exact htakes.noCommand hc htaken

theorem dispatch_inbox {c c' : ConnId ι} {address : ReplyAddress} {e : Dispatched ι} :
    (s.dispatch cfg c address e).broker.inboxOf c' = s.broker.inboxOf c' := by
  unfold System.dispatch System.answer
  split_ifs
  · exact Broker.inboxOf_publish
  · exact Broker.inboxOf_cancel

theorem dispatch_handed {c : ConnId ι} {address : ReplyAddress} {e : Dispatched ι} {d : ι} :
    (s.dispatch cfg c address e).handedTo cfg d = s.handedTo cfg d ++
      if e.handedTo cfg.json d then [(e.queue, e.message)] else [] := by
  rw [dispatch_frame, System.handedTo, System.handedTo, List.filter_append, List.map_append]
  congr 1
  cases h : e.handedTo cfg.json d <;> simp [h]

theorem dispatch_conserved {c : ConnId ι} {address : ReplyAddress} {e : Dispatched ι}
    (hs : Conserved cfg s) (he : ∀ d, e.handedTo cfg.json d = false) :
    Conserved cfg (s.dispatch cfg c address e) := by
  refine conserved_of_eq hs ?_ (fun d => ?_) ?_ fun d => dispatch_inbox
  · rw [dispatch_frame]
  · rw [dispatch_handed, he d]
    exact List.append_nil _
  · rw [dispatch_frame]

theorem handed_conserved {d : ι} {q : Bytes} {m : Message} {answer : Option Bytes}
    {address : ReplyAddress} {broker : Broker (ConnId ι) Bytes Message}
    (hown : s.broker.inboxOf (.device d) = (q, m) :: broker.inboxOf (.device d))
    (hothers : ∀ e, ConnId.device e ≠ .device d →
      broker.inboxOf (.device e) = s.broker.inboxOf (.device e))
    (hreach : reachesHandler cfg.json m.body = true) (hs : Conserved cfg s) :
    Conserved cfg (System.dispatch cfg { s with broker } (.device d) address
      ⟨q, m, .device d answer⟩) := by
  intro e p
  have hcount := hs e p
  have hhand : (⟨q, m, .device d answer⟩ : Dispatched ι).handedTo cfg.json e =
      decide (d = e) := by
    simp [Dispatched.handedTo, hreach]
  have hkeep : ({ s with broker } : System ι).handedTo cfg e =
    s.handedTo cfg e := rfl
  rw [dispatch_handed, dispatch_inbox, hhand, hkeep, List.count_append, dispatch_frame]
  change (s.deliveredTo e).count p = (broker.inboxOf (.device e)).count p + (_ + _) +
    ((lostFrom e s.lost).map Lost.entry).count p
  by_cases hed : e = d
  · subst hed
    rw [hown, List.count_cons] at hcount
    simp only [decide_true, if_true, List.count_singleton]
    omega
  · rw [hothers e (device_ne_device hed)]
    simp only [Ne.symm hed, decide_false, Bool.false_eq_true, if_false, List.count_nil]
    omega

theorem pumpDevice_decides {d : ι} {answer : Option Bytes}
    (h : s.pumpDevice cfg d answer = some t) :
    Decides cfg s t (SparesCommands cfg s (.pumpDevice d answer)) := by
  obtain ⟨-, -, q, m, broker, hrec, hcase⟩ := pumpDevice_cases h
  obtain ⟨hown, hothers⟩ := receive_inbox hrec
  have hcond : SparesCommands cfg s (.pumpDevice d answer) ↔
      (reachesHandler cfg.json m.body = false → NoCommand cfg s d [(q, m)]) := by
    simp only [SparesCommands, hown, List.take_succ_cons, List.take_zero,
      List.forall_mem_singleton]
  have htakes : Takes cfg s ({ s with broker }.logLost cfg d (.device d) q m) d (.device d)
      (q, m) := ⟨rfl, rfl, rfl, rfl, hown, hothers⟩
  have hspares : Spares cfg ({ s with broker }.logLost cfg d (.device d) q m).lost ↔
      Spares cfg s.lost ∧ NoCommand cfg s d [(q, m)] := by
    rw [htakes.lost, spares_append, ← spares_iff]
    rfl
  rw [hcond]
  rcases hcase with ⟨ha, rfl⟩ | ⟨address, lost, ha, hlost, rfl⟩
  · have hno : NoCommand cfg s d [(q, m)] := by
      rintro - p hp ⟨-, address, ha', -⟩
      rw [List.mem_singleton.mp hp] at ha'
      have hclash := ha.symm.trans ha'
      cases hclash
    exact ⟨htakes.conserved, fun hs => iff_of_true (hspares.mpr ⟨hs, hno⟩) fun _ => hno⟩
  -- a dispatched message counts as lost only where the body does not parse
  cases hreach : reachesHandler cfg.json m.body with
  | true =>
    rw [hreach, if_pos rfl] at hlost
    subst hlost
    refine ⟨handed_conserved hown hothers hreach, fun hs => iff_of_true ?_ fun hno => ?_⟩
    · rw [dispatch_frame]
      exact hs
    · cases hno
  | false =>
    rw [hreach, if_neg (by simp)] at hlost
    subst hlost
    refine ⟨fun hs => dispatch_conserved (htakes.conserved hs) fun e => ?_, fun hs => ?_⟩
    · simp [Dispatched.handedTo, hreach]
    · rw [dispatch_frame]
      simp only [forall_const]
      exact hspares.trans (and_iff_right hs)

theorem userCommand_quiet {cmd : Bytes} {start : Start}
    (h : s.userCommand cfg cmd start = some t) : Quiet s t := by
  obtain ⟨-, ⟨-, rfl⟩ | ⟨target, s₂, w, -, hstart, rfl⟩⟩ := userCommand_cases h
  · exact Quiet.refl _
  · have hconnect : Quiet s { s with broker := s.broker.connect (.temp s.requests.length) } :=
      Quiet.of_broker fun _ => rfl
    have hsent := hconnect.trans (startRequest_quiet hstart)
    exact hsent.trans ⟨rfl, rfl, rfl, rfl, fun _ => rfl⟩

theorem waitArbiter_quiet {failed : Option AmqpRpcReply} {fin : Finish} (hshape : Shaped cfg s)
    (h : s.waitArbiter failed fin = some t) : Quiet s t := by
  obtain ⟨k, r, hk, hr, s₁, hs₁, ht⟩ := waitArbiter_cases h
  obtain ⟨r', hr', hconn⟩ := hshape.arbiter k hk
  obtain rfl := Option.some.inj (hr.symm.trans hr')
  have hpassed : Quiet s s₁ := by
    rcases hs₁ with rfl | ⟨q, m, broker, hrec, rfl⟩
    · exact Quiet.refl _
    · rw [logAccepted_frame]
      exact ⟨rfl, rfl, rfl, rfl, fun d => (receive_inbox hrec).2 d (by simp [hconn])⟩
  rcases ht with rfl | rfl
  · exact hpassed
  · have hclosed : Quiet s₁ (s₁.closeLink r.conn fin) := by
      rw [hconn]
      exact closeLink_quiet fun d => by simp
    exact (hpassed.trans hclosed).trans ⟨rfl, rfl, rfl, rfl, fun _ => rfl⟩

theorem pumpArbiter_decides (h : s.pumpArbiter cfg = some t) : Decides cfg s t True := by
  obtain ⟨-, q, m, broker, hrec, ⟨-, rfl⟩ | ⟨address, -, rfl⟩⟩ := pumpArbiter_cases h
  · have hq : Quiet s { s with broker } :=
      Quiet.of_broker fun d => (receive_inbox hrec).2 d (by simp)
    exact hq.decides
  · refine ⟨fun hs => dispatch_conserved ?_ fun _ => rfl, fun hs => iff_of_true ?_ trivial⟩
    · refine conserved_of_eq hs rfl (fun _ => rfl) rfl fun d => ?_
      exact (receive_inbox hrec).2 d (by simp)
    · rw [dispatch_frame]
      exact hs

theorem deliver_decides {i : ℕ} {c : ConnId ι} (h : s.deliver i c = some t) :
    Decides cfg s t True := by
  obtain ⟨q, m, broker, hb, rfl⟩ := deliver_cases h
  refine ⟨fun hs d p => ?_, fun hs => iff_of_true hs trivial⟩
  have hcount := hs d p
  simp only [System.deliveredTo, System.handedTo, List.filter_append, List.map_append,
    List.count_append, Broker.inboxOf_deliver hb] at hcount ⊢
  rw [hcount]
  by_cases hc : c = .device d
  · simp only [hc, decide_true, List.filter_cons, if_true, List.filter_nil, List.map_cons,
      List.map_nil]
    omega
  · simp only [hc, decide_false, List.filter_cons, Bool.false_eq_true, if_false,
      List.filter_nil, List.map_nil, List.count_nil]
    omega

theorem commandsKept_step {l : Label ι} (hshape : Shaped cfg s)
    (h : (system cfg).step s l = some t) : Decides cfg s t (SparesCommands cfg s l) := by
  cases l with
  | call d a start =>
    have hcall := (call_settles h).decides
    simpa only [SparesCommands, and_imp] using hcall
  | waitDevice d failed fin => exact waitDevice_decides hshape h
  | pumpDevice d answer => exact pumpDevice_decides h
  | userCommand cmd start => exact (userCommand_quiet h).decides
  | waitArbiter failed fin => exact (waitArbiter_quiet hshape h).decides
  | pumpArbiter => exact pumpArbiter_decides h
  | deliver i c => exact deliver_decides h
  | lose i =>
    obtain ⟨broker, hb, rfl⟩ := Option.map_eq_some_iff.mp h
    have hq : Quiet s { s with broker } := Quiet.of_broker fun d => Broker.inboxOf_lose hb
    exact hq.decides
  | post q properties body =>
    obtain rfl := Option.some.inj h
    have hq : Quiet s { s with broker := s.broker.post q ⟨properties, body, .foreign⟩ } :=
      Quiet.of_broker fun d => Broker.inboxOf_post
    exact hq.decides

/-- In every run, no delivered command is swallowed exactly when every step spares the
commands. -/
theorem commands_kept_iff (cfg : Config ι) (ls : List (Label ι)) :
    (system cfg).Always (CommandsKept cfg) (.init cfg) ls ↔
      (system cfg).Along (SparesCommands cfg) (.init cfg) ls := by
  refine Machine.always_iff_along (I := fun s => Shaped cfg s ∧ Conserved cfg s)
    (fun s l t hI hstep => ⟨shaped_step hI.1 hstep, (commandsKept_step hI.1 hstep).conserved hI.2⟩)
    (fun s l t hI hJ hstep => ?_) ⟨shaped_init, fun _ _ => rfl⟩ fun _ _ _ => rfl
  have hdecides := commandsKept_step hI.1 hstep
  rw [commandsKept_iff (hdecides.conserved hI.2)]
  exact hdecides.spares ((commandsKept_iff hI.2).mp hJ)

def reactivationRun : List (Label Unit) :=
  activatedRun ++ [.call () .deactivate .refused, .call () .activate (sentAs 2),
    .userCommand (commandTo (cstr "edge-1")) (sentAs 3), .deliver 1 (.device ()),
    .waitDevice () none .ok]

/-- The subscription outlives the deactivation of the edge: a user command that arrives while
the edge waits for the answer to its next activate is taken by that wait loop and discarded. -/
theorem reactivation_swallows_command :
    ¬ (system loneEdge).Always (CommandsKept loneEdge) (.init loneEdge) reactivationRun := by
  intro h
  have hrun : ((system loneEdge).run (.init loneEdge) reactivationRun).any (fun s =>
      (s.deliveredTo ()).any (fun p => p.1 = loneEdge.uid () &&
        (replyAddress p.2.envelope).any (fun address => address.correlationId.isSome) &&
          decide ((s.deliveredTo ()).count p ≠ (s.broker.inboxOf (.device ())).count p +
            (s.handedTo loneEdge ()).count p +
            (((lostFrom () s.lost).filter fun e => !e.registered).map Lost.entry).count p))) =
      true := by decide +kernel
  obtain ⟨s, hs, hlost⟩ := (Option.any_eq_true ..).mp hrun
  obtain ⟨p, -, hp⟩ := List.any_eq_true.mp hlost
  simp only [Bool.and_eq_true, decide_eq_true_eq, Option.any_eq_true] at hp
  obtain ⟨⟨hq, address, ha, hid⟩, hne⟩ := hp
  exact hne (h.of_run hs () p ⟨hq, address, ha, Option.isSome_iff_ne_none.mp hid⟩)

end Chamge
