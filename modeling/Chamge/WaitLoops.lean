import Mathlib.Data.List.Induction
import Chamge.AmqpDevice
import Chamge.Correlation

/-! The three wait loops against deliveries that are not theirs: which one they take for the
answer, and after how many they give up. -/

namespace Chamge
open CString JsonGlib

/-! ### The own correlation id -/

def delivered (d : AmqpEnvelope) : ConsumeOutcome := ⟨.normal, d⟩

/-- The flag is set, and the id is the own one byte for byte and in length. -/
def exactId (cid : Bytes) (d : AmqpEnvelope) : Bool :=
  d.properties.correlationIdFlag && d.properties.correlationId = cid

/-- The deliveries that the loop can come to: its counter lets one more than the limit
through. -/
def RpcCopy.window (copy : RpcCopy) (ds : List AmqpEnvelope) : List AmqpEnvelope :=
  match copy.limit with
  | none => ds
  | some limit => ds.take (limit + 1)

def RpcCopy.waitResponse (copy : RpcCopy) (cid : Bytes) (ds : List AmqpEnvelope) : Option Bytes :=
  (waitLoop copy.limit cid 0 (ds.map delivered)).bind WaitExit.response

/-- The response is the body of the first delivery with the own id, and every other delivery
that the loop comes to is discarded. -/
structure OnlyOwnId (copy : RpcCopy) (cid : Bytes) (ds : List AmqpEnvelope) : Prop where
  response : copy.waitResponse cid ds =
    ((copy.window ds).find? (exactId cid)).map AmqpEnvelope.body
  others : ∀ pre d post, copy.window ds = pre ++ d :: post →
    (∀ x ∈ pre, waitVerdict cid (delivered x) = .discard) → exactId cid d = false →
      waitVerdict cid (delivered d) = .discard

/-- An id that `strncmp` over its own length cannot tell from `cid`: a part of it from the
front, or all of it with a NUL behind it. -/
def MistakenId (cid : Bytes) (d : AmqpEnvelope) : Prop :=
  d.properties.correlationIdFlag = true ∧
    (d.properties.correlationId <+: cid ∧ d.properties.correlationId ≠ cid ∨
      cid ++ [0] <+: d.properties.correlationId)

/-- No mistaken id is delivered before the own one, whose body a C string holds in full. -/
def KeepsToOwnId (cid : Bytes) (ds : List AmqpEnvelope) : Prop :=
  (∀ pre d post, ds = pre ++ d :: post → (∀ x ∈ pre, exactId cid x = false) →
      ¬ MistakenId cid d) ∧
    ∀ d, ds.find? (exactId cid) = some d → Clean d.body

def accepted (cid : Bytes) (d : AmqpEnvelope) : Bool :=
  d.properties.correlationIdFlag &&
    strncmp cid d.properties.correlationId d.properties.correlationId.length = 0

variable {copy : RpcCopy} {cid : Bytes} {d : AmqpEnvelope} {ds : List AmqpEnvelope}

theorem waitVerdict_delivered (cid : Bytes) (d : AmqpEnvelope) :
    waitVerdict cid (delivered d) = if accepted cid d then .reply d else .discard := by
  simp only [waitVerdict, delivered, accepted]
  by_cases hflag : d.properties.correlationIdFlag = true
  · by_cases hcmp : strncmp cid d.properties.correlationId d.properties.correlationId.length = 0
    · simp [hflag, hcmp]
    · simp [hflag, hcmp]
  · simp only [Bool.not_eq_true] at hflag
    simp only [hflag, if_true, Bool.false_and, Bool.false_eq_true, if_false]

theorem discard_iff : waitVerdict cid (delivered d) = .discard ↔ accepted cid d = false := by
  rw [waitVerdict_delivered]
  cases accepted cid d <;> simp

theorem accepted_iff (hcid : (0 : UInt8) ∉ cid) :
    accepted cid d = true ↔ exactId cid d = true ∨ MistakenId cid d := by
  have hself : ¬ cid ++ [0] <+: cid := fun h => by
    have hlength := h.length_le
    rw [List.length_append] at hlength
    exact Nat.not_succ_le_self _ hlength
  simp only [accepted, exactId, MistakenId, Bool.and_eq_true, decide_eq_true_eq,
    strncmp_length_eq_zero_iff hcid, ← and_or_left, and_congr_right_iff]
  intro _
  by_cases heq : d.properties.correlationId = cid
  · simp [heq]
  · simp [heq]

theorem accepted_of_exactId (h : exactId cid d = true) : accepted cid d = true := by
  simp only [exactId, Bool.and_eq_true, decide_eq_true_eq] at h
  simp [accepted, h.1, h.2, strncmp_self]

/-- On deliveries alone the loop is a search. -/
theorem waitLoop_delivered (limit : Option ℕ) (cid : Bytes) (k : ℕ) (ds : List AmqpEnvelope) :
    (waitLoop limit cid k (ds.map delivered)).bind WaitExit.response =
      ((match limit with
        | none => ds
        | some n => ds.take (n + 1 - k)).find? (accepted cid)).bind fun d => strndup d.body := by
  induction ds generalizing k with
  | nil =>
    simp only [List.map_nil, waitLoop]
    cases limit <;> split_ifs <;> simp [WaitExit.response]
  | cons d ds ih =>
    rw [List.map_cons]
    cases hover : overLimit limit k with
    | true =>
      cases limit with
      | none => simp [overLimit] at hover
      | some n =>
        simp only [overLimit, Option.any_some, decide_eq_true_eq] at hover
        have htake : n + 1 - k = 0 := by omega
        simp [waitLoop, overLimit, hover, htake, WaitExit.response]
    | false =>
      have hverdict := waitVerdict_delivered cid d
      cases haccepted : accepted cid d with
      | true =>
        rw [haccepted, if_pos rfl] at hverdict
        rw [waitLoop_stop hover (x := .reply d) (by rw [hverdict]; rfl)]
        cases limit with
        | none => simp [haccepted, WaitExit.response]
        | some n =>
          simp only [overLimit, Option.any_some, decide_eq_false_iff_not, not_lt] at hover
          have htake : n + 1 - k = n - k + 1 := by omega
          simp [htake, haccepted, WaitExit.response]
      | false =>
        rw [haccepted] at hverdict
        rw [waitLoop_cons_discard hover hverdict, ih]
        cases limit with
        | none => simp [haccepted]
        | some n =>
          simp only [overLimit, Option.any_some, decide_eq_false_iff_not, not_lt] at hover
          have htake : n + 1 - k = n - k + 1 := by omega
          have hrest : n + 1 - (k + 1) = n - k := by omega
          simp [htake, hrest, haccepted]

theorem waitResponse_eq (copy : RpcCopy) (cid : Bytes) (ds : List AmqpEnvelope) :
    copy.waitResponse cid ds =
      ((copy.window ds).find? (accepted cid)).bind fun d => strndup d.body := by
  cases copy <;> exact waitLoop_delivered _ cid 0 ds

/-- Before the first delivery with the own id no delivery is accepted. -/
theorem accepted_of_before {pre post : List AmqpEnvelope} {ws : List AmqpEnvelope}
    (hws : ws = pre ++ post) (hpre : ∀ x ∈ pre, exactId cid x = false)
    (hothers : ∀ pre d post, ws = pre ++ d :: post →
      (∀ x ∈ pre, waitVerdict cid (delivered x) = .discard) → exactId cid d = false →
        waitVerdict cid (delivered d) = .discard) : ∀ x ∈ pre, accepted cid x = false := by
  induction pre using List.reverseRecOn generalizing post with
  | nil => exact fun x hx => absurd hx List.not_mem_nil
  | append_singleton pre d ih =>
    rw [List.forall_mem_append, List.forall_mem_singleton] at hpre ⊢
    rw [List.append_assoc, List.singleton_append] at hws
    have hbefore := ih hws hpre.1
    have hdiscard := hothers pre d post hws (fun x hx => discard_iff.mpr (hbefore x hx)) hpre.2
    exact ⟨hbefore, discard_iff.mp hdiscard⟩

theorem find?_accepted (h : ∀ pre post, ds = pre ++ post → (∀ x ∈ pre, exactId cid x = false) →
    ∀ x ∈ pre, accepted cid x = false) : ds.find? (accepted cid) = ds.find? (exactId cid) := by
  cases hfind : ds.find? (exactId cid) with
  | none =>
    have hnone : ∀ x ∈ ds, exactId cid x = false := by simpa using List.find?_eq_none.mp hfind
    have hrefused := h ds [] (List.append_nil ds).symm hnone
    exact List.find?_eq_none.mpr fun x hx => by simp [hrefused x hx]
  | some d =>
    obtain ⟨hd, pre, post, rfl, hpre⟩ := List.find?_eq_some_iff_append.mp hfind
    have hrefused := h pre (d :: post) rfl (by simpa using hpre)
    refine List.find?_eq_some_iff_append.mpr ⟨accepted_of_exactId hd, pre, post, rfl, ?_⟩
    exact fun x hx => by simp [hrefused x hx]

theorem not_exactId_of_mistaken (h : MistakenId cid d) : exactId cid d = false := by
  obtain ⟨-, ⟨-, hne⟩ | hlong⟩ := h
  · simp [exactId, hne]
  · have hne : d.properties.correlationId ≠ cid := by
      rintro rfl
      have hlength := hlong.length_le
      rw [List.length_append] at hlength
      exact Nat.not_succ_le_self _ hlength
    simp [exactId, hne]

/-- A wait loop keeps to the own id exactly when no delivery before the own one brings an id
that is mistaken for it, and the own one's body is not empty and holds no NUL. -/
theorem only_own_id_iff (copy : RpcCopy) (hcid : isChecksum cid = true) (ds : List AmqpEnvelope) :
    OnlyOwnId copy cid ds ↔ KeepsToOwnId cid (copy.window ds) := by
  have hzero : (0 : UInt8) ∉ cid := (clean_of_isChecksum hcid).2
  constructor
  · intro h
    have hbefore : ∀ pre post, copy.window ds = pre ++ post →
        (∀ x ∈ pre, exactId cid x = false) → ∀ x ∈ pre, accepted cid x = false :=
      fun pre post hws hpre => accepted_of_before hws hpre h.others
    constructor
    · intro pre d post hws hpre hmistaken
      have hall : ∀ x ∈ pre ++ [d], exactId cid x = false := by
        rw [List.forall_mem_append, List.forall_mem_singleton]
        exact ⟨hpre, not_exactId_of_mistaken hmistaken⟩
      have hrefused := hbefore (pre ++ [d]) post (by simpa using hws) hall d (by simp)
      have haccepted := (accepted_iff hzero).mpr (Or.inr hmistaken)
      exact Bool.noConfusion (hrefused.symm.trans haccepted)
    · intro d hd
      have hresponse := h.response
      rw [waitResponse_eq, find?_accepted hbefore, hd, Option.bind_some, Option.map_some]
        at hresponse
      exact (strndup_eq_self_iff _).mp hresponse
  · rintro ⟨hmistaken, hclean⟩
    have hbefore : ∀ pre post, copy.window ds = pre ++ post →
        (∀ x ∈ pre, exactId cid x = false) → ∀ x ∈ pre, accepted cid x = false := by
      intro pre post hws hpre x hx
      obtain ⟨as, bs, rfl⟩ := List.append_of_mem hx
      rw [List.forall_mem_append, List.forall_mem_cons] at hpre
      by_contra haccepted
      rcases (accepted_iff hzero).mp (by simpa using haccepted) with hexact | hbad
      · exact Bool.noConfusion (hpre.2.1.symm.trans hexact)
      · exact hmistaken as x (bs ++ post) (by simpa using hws) hpre.1 hbad
    constructor
    · rw [waitResponse_eq, find?_accepted hbefore]
      cases hd : (copy.window ds).find? (exactId cid) with
      | none => rfl
      | some d => exact (strndup_eq_self_iff _).mpr (hclean d hd)
    · intro pre d post hws hpre hd
      have hnone : ∀ x ∈ pre ++ [d], exactId cid x = false := by
        rw [List.forall_mem_append, List.forall_mem_singleton]
        refine ⟨fun x hx => ?_, hd⟩
        by_contra hexact
        have haccepted := accepted_of_exactId (by simpa using hexact)
        exact Bool.noConfusion ((discard_iff.mp (hpre x hx)).symm.trans haccepted)
      exact discard_iff.mpr (hbefore (pre ++ [d]) post (by simpa using hws) hnone d (by simp))

def ownReply (body : Bytes) : AmqpEnvelope :=
  ⟨1, replyProperties (some openPrelude.correlationId), body⟩

/-- A reply with another id and a message without one come before the own reply. -/
def mixedReplies : List AmqpEnvelope :=
  [⟨1, replyProperties (some (List.replicate 64 102)), cstr "foreign"⟩,
    ⟨1, replyProperties none, cstr "unmarked"⟩, ownReply (cstr "ok")]

theorem own_reply_returned : OnlyOwnId .edge openPrelude.correlationId mixedReplies ∧
    RpcCopy.edge.waitResponse openPrelude.correlationId mixedReplies = some (cstr "ok") := by
  have hzero : (0 : UInt8) ∉ openPrelude.correlationId := by decide
  have hsame : ∀ d ∈ RpcCopy.edge.window mixedReplies,
      accepted openPrelude.correlationId d = exactId openPrelude.correlationId d := by decide
  refine ⟨(only_own_id_iff .edge (by decide) mixedReplies).mpr ⟨?_, fun d hd => ?_⟩, by decide⟩
  · intro pre d post hsplit hpre hmistaken
    have haccepted := (accepted_iff hzero).mpr (Or.inr hmistaken)
    rw [hsame d (hsplit ▸ by simp), not_exactId_of_mistaken hmistaken] at haccepted
    cases haccepted
  · have hfind : (RpcCopy.edge.window mixedReplies).find? (exactId openPrelude.correlationId) =
        some (ownReply (cstr "ok")) := by decide
    rw [← Option.some.inj (hfind.symm.trans hd)]
    decide

/-- A foreign reply with an empty correlation id is taken for the answer. -/
theorem empty_id_accepted : ¬ OnlyOwnId .edge openPrelude.correlationId
    [⟨1, replyProperties (some []), cstr "foreign"⟩] := by
  intro h
  have hresponse := h.response
  have hforeign : RpcCopy.edge.waitResponse openPrelude.correlationId
      [⟨1, replyProperties (some []), cstr "foreign"⟩] = some (cstr "foreign") := by decide
  rw [hforeign] at hresponse
  cases hresponse

/-! ### The end of the wait -/

/-- The loop stops after at most 11 calls of `amqp_consume_message`. -/
def WaitEnds (copy : RpcCopy) (cid : Bytes) (f : ℕ → ConsumeOutcome) : Prop :=
  ∃ n ≤ 11, ∃ x, waitLoop copy.limit cid 0 ((Trace.infinite f).take n) = some x

/-- A delivery without a correlation id, or with one that differs. -/
def Foreign (cid : Bytes) (o : ConsumeOutcome) : Prop :=
  o.reply = .normal ∧ accepted cid o.envelope = false

theorem foreign_iff {o : ConsumeOutcome} : Foreign cid o ↔ waitVerdict cid o = .discard := by
  obtain ⟨reply, d⟩ := o
  cases reply with
  | normal => simp [Foreign, ← discard_iff, delivered]
  | missing | serverException => simp [Foreign, waitVerdict]
  | libraryException error =>
    simp only [Foreign, waitVerdict]
    split_ifs <;> simp

/-- The arbiter's loop, which counts nothing, needs one of the first 11 outcomes to end it. -/
theorem wait_ends_iff (copy : RpcCopy) (cid : Bytes) (f : ℕ → ConsumeOutcome) :
    WaitEnds copy cid f ↔ (copy = .arbiter → ∃ i < 11, ¬ Foreign cid (f i)) := by
  have hnone (n : ℕ) : waitLoop copy.limit cid 0 ((Trace.infinite f).take n) = none ↔
      (∀ i < n, Foreign cid (f i)) ∧ overLimit copy.limit n = false := by
    rw [waitLoop_eq_none_iff]
    simp only [Trace.take, List.forall_mem_map, List.mem_range, List.length_map,
      List.length_range, Nat.zero_add, foreign_iff]
  constructor
  · rintro ⟨n, hn, x, hx⟩ rfl
    by_contra hforeign
    simp only [not_exists, not_and, not_not] at hforeign
    have hwaits := (hnone n).mpr ⟨fun i hi => hforeign i (Nat.lt_of_lt_of_le hi hn), rfl⟩
    cases hwaits.symm.trans hx
  · intro h
    refine ⟨11, le_rfl, Option.ne_none_iff_exists'.mp fun hwaits => ?_⟩
    obtain ⟨hforeign, hover⟩ := (hnone 11).mp hwaits
    cases copy with
    | edge | hub => exact absurd hover (by decide)
    | arbiter =>
      obtain ⟨i, hi, hnot⟩ := h rfl
      exact hnot (hforeign i hi)

def foreignReply : AmqpEnvelope := ⟨1, replyProperties none, []⟩

/-- Replies to somebody else keep the arbiter waiting. -/
theorem foreign_replies_hold_arbiter :
    ¬ WaitEnds .arbiter openPrelude.correlationId fun _ => delivered foreignReply := by
  rintro ⟨n, -, x, hx⟩
  have hforeign : ∀ o ∈ (Trace.infinite fun _ => delivered foreignReply).take n,
      waitVerdict openPrelude.correlationId o = .discard := by
    simp only [Trace.take, List.forall_mem_map]
    exact fun _ _ => rfl
  cases (waitLoop_eq_none_iff.mpr ⟨hforeign, rfl⟩).symm.trans hx

end Chamge
