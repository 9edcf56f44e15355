import Chamge.AmqpSource

/-! When the source may sleep: whether a message that has been read can stay unhandled in
the inbound buffer while the main loop polls the socket. -/

namespace Chamge
open CString

def takenBytes (reads : List Recv) : ℕ := (reads.map Recv.taken).sum

def arrivingBytes (reads : List Recv) : ℕ := (reads.map Recv.arriving).sum

/-- The main loop goes to sleep: nothing is prepared and the socket is drained. -/
def Sleeping (s : SourceState) : Prop := chamgeAmqpSourcePrepare s = false ∧ s.conn.unread = 0

/-- No complete message is left in the queue or at the front of the buffer. -/
def NothingWaiting (c : Inbound) : Prop :=
  c.frames = [] ∧ ∀ f rest, c.stream = f :: rest → c.buffered < f.size

def NoLostWakeup (s : SourceState) : Prop := Sleeping s → NothingWaiting s.conn

/-- The reads drain the socket and bring, behind the frames `used`, one more whole frame. -/
def ReadsPast (c : Inbound) (reads : List Recv) (used : List Frame) : Prop :=
  c.unread + arrivingBytes reads = takenBytes reads ∧ ∃ f rest, c.stream = used ++ f :: rest ∧
    totalSize (used ++ [f]) ≤ c.buffered + takenBytes reads

/-- The step takes its one message from the queue or, with the queue empty, as the next
frame, and the reply it waits for, if any, comes next; and its reads drain the socket and
bring another whole message behind these. -/
def Overruns (s : SourceState) : SourceLabel → Prop
  | .send _ | .arrive _ => False
  | .activate call =>
    s.conn.frames = [] ∧ ReadsPast (s.conn.expect call) call.reads [call.reply]
  | .iterate reads none =>
    ∃ first : List Frame, s.conn.frames.length + first.length = 1 ∧
      (∀ f ∈ first, f.message ≠ none) ∧ ReadsPast s.conn reads first
  | .iterate reads (some call) =>
    ∃ first : List Frame, s.conn.frames.length + first.length = 1 ∧
      (∀ f ∈ first, f.message ≠ none) ∧
      ReadsPast (s.conn.expect call) (reads ++ call.reads) (first ++ [call.reply])

/-! ### Bytes and frames -/

@[simp] theorem totalSize_nil : totalSize [] = 0 := rfl

@[simp] theorem totalSize_cons (f : Frame) (l : List Frame) :
    totalSize (f :: l) = f.size + totalSize l := by
  simp only [totalSize, List.map_cons, List.sum_cons]

@[simp] theorem totalSize_append (l m : List Frame) :
    totalSize (l ++ m) = totalSize l + totalSize m := by
  simp only [totalSize, List.map_append, List.sum_append]

@[simp] theorem takenBytes_append (l m : List Recv) :
    takenBytes (l ++ m) = takenBytes l + takenBytes m := by
  simp only [takenBytes, List.map_append, List.sum_append]

@[simp] theorem arrivingBytes_append (l m : List Recv) :
    arrivingBytes (l ++ m) = arrivingBytes l + arrivingBytes m := by
  simp only [arrivingBytes, List.map_append, List.sum_append]

/-- The buffer and the socket hold no more than was sent. -/
def Inbound.Bounded (c : Inbound) : Prop := c.buffered + c.unread ≤ totalSize c.stream

/-- What a step has done to the connection: `used` frames decoded, the bytes of its reads
taken from the socket. -/
structure Progress (c : Inbound) (reads : List Recv) (used : List Frame) (d : Inbound) :
    Prop where
  stream : c.stream = used ++ d.stream
  buffered : d.buffered + totalSize used = c.buffered + takenBytes reads
  unread : d.unread + takenBytes reads = c.unread + arrivingBytes reads
  bounded : c.Bounded → d.Bounded

theorem Progress.refl (c : Inbound) : Progress c [] [] c := ⟨rfl, rfl, rfl, id⟩

theorem Progress.trans {c d e : Inbound} {reads reads' : List Recv} {used used' : List Frame}
    (h : Progress c reads used d) (h' : Progress d reads' used' e) :
    Progress c (reads ++ reads') (used ++ used') e := by
  refine ⟨by rw [h.stream, h'.stream, List.append_assoc], ?_, ?_, h'.bounded ∘ h.bounded⟩
  · have h1 := h.buffered
    have h2 := h'.buffered
    simp only [totalSize_append, takenBytes_append]
    omega
  · have h1 := h.unread
    have h2 := h'.unread
    simp only [takenBytes_append, arrivingBytes_append]
    omega

theorem recv_progress {c d : Inbound} {r : Recv} (h : c.recv r = some d) :
    Progress c [r] [] d ∧ d.frames = c.frames := by
  simp only [Inbound.recv, Inbound.arrive, Option.bind_eq_some_iff] at h
  obtain ⟨c', hc', hd⟩ := h
  split_ifs at hc' hd with harr htake
  obtain rfl := Option.some.inj hc'
  obtain rfl := Option.some.inj hd
  refine ⟨⟨rfl, by simp [takenBytes], ?_, fun _ => ?_⟩, rfl⟩
  · simp only [takenBytes, arrivingBytes, List.map_cons, List.map_nil, List.sum_cons,
      List.sum_nil, add_zero] at htake ⊢
    omega
  · simp only [Inbound.Bounded] at htake ⊢
    omega

theorem decode_progress {c d : Inbound} {f : Frame} (h : c.decode = some (f, d)) :
    Progress c [] [f] d ∧ d.frames = c.frames := by
  unfold Inbound.decode at h
  cases hs : c.stream with
  | nil => simp [hs] at h
  | cons g rest =>
    simp only [hs] at h
    split_ifs at h with hsize
    obtain ⟨rfl, rfl⟩ := Prod.mk.inj (Option.some.inj h)
    refine ⟨⟨hs, by simp [takenBytes]; omega, rfl, fun hb => ?_⟩, rfl⟩
    simp only [Inbound.Bounded, hs, totalSize_cons] at hb ⊢
    omega

theorem decode_eq_none_iff {c : Inbound} :
    c.decode = none ↔ ∀ f rest, c.stream = f :: rest → c.buffered < f.size := by
  unfold Inbound.decode
  cases hs : c.stream with
  | nil => simp
  | cons g rest =>
    simp only [List.cons.injEq, and_imp, ite_eq_right_iff,
      reduceCtorEq, imp_false, not_le]
    exact ⟨fun h f _ hf _ => hf ▸ h, fun h => h g rest rfl rfl⟩

theorem consumeStream_progress {reads : List Recv} {c d : Inbound} {o : Option AmqpEnvelope}
    (h : consumeStream reads c = some (o, d)) : d.frames = c.frames ∧
      match o with
      | some e => ∃ f, f.message = some e ∧ Progress c reads [f] d
      | none => Progress c reads [] d ∧ d.unread = 0 ∧ d.decode = none := by
  induction reads generalizing c with
  | nil =>
    simp only [consumeStream] at h
    cases hdec : c.decode with
    | some fr =>
      obtain ⟨f, rest⟩ := fr
      simp only [hdec, Option.map_eq_some_iff] at h
      obtain ⟨e, he, heq⟩ := h
      obtain ⟨rfl, rfl⟩ := Prod.mk.inj heq
      obtain ⟨hp, hf⟩ := decode_progress hdec
      exact ⟨hf, f, he, hp⟩
    | none =>
      simp only [hdec] at h
      split_ifs at h with hu
      obtain ⟨rfl, rfl⟩ := Prod.mk.inj (Option.some.inj h)
      exact ⟨rfl, Progress.refl c, hu, hdec⟩
  | cons r reads ih =>
    simp only [consumeStream] at h
    cases hdec : c.decode with
    | some fr => simp [hdec] at h
    | none =>
      simp only [hdec, Option.bind_eq_some_iff] at h
      obtain ⟨c', hr, hrest⟩ := h
      obtain ⟨hp, hf⟩ := recv_progress hr
      obtain ⟨hf', hprog⟩ := ih hrest
      refine ⟨hf'.trans hf, ?_⟩
      cases o with
      | some e =>
        obtain ⟨f, he, hp'⟩ := hprog
        exact ⟨f, he, hp.trans hp'⟩
      | none =>
        obtain ⟨hp', hu, hd⟩ := hprog
        exact ⟨hp.trans hp', hu, hd⟩

theorem consumeMessage_progress {reads : List Recv} {c d : Inbound} {o : Option AmqpEnvelope}
    (h : amqpConsumeMessage c reads = some (o, d)) :
    match o with
    | some e => ∃ first : List Frame, (∀ f ∈ first, f.message ≠ none) ∧
        first.length = 1 - c.frames.length ∧ Progress c reads first d ∧
        c.frames ++ messagesOf first = e :: d.frames
    | none => c.frames = [] ∧ d.frames = [] ∧ Progress c reads [] d ∧ d.unread = 0 ∧
        d.decode = none := by
  unfold amqpConsumeMessage at h
  cases hq : c.frames with
  | cons e' frames =>
    simp only [hq] at h
    split_ifs at h with hreads
    obtain ⟨rfl, rfl⟩ := Prod.mk.inj (Option.some.inj h)
    obtain rfl := List.isEmpty_iff.mp hreads
    exact ⟨[], by simp, by simp, ⟨rfl, rfl, rfl, id⟩, by simp [messagesOf]⟩
  | nil =>
    simp only [hq] at h
    obtain ⟨hf, hprog⟩ := consumeStream_progress h
    cases o with
    | none =>
      obtain ⟨hp, hu, hd⟩ := hprog
      exact ⟨rfl, hf.trans hq, hp, hu, hd⟩
    | some e =>
      obtain ⟨f, he, hp⟩ := hprog
      refine ⟨[f], by simp [he], rfl, hp, ?_⟩
      simp [messagesOf, he, hf.trans hq]

theorem decodeReply_spec {stream stream' : List Frame} {n n' : ℕ}
    {frames frames' : List AmqpEnvelope} {found : Bool}
    (h : decodeReply stream n frames = (found, stream', n', frames')) :
    ∃ msgs replies : List Frame, (∀ f ∈ msgs, f.message ≠ none) ∧
      (∀ f ∈ replies, f.message = none) ∧ replies.length = found.toNat ∧
      stream = msgs ++ replies ++ stream' ∧ n' + totalSize (msgs ++ replies) = n ∧
      frames' = frames ++ messagesOf msgs := by
  induction stream generalizing n frames with
  | nil =>
    obtain ⟨rfl, rfl, rfl, rfl⟩ : false = found ∧ [] = stream' ∧ n = n' ∧ frames = frames' := by
      simpa [decodeReply] using h
    exact ⟨[], [], by simp, by simp, rfl, rfl, rfl, by simp [messagesOf]⟩
  | cons f rest ih =>
    simp only [decodeReply] at h
    split_ifs at h with hsize
    · cases hm : f.message with
      | some e =>
        simp only [hm] at h
        obtain ⟨msgs, replies, hmsg, hrep, hlen, hsplit, hn, hframes⟩ := ih h
        refine ⟨f :: msgs, replies, ?_, hrep, hlen, by rw [hsplit]; rfl, ?_, ?_⟩
        · have hf : f.message ≠ none := by simp [hm]
          exact List.forall_mem_cons.mpr ⟨hf, hmsg⟩
        · simp only [List.cons_append, totalSize_cons]
          omega
        · simp [hframes, messagesOf, hm]
      | none =>
        simp only [hm, Prod.mk.injEq] at h
        obtain ⟨rfl, rfl, rfl, rfl⟩ := h
        refine ⟨[], [f], by simp, by simp [hm], rfl, rfl, ?_, by simp [messagesOf]⟩
        simp
        omega
    · simp only [Prod.mk.injEq] at h
      obtain ⟨rfl, rfl, rfl, rfl⟩ := h
      exact ⟨[], [], by simp, by simp, rfl, rfl, rfl, by simp [messagesOf]⟩

theorem decodeReply_progress {c : Inbound} {stream : List Frame} {n : ℕ}
    {frames : List AmqpEnvelope} {found : Bool}
    (h : decodeReply c.stream c.buffered c.frames = (found, stream, n, frames)) :
    ∃ msgs replies : List Frame, (∀ f ∈ msgs, f.message ≠ none) ∧
      (∀ f ∈ replies, f.message = none) ∧ replies.length = found.toNat ∧
      Progress c [] (msgs ++ replies) { c with stream, buffered := n, frames } ∧
      frames = c.frames ++ messagesOf msgs := by
  obtain ⟨msgs, replies, hmsg, hrep, hlen, hsplit, hn, hframes⟩ := decodeReply_spec h
  refine ⟨msgs, replies, hmsg, hrep, hlen, ⟨hsplit, hn, rfl, fun hb => ?_⟩, hframes⟩
  simp only [Inbound.Bounded, hsplit, totalSize_append] at hb hn ⊢
  omega

theorem awaitReply_progress {reads : List Recv} {c d : Inbound}
    (h : awaitReply reads c = some d) : ∃ (msgs : List Frame) (reply : Frame),
    (∀ f ∈ msgs, f.message ≠ none) ∧ reply.message = none ∧
      Progress c reads (msgs ++ [reply]) d ∧ d.frames = c.frames ++ messagesOf msgs := by
  induction reads generalizing c with
  | nil =>
    rw [awaitReply] at h
    split at h
    · rename_i stream n frames hdec
      obtain rfl := Option.some.inj h
      obtain ⟨msgs, replies, hmsg, hrep, hlen, hprog, hframes⟩ := decodeReply_progress hdec
      obtain ⟨reply, rfl⟩ := List.length_eq_one_iff.mp hlen
      exact ⟨msgs, reply, hmsg, hrep reply (List.mem_singleton_self _), hprog, hframes⟩
    · simp at h
  | cons r reads ih =>
    rw [awaitReply] at h
    split at h
    · simp at h
    · rename_i stream n frames hdec
      obtain ⟨c', hr, hrest⟩ := Option.bind_eq_some_iff.mp h
      obtain ⟨msgs, replies, hmsg, -, hlen, hprog, hframes⟩ := decodeReply_progress hdec
      -- the buffer has no reply yet: all that it held are messages
      obtain rfl := List.eq_nil_of_length_eq_zero hlen
      obtain ⟨hprog', hf⟩ := recv_progress hr
      obtain ⟨msgs', reply, hmsg', hreply, hprog'', hf'⟩ := ih hrest
      have hall := (hprog.trans hprog').trans hprog''
      simp only [List.append_nil, List.nil_append, List.singleton_append,
        ← List.append_assoc] at hall
      refine ⟨msgs ++ msgs', reply, fun f hf => ?_, hreply, hall, ?_⟩
      · exact (List.mem_append.mp hf).elim (hmsg f) (hmsg' f)
      · rw [hf', hf, hframes]
        simp [messagesOf]

theorem reply_split {pre pre' post post' : List Frame} {r r' : Frame}
    (h : pre ++ r :: post = pre' ++ r' :: post') (hpre : ∀ f ∈ pre, f.message ≠ none)
    (hpre' : ∀ f ∈ pre', f.message ≠ none) (hr : r.message = none) (hr' : r'.message = none) :
    pre = pre' ∧ r = r' := by
  induction pre generalizing pre' with
  | nil =>
    cases pre' with
    | nil => exact ⟨rfl, (List.cons.inj h).1⟩
    | cons f pre' =>
      have hf : f.message = none := (List.cons.inj h).1 ▸ hr
      exact absurd hf (hpre' f (List.mem_cons_self ..))
  | cons f pre ih =>
    cases pre' with
    | nil =>
      have hf : f.message = none := (List.cons.inj h).1 ▸ hr'
      exact absurd hf (hpre f (List.mem_cons_self ..))
    | cons g pre' =>
      obtain ⟨rfl, htail⟩ := List.cons.inj h
      have htl : ∀ f ∈ pre, f.message ≠ none := fun f hf => hpre f (List.mem_cons_of_mem _ hf)
      have htl' : ∀ f ∈ pre', f.message ≠ none := fun f hf => hpre' f (List.mem_cons_of_mem _ hf)
      obtain ⟨rfl, rfl⟩ := ih htail htl htl'
      exact ⟨rfl, rfl⟩

theorem messagesOf_eq_nil {l : List Frame} (hl : ∀ f ∈ l, f.message ≠ none) :
    messagesOf l = [] ↔ l = [] := by
  rw [messagesOf, List.filterMap_eq_nil_iff]
  constructor
  · intro h
    apply List.eq_nil_iff_forall_not_mem.mpr
    intro f hf
    exact hl f hf (h f hf)
  · rintro rfl
    simp

theorem messagesOf_length {l : List Frame} (hl : ∀ f ∈ l, f.message ≠ none) :
    (messagesOf l).length = l.length :=
  List.filterMap_length_eq_length.mpr fun f hf => Option.isSome_iff_ne_none.mpr (hl f hf)

/-! ### The steps -/

theorem Progress.readsPast_iff {c d : Inbound} {reads : List Recv} {used : List Frame}
    (h : Progress c reads used d) : ReadsPast c reads used ↔
      d.unread = 0 ∧ ∃ f rest, d.stream = f :: rest ∧ f.size ≤ d.buffered := by
  have hu := h.unread
  have hb := h.buffered
  simp only [ReadsPast, h.stream, List.append_cancel_left_eq, totalSize_append, totalSize_cons,
    totalSize_nil, add_zero]
  apply and_congr (by omega)
  apply exists₂_congr
  intro f rest
  apply and_congr_right
  intro _
  omega

/-- A step leaves a message waiting exactly when it empties the queue and reads past what
it uses. -/
theorem Progress.noLostWakeup_iff {s : SourceState} {c : Inbound} {reads : List Recv}
    {used : List Frame} (h : Progress c reads used s.conn) :
    NoLostWakeup s ↔ ¬ (s.conn.frames = [] ∧ ReadsPast c reads used) := by
  rw [h.readsPast_iff]
  simp only [NoLostWakeup, Sleeping, chamgeAmqpSourcePrepare, amqpFramesEnqueued,
    Bool.not_eq_false', List.isEmpty_iff, NothingWaiting]
  constructor
  · rintro hs ⟨hf, hu, f, rest, hstream, hsize⟩
    have hshort : s.conn.buffered < f.size := (hs ⟨hf, hu⟩).2 f rest hstream
    omega
  · refine fun hno ⟨hf, hu⟩ => ⟨hf, fun f rest hstream => ?_⟩
    by_contra hsize
    exact hno ⟨hf, hu, f, rest, hstream, by omega⟩

@[simp] theorem messagesOf_append (l m : List Frame) :
    messagesOf (l ++ m) = messagesOf l ++ messagesOf m := List.filterMap_append

theorem Bounded.expect {c : Inbound} (h : c.Bounded) (call : SyncCall) :
    (c.expect call).Bounded := by
  simp only [Inbound.Bounded, Inbound.expect, totalSize_append] at h ⊢
  omega

theorem Progress.expect {c d : Inbound} {reads : List Recv} {used : List Frame}
    (h : Progress c reads used d) (hb : c.Bounded) (call : SyncCall) :
    Progress (c.expect call) reads used (d.expect call) :=
  ⟨by simp [Inbound.expect, h.stream], h.buffered, h.unread,
    fun _ => Bounded.expect (h.bounded hb) call⟩

/-- A synchronous call on a connection with nothing but messages under way: all of these
and those sent before the reply are queued. -/
theorem run_progress {c d : Inbound} {call : SyncCall} (h : call.run c = some d)
    (hc : ∀ f ∈ c.stream, f.message ≠ none) :
    Progress (c.expect call) call.reads (c.stream ++ call.before ++ [call.reply]) d ∧
      d.stream = call.after ∧ d.frames = c.frames ++ messagesOf (c.stream ++ call.before) := by
  obtain ⟨msgs, reply, hmsg, hreply, hprog, hframes⟩ := awaitReply_progress h
  have hsplit : (c.stream ++ call.before) ++ call.reply :: call.after =
      msgs ++ reply :: d.stream := by
    simpa [Inbound.expect] using hprog.stream
  have hbefore : ∀ f ∈ c.stream ++ call.before, f.message ≠ none :=
    List.forall_mem_append.mpr ⟨hc, call.before_message⟩
  obtain ⟨rfl, rfl⟩ := reply_split hsplit hbefore hmsg call.reply_message hreply
  exact ⟨hprog, by simpa using hsplit.symm, hframes⟩

/-- What holds between two steps: only messages are under way, no more is in the buffer
and the socket than was sent, and every message sent is handed, queued or under way. -/
structure SourceInv (s : SourceState) : Prop where
  message : ∀ f ∈ s.conn.stream, f.message ≠ none
  bounded : s.conn.Bounded
  accounted : s.sent = s.handed ++ s.conn.frames ++ messagesOf s.conn.stream

theorem sourceInv_init : SourceInv .init := ⟨by simp [SourceState.init], Nat.le_refl 0, rfl⟩

theorem process_progress {c d : Inbound} {e : AmqpEnvelope} {call : SyncCall}
    (h : processAmqpMessage e (some call) c = some d) : call.run c = some d := by
  unfold processAmqpMessage at h
  cases hr : replyAddress e with
  | none => simp [hr] at h
  | some a => simpa [hr] using h

theorem process_none {c d : Inbound} {e : AmqpEnvelope}
    (h : processAmqpMessage e none c = some d) : c = d := by
  unfold processAmqpMessage at h
  cases hr : replyAddress e with
  | none => simpa [hr] using h
  | some a => simp [hr] at h

/-- One dispatch: it times out with nothing left to decode, or hands over one message. -/
theorem dispatch_cases {s t : SourceState} {reads : List Recv} {call : Option SyncCall}
    (h : chamgeAmqpSourceDispatch s reads call = some t) :
    (call = none ∧ s.conn.frames = [] ∧ t = { s with conn := t.conn } ∧ t.conn.frames = [] ∧
      Progress s.conn reads [] t.conn ∧ t.conn.decode = none) ∨
    ∃ e c first, (∀ f ∈ first, f.message ≠ none) ∧ first.length = 1 - s.conn.frames.length ∧
      Progress s.conn reads first c ∧ s.conn.frames ++ messagesOf first = e :: c.frames ∧
      processAmqpMessage e call c = some t.conn ∧ t.handed = s.handed ++ [e] ∧
      t.sent = s.sent ++ call.elim [] fun call => messagesOf (call.before ++ call.after) := by
  obtain ⟨⟨o, c⟩, hcons, hrest⟩ := Option.bind_eq_some_iff.mp h
  have hprog := consumeMessage_progress hcons
  cases o with
  | none =>
    obtain ⟨hq, hf, hp, -, hd⟩ := hprog
    simp only at hrest
    split_ifs at hrest with hcall
    obtain rfl := Option.some.inj hrest
    exact Or.inl ⟨Option.isNone_iff_eq_none.mp hcall, hq, rfl, hf, hp, hd⟩
  | some e =>
    obtain ⟨first, hfirst, hlen, hp, hframes⟩ := hprog
    obtain ⟨d, hd, rfl⟩ := Option.map_eq_some_iff.mp hrest
    exact Or.inr ⟨e, c, first, hfirst, hlen, hp, hframes, hd, rfl, rfl⟩

theorem sourceInv_step {s t : SourceState} {l : SourceLabel} (hs : SourceInv s)
    (h : amqpSource.step s l = some t) : SourceInv t := by
  obtain ⟨hmsg, hb, hacc⟩ := hs
  cases l with
  | activate call =>
    simp only [amqpSource] at h
    split_ifs at h
    obtain ⟨d, hd, rfl⟩ := Option.map_eq_some_iff.mp h
    obtain ⟨hp, hstream, hframes⟩ := run_progress hd hmsg
    refine ⟨?_, hp.bounded (Bounded.expect hb call), ?_⟩
    · simpa only [hstream] using call.after_message
    · simp only [hacc, hframes, hstream, messagesOf_append, List.append_assoc]
  | send f =>
    obtain ⟨e, he, rfl⟩ := Option.map_eq_some_iff.mp h
    refine ⟨fun g hg => ?_, ?_, ?_⟩
    · rcases List.mem_append.mp hg with hg | hg
      · exact hmsg g hg
      · simp [List.mem_singleton.mp hg, he]
    · simp only [Inbound.Bounded, totalSize_append] at hb ⊢
      omega
    · simp only [hacc, messagesOf_append, List.append_assoc]
      simp [messagesOf, he]
  | arrive n =>
    obtain ⟨c, hc, rfl⟩ := Option.map_eq_some_iff.mp h
    simp only [Inbound.arrive] at hc
    split_ifs at hc with hroom
    obtain rfl := Option.some.inj hc
    refine ⟨hmsg, ?_, hacc⟩
    simp only [Inbound.Bounded]
    omega
  | iterate reads call =>
    simp only [amqpSource] at h
    split_ifs at h
    rcases dispatch_cases h with ⟨rfl, hq, ht, hf, hp, -⟩ |
      ⟨e, c, first, hfirst, -, hp, hframes, hproc, hhand, hsent⟩
    · have hstream := hp.stream
      rw [ht]
      refine ⟨fun f hf => hmsg f (hstream ▸ hf), hp.bounded hb, ?_⟩
      simp only [hacc, hq, hf, hstream, List.nil_append]
    · have hstream := hp.stream
      have hcmsg : ∀ f ∈ c.stream, f.message ≠ none := fun f hf =>
        hmsg f (hstream ▸ List.mem_append_right _ hf)
      have hacc' : s.sent = t.handed ++ c.frames ++ messagesOf c.stream := by
        rw [hacc, hstream, messagesOf_append, hhand]
        simp only [List.append_assoc, List.cons_append, List.nil_append, ← hframes]
      cases call with
      | none =>
        obtain rfl := process_none hproc
        exact ⟨hcmsg, hp.bounded hb, by simpa [hsent] using hacc'⟩
      | some call =>
        obtain ⟨hp', hstream', hframes'⟩ := run_progress (process_progress hproc) hcmsg
        refine ⟨?_, hp'.bounded (Bounded.expect (hp.bounded hb) call), ?_⟩
        · simpa only [hstream'] using call.after_message
        · simp only [hsent, hacc', hframes', hstream', messagesOf_append, List.append_assoc,
            Option.elim_some]

/-- An activation leaves a message behind when its reply is the first frame of the stream
and its reads bring in another frame behind it. -/
theorem activate_noLostWakeup_iff {s t : SourceState} {call : SyncCall} (hs : SourceInv s)
    (h : amqpSource.step s (.activate call) = some t) :
    NoLostWakeup t ↔ ¬ Overruns s (.activate call) := by
  simp only [amqpSource] at h
  split_ifs at h
  obtain ⟨d, hd, rfl⟩ := Option.map_eq_some_iff.mp h
  obtain ⟨hp, -, hframes⟩ := run_progress hd hs.message
  have hbefore : ∀ f ∈ s.conn.stream ++ call.before, f.message ≠ none :=
    List.forall_mem_append.mpr ⟨hs.message, call.before_message⟩
  rw [Progress.noLostWakeup_iff hp, not_iff_not]
  simp only [hframes, List.append_eq_nil_iff, messagesOf_eq_nil hbefore, Overruns]
  constructor
  · rintro ⟨⟨hq, hs, hbef⟩, hpast⟩
    exact ⟨hq, by simpa [hs, hbef] using hpast⟩
  · rintro ⟨hq, hpast⟩
    -- the first reply of the stream comes first of all, so nothing was sent before it
    obtain ⟨f, rest, hsplit, -⟩ := hpast.2
    have hsplit' : (s.conn.stream ++ call.before) ++ call.reply :: call.after =
        [] ++ call.reply :: f :: rest := by simpa [Inbound.expect] using hsplit
    obtain ⟨hnil, -⟩ := reply_split hsplit' hbefore (by simp) call.reply_message
      call.reply_message
    exact ⟨⟨hq, List.append_eq_nil_iff.mp hnil⟩, by rwa [hnil, List.nil_append]⟩

theorem send_noLostWakeup {s t : SourceState} {f : Frame} (hb : s.conn.Bounded)
    (hw : NoLostWakeup s) (h : amqpSource.step s (.send f) = some t) : NoLostWakeup t := by
  intro hsleep
  obtain ⟨e, he, rfl⟩ := Option.map_eq_some_iff.mp h
  obtain ⟨hq, hhead⟩ := hw hsleep
  refine ⟨hq, fun g rest hg => ?_⟩
  cases hstream : s.conn.stream with
  | nil =>
    -- not a byte of the new frame has arrived
    simp only [hstream, List.nil_append] at hg
    have hpos : 0 < g.size := (List.cons.inj hg).1 ▸ f.size_pos
    simp only [Inbound.Bounded, hstream, totalSize_nil] at hb
    simp only
    omega
  | cons g' rest' =>
    simp only [hstream, List.cons_append] at hg
    have hfirst : g' = g := (List.cons.inj hg).1
    exact hhead g rest' (by rw [hstream, hfirst])

theorem arrive_noLostWakeup {s t : SourceState} {n : ℕ} (hw : NoLostWakeup s)
    (h : amqpSource.step s (.arrive n) = some t) : NoLostWakeup t := by
  intro hsleep
  obtain ⟨c, hc, rfl⟩ := Option.map_eq_some_iff.mp h
  simp only [Inbound.arrive] at hc
  split_ifs at hc
  obtain rfl := Option.some.inj hc
  have hu : s.conn.unread + n = 0 := hsleep.2
  exact hw ⟨hsleep.1, by omega⟩

theorem not_overruns_of_timeout {s : SourceState} {d : Inbound} {reads : List Recv}
    (hq : s.conn.frames = []) (hp : Progress s.conn reads [] d)
    (hshort : ∀ f rest, d.stream = f :: rest → d.buffered < f.size) :
    ¬ Overruns s (.iterate reads none) := by
  rintro ⟨first, hone, -, -, f, rest, hsplit, hsize⟩
  rw [hq, List.length_nil, Nat.zero_add] at hone
  obtain ⟨g, rfl⟩ := List.length_eq_one_iff.mp hone
  have hnext : d.stream = g :: f :: rest := hp.stream.symm.trans hsplit
  have hlt := hshort g (f :: rest) hnext
  have hbuf := hp.buffered
  simp only [List.singleton_append, totalSize_cons, totalSize_nil] at hsize hbuf
  omega

theorem taken_noLostWakeup_iff {s t : SourceState} {reads : List Recv} {first : List Frame}
    (hfirst : ∀ f ∈ first, f.message ≠ none) (hlen : first.length = 1 - s.conn.frames.length)
    (hqueue : s.conn.frames.length + first.length = t.conn.frames.length + 1)
    (hp : Progress s.conn reads first t.conn) :
    NoLostWakeup t ↔ ¬ Overruns s (.iterate reads none) := by
  rw [Progress.noLostWakeup_iff hp, not_iff_not]
  constructor
  · rintro ⟨hnil, hpast⟩
    rw [hnil] at hqueue
    exact ⟨first, by simpa using hqueue, hfirst, hpast⟩
  · rintro ⟨first', hone, -, hpast⟩
    obtain ⟨f, rest, hsplit, -⟩ := hpast.2
    have hsame := hp.stream.symm.trans hsplit
    obtain ⟨rfl, -⟩ := List.append_inj hsame (by omega)
    exact ⟨List.eq_nil_of_length_eq_zero (by omega), hpast⟩

theorem answered_noLostWakeup_iff {s t : SourceState} {c : Inbound} {reads : List Recv}
    {call : SyncCall} {first : List Frame} (hs : SourceInv s)
    (hfirst : ∀ f ∈ first, f.message ≠ none)
    (hqueue : s.conn.frames.length + first.length = c.frames.length + 1)
    (hp : Progress s.conn reads first c) (hrun : call.run c = some t.conn) :
    NoLostWakeup t ↔ ¬ Overruns s (.iterate reads (some call)) := by
  have hcmsg : ∀ f ∈ c.stream, f.message ≠ none := fun f hf =>
    hs.message f (hp.stream ▸ List.mem_append_right _ hf)
  obtain ⟨hp', -, hframes'⟩ := run_progress hrun hcmsg
  have hbefore : ∀ f ∈ c.stream ++ call.before, f.message ≠ none :=
    List.forall_mem_append.mpr ⟨hcmsg, call.before_message⟩
  have hall := (hp.expect hs.bounded call).trans hp'
  rw [Progress.noLostWakeup_iff hall, not_iff_not]
  simp only [hframes', List.append_eq_nil_iff, messagesOf_eq_nil hbefore]
  constructor
  · rintro ⟨⟨hq, hs, hbef⟩, hpast⟩
    rw [hq] at hqueue
    exact ⟨first, by simpa using hqueue, hfirst, by simpa [hs, hbef] using hpast⟩
  · rintro ⟨first', hone, hfirst', hpast⟩
    obtain ⟨f, rest, hsplit, -⟩ := hpast.2
    have hused : ∀ f ∈ first ++ (c.stream ++ call.before), f.message ≠ none :=
      List.forall_mem_append.mpr ⟨hfirst, hbefore⟩
    have hsplit' : first' ++ call.reply :: f :: rest =
        (first ++ (c.stream ++ call.before)) ++ call.reply :: t.conn.stream := by
      have h1 := hall.stream
      rw [hsplit] at h1
      simpa using h1
    obtain ⟨rfl, -⟩ := reply_split hsplit' hfirst' hused call.reply_message
      call.reply_message
    -- one message was taken in all, and it was not among those under way
    simp only [List.length_append] at hone
    have hstream : c.stream = [] := List.eq_nil_of_length_eq_zero (by omega)
    have hbef : call.before = [] := List.eq_nil_of_length_eq_zero (by omega)
    refine ⟨⟨List.eq_nil_of_length_eq_zero (by omega), hstream, hbef⟩, ?_⟩
    simpa [hstream, hbef] using hpast

theorem noLostWakeup_step {s t : SourceState} {l : SourceLabel} (hs : SourceInv s)
    (hw : NoLostWakeup s) (h : amqpSource.step s l = some t) :
    NoLostWakeup t ↔ ¬ Overruns s l := by
  cases l with
  | activate call => exact activate_noLostWakeup_iff hs h
  | send f => exact iff_of_true (send_noLostWakeup hs.bounded hw h) not_false
  | arrive n => exact iff_of_true (arrive_noLostWakeup hw h) not_false
  | iterate reads call =>
    simp only [amqpSource] at h
    split_ifs at h
    rcases dispatch_cases h with ⟨rfl, hq, -, hf, hp, hdec⟩ |
      ⟨e, c, first, hfirst, hlen, hp, hframes, hproc, -, -⟩
    · have hshort := decode_eq_none_iff.mp hdec
      exact iff_of_true (fun _ => ⟨hf, hshort⟩) (not_overruns_of_timeout hq hp hshort)
    have hqueue : s.conn.frames.length + first.length = c.frames.length + 1 := by
      simpa [messagesOf_length hfirst] using congrArg List.length hframes
    cases call with
    | none =>
      obtain rfl := process_none hproc
      exact taken_noLostWakeup_iff hfirst hlen hqueue hp
    | some call =>
      exact answered_noLostWakeup_iff hs hfirst hqueue hp (process_progress hproc)

/-- In every run, the main loop never sleeps on a message that has been read exactly when
no step of the run overruns. -/
theorem source_wakeup_iff (ls : List SourceLabel) :
    amqpSource.Always NoLostWakeup .init ls ↔
      amqpSource.Along (fun s l => ¬ Overruns s l) .init ls :=
  Machine.always_iff_along (fun _ _ _ => sourceInv_step) (fun _ _ _ => noLostWakeup_step)
    sourceInv_init fun _ => ⟨rfl, fun f rest h => by cases h⟩

/-- Asleep with nothing waiting, the handler has had every message sent, in order, up to the
first that is not wholly read. -/
theorem sleeping_handed {s : SourceState} (h : amqpSource.Reachable .init s)
    (hs : Sleeping s) (hw : NoLostWakeup s) :
    s.sent = s.handed ++ messagesOf s.conn.stream ∧
      ∀ f rest, s.conn.stream = f :: rest → s.conn.buffered < f.size := by
  have hinv := h.invariant (fun _ _ _ => sourceInv_step) sourceInv_init
  obtain ⟨hq, hhead⟩ := hw hs
  exact ⟨by rw [hinv.accounted, hq, List.append_nil], hhead⟩

def plainMessage : AmqpEnvelope := ⟨1, { replyProperties none with contentTypeFlag := false }, [1]⟩

def plainFrame : Frame := ⟨some plainMessage, 100, by decide⟩

def plainActivation : SyncCall :=
  ⟨[], ⟨none, 20, by decide⟩, [], [⟨20, 20⟩], nofun, nofun, rfl⟩

/-- Two messages that ask for no reply come in one read: the first is handed to the handler
and the loop sleeps on the second. -/
theorem shared_read_loses_wakeup : ¬ amqpSource.Always NoLostWakeup .init
    [.activate plainActivation, .send plainFrame, .send plainFrame, .arrive 200,
      .iterate [⟨0, 200⟩] none] := by
  intro h
  have hend := ((((h.2 _ rfl).2 _ rfl).2 _ rfl).2 _ rfl).2 _ rfl
  have hhead := (hend ⟨rfl, rfl⟩).2 plainFrame [] rfl
  exact absurd hhead (by decide)

end Chamge
