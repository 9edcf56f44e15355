import Mathlib.Data.List.Nodup
import Mathlib.Data.List.Perm.Basic
import Mathlib.Logic.Function.Basic

/-! A message broker, with one channel on each connection. A message is published to a
named queue, delivered to one of its consumers, and received there in order of delivery. A
queue vanishes with its last consumer. -/

/-- Where a message is: in a queue, or delivered from it on a connection. -/
inductive Place (κ ν : Type*)
  | queue (q : ν)
  | inbox (c : κ) (q : ν)
  deriving DecidableEq

/-- `consumers q` is `none` where there is no queue of that name. -/
structure Broker (κ ν μ : Type*) where
  messages : List (Place κ ν × μ)
  consumers : ν → Option (List κ)
  channelOpen : κ → Bool

set_option linter.unusedSectionVars false

namespace Broker

variable {κ ν μ : Type*} [DecidableEq κ] [DecidableEq ν]

def hasQueue (b : Broker κ ν μ) (q : ν) : Bool := (b.consumers q).isSome

def Consumes (b : Broker κ ν μ) (q : ν) (c : κ) : Prop :=
  ∃ cs, b.consumers q = some cs ∧ c ∈ cs

instance (b : Broker κ ν μ) (q : ν) (c : κ) : Decidable (b.Consumes q c) :=
  match h : b.consumers q with
  | none => isFalse fun ⟨_, hcs, _⟩ => by simp [h] at hcs
  | some cs =>
    if hc : c ∈ cs then isTrue ⟨cs, h, hc⟩
    else isFalse fun ⟨_, hcs, hmem⟩ => hc (Option.some.inj (h.symm.trans hcs) ▸ hmem)

def connect (b : Broker κ ν μ) (c : κ) : Broker κ ν μ :=
  { b with channelOpen := Function.update b.channelOpen c true }

def declare (b : Broker κ ν μ) (q : ν) : Broker κ ν μ :=
  if b.hasQueue q then b else { b with consumers := Function.update b.consumers q (some []) }

def subscribe (b : Broker κ ν μ) (q : ν) (c : κ) : Broker κ ν μ :=
  { b with consumers := Function.update b.consumers q ((b.consumers q).map (· ++ [c])) }

/-- A message for a queue that is not there is dropped. -/
def post (b : Broker κ ν μ) (q : ν) (m : μ) : Broker κ ν μ :=
  if b.hasQueue q then { b with messages := b.messages ++ [(.queue q, m)] } else b

/-- What is published on a closed channel is dropped. -/
def publish (b : Broker κ ν μ) (c : κ) (q : ν) (m : μ) : Broker κ ν μ :=
  if b.channelOpen c then b.post q m else b

def deliver (b : Broker κ ν μ) (i : ℕ) (c : κ) : Option (ν × μ × Broker κ ν μ) :=
  match b.messages[i]? with
  | some (.queue q, m) =>
    if b.Consumes q c then
      some (q, m, { b with messages := b.messages.eraseIdx i ++ [(.inbox c q, m)] })
    else none
  | _ => none

def lose (b : Broker κ ν μ) (i : ℕ) : Option (Broker κ ν μ) :=
  match b.messages[i]? with
  | some (.queue _, _) => some { b with messages := b.messages.eraseIdx i }
  | _ => none

def isInbox (c : κ) : Place κ ν → Bool
  | .queue _ => false
  | .inbox c' _ => c' = c

/-- What has been delivered on the connection and not been received. -/
def inboxOf (b : Broker κ ν μ) (c : κ) : List (ν × μ) :=
  b.messages.filterMap fun
    | (.queue _, _) => none
    | (.inbox c' q, m) => if c' = c then some (q, m) else none

def receive (b : Broker κ ν μ) (c : κ) : Option (ν × μ × Broker κ ν μ) :=
  (b.messages.findIdx? fun p => isInbox c p.1).bind fun i =>
    match b.messages[i]? with
    | some (.inbox _ q, m) => some (q, m, { b with messages := b.messages.eraseIdx i })
    | _ => none

/-- The consumers of a queue without `c`; `none` if that leaves the queue without any. -/
def without (c : κ) (cs : List κ) : Option (List κ) :=
  if c ∈ cs ∧ cs.filter (· ≠ c) = [] then none else some (cs.filter (· ≠ c))

/-- The channel is closed: its subscriptions end, with the queues that lose their last. -/
def cancel (b : Broker κ ν μ) (c : κ) : Broker κ ν μ :=
  { channelOpen := Function.update b.channelOpen c false
    consumers := fun q => (b.consumers q).bind (without c)
    messages := b.messages.filter fun p =>
      match p.1 with
      | .queue q => ((b.consumers q).bind (without c)).isSome
      | .inbox _ _ => true }

def close (b : Broker κ ν μ) (c : κ) : Broker κ ν μ :=
  { b.cancel c with messages := (b.cancel c).messages.filter fun p => !isInbox c p.1 }

def closeAll (b : Broker κ ν μ) (cs : List κ) : Broker κ ν μ := cs.foldl close b

variable {b b' : Broker κ ν μ} {q q' : ν} {c c' : κ} {m : μ} {i : ℕ} {p : Place κ ν × μ}

/-- What each single closing does, all of them do. -/
theorem closeAll_rel {R : Broker κ ν μ → Broker κ ν μ → Prop} (hrefl : ∀ b, R b b)
    (htrans : ∀ b b' b'', R b b' → R b' b'' → R b b'') {cs : List κ}
    (hclose : ∀ b, ∀ c ∈ cs, R b (b.close c)) : R b (b.closeAll cs) := by
  induction cs generalizing b with
  | nil => exact hrefl b
  | cons c cs ih =>
    have hfirst : R b (b.close c) := hclose b c List.mem_cons_self
    exact htrans b _ _ hfirst (ih fun b c' hc => hclose b c' (List.mem_cons_of_mem c hc))

/-! ### Messages -/

@[simp] theorem declare_messages : (b.declare q).messages = b.messages := by
  unfold declare
  split_ifs <;> rfl

theorem mem_post (h : p ∈ (b.post q m).messages) : p ∈ b.messages ∨ p = (.queue q, m) := by
  unfold post at h
  split_ifs at h
  · simpa using h
  · exact Or.inl h

theorem mem_publish (h : p ∈ (b.publish c q m).messages) :
    p ∈ b.messages ∨ p = (.queue q, m) := by
  unfold publish at h
  split_ifs at h
  · exact mem_post h
  · exact Or.inl h

theorem publish_sublist :
    (b.publish c q m).messages.Sublist (b.messages ++ [(.queue q, m)]) := by
  unfold publish post
  split_ifs
  · exact List.Sublist.refl _
  · exact List.sublist_append_left ..
  · exact List.sublist_append_left ..

theorem deliver_eq_some (h : b.deliver i c = some (q, m, b')) :
    b.messages[i]? = some (.queue q, m) ∧ b.Consumes q c ∧
      b' = { b with messages := b.messages.eraseIdx i ++ [(.inbox c q, m)] } := by
  unfold deliver at h
  split at h
  · rename_i q' m' hi
    split_ifs at h with hc
    obtain ⟨rfl, rfl, rfl⟩ : q' = q ∧ m' = m ∧ _ = b' := by simpa using h
    exact ⟨hi, hc, rfl⟩
  · simp at h

theorem lose_eq_some (h : b.lose i = some b') :
    b' = { b with messages := b.messages.eraseIdx i } := by
  unfold lose at h
  split at h
  · exact (Option.some.inj h).symm
  · simp at h

theorem receive_eq_some (h : b.receive c = some (q, m, b')) : ∃ i,
    b.messages[i]? = some (.inbox c q, m) ∧
    (∀ p ∈ b.messages.take i, isInbox c p.1 = false) ∧
    b' = { b with messages := b.messages.eraseIdx i } := by
  obtain ⟨i, hfind, hi⟩ := Option.bind_eq_some_iff.mp h
  split at hi
  · rename_i c' q' m' hget
    obtain ⟨rfl, rfl, rfl⟩ : q' = q ∧ m' = m ∧
        { b with messages := b.messages.eraseIdx i } = b' := by simpa using hi
    obtain ⟨hlt, hat, hfirst⟩ := List.findIdx?_eq_some_iff_getElem.mp hfind
    rw [List.getElem?_eq_getElem hlt, Option.some.injEq] at hget
    rw [hget] at hat
    obtain rfl : c' = c := by simpa [isInbox] using hat
    refine ⟨i, by rw [List.getElem?_eq_getElem hlt, hget], fun p hp => ?_, rfl⟩
    obtain ⟨j, hj, rfl⟩ := List.mem_take_iff_getElem.mp hp
    simpa using hfirst j (by omega)
  · simp at hi

theorem perm_eraseIdx {α : Type*} {l : List α} {a : α} (h : l[i]? = some a) :
    (a :: l.eraseIdx i).Perm l := by
  obtain ⟨hlt, rfl⟩ := List.getElem?_eq_some_iff.mp h
  exact List.getElem_cons_eraseIdx_perm hlt

theorem mem_deliver (h : b.deliver i c = some (q, m, b')) (hp : p ∈ b'.messages) :
    p ∈ b.messages ∨ (p = (.inbox c q, m) ∧ (.queue q, m) ∈ b.messages ∧ b.Consumes q c) := by
  obtain ⟨hi, hc, rfl⟩ := deliver_eq_some h
  rcases List.mem_append.mp hp with hp | hp
  · exact Or.inl (List.mem_of_mem_eraseIdx hp)
  · exact Or.inr ⟨List.mem_singleton.mp hp, List.mem_of_getElem? hi, hc⟩

theorem mem_receive (h : b.receive c = some (q, m, b')) :
    (.inbox c q, m) ∈ b.messages ∧ ∀ p ∈ b'.messages, p ∈ b.messages := by
  obtain ⟨i, hi, -, rfl⟩ := receive_eq_some h
  exact ⟨List.mem_of_getElem? hi, fun p hp => List.mem_of_mem_eraseIdx hp⟩

theorem mem_cancel (h : p ∈ (b.cancel c).messages) : p ∈ b.messages :=
  List.mem_of_mem_filter h

/-! ### Subscriptions -/

@[simp] theorem post_consumers : (b.post q m).consumers = b.consumers := by
  unfold post
  split_ifs <;> rfl

@[simp] theorem publish_consumers : (b.publish c q m).consumers = b.consumers := by
  unfold publish
  split_ifs
  · exact post_consumers
  · rfl

theorem deliver_consumers (h : b.deliver i c = some (q, m, b')) :
    b'.consumers = b.consumers := by
  obtain ⟨-, -, rfl⟩ := deliver_eq_some h
  rfl

theorem receive_consumers (h : b.receive c = some (q, m, b')) : b'.consumers = b.consumers := by
  obtain ⟨i, -, -, rfl⟩ := receive_eq_some h
  rfl

theorem consumes_declare : (b.declare q).Consumes q' c ↔ b.Consumes q' c := by
  unfold declare
  split_ifs with hq
  · exact Iff.rfl
  by_cases h : q' = q
  · subst h
    have hnone : b.consumers q' = none := by simpa [hasQueue] using hq
    simp [Consumes, hnone]
  · simp [Consumes, h]

theorem consumes_subscribe : (b.subscribe q c).Consumes q' c' ↔
    b.Consumes q' c' ∨ (q' = q ∧ c' = c ∧ b.hasQueue q = true) := by
  by_cases h : q' = q
  · subst h
    cases hq : b.consumers q' with
    | none => simp [Consumes, subscribe, hasQueue, hq]
    | some cs => simp [Consumes, subscribe, hasQueue, hq]
  · simp [Consumes, subscribe, h]

theorem consumes_cancel : (b.cancel c).Consumes q c' ↔ b.Consumes q c' ∧ c' ≠ c := by
  change (∃ cs, (b.consumers q).bind (without c) = some cs ∧ c' ∈ cs) ↔ _
  unfold Consumes
  cases hq : b.consumers q with
  | none => simp
  | some cs =>
    simp only [Option.bind_some, Option.some.injEq, exists_eq_left', without]
    split_ifs with hno
    · simp only [false_and, exists_false, false_iff, not_and, not_not]
      intro hc'
      by_contra hne
      have hmem : c' ∈ cs.filter (· ≠ c) := List.mem_filter.mpr ⟨hc', by simpa using hne⟩
      rw [hno.2] at hmem
      exact List.not_mem_nil hmem
    · simp [List.mem_filter]

theorem consumes_close : (b.close c).Consumes q c' ↔ b.Consumes q c' ∧ c' ≠ c :=
  consumes_cancel

theorem hasQueue_declare : (b.declare q).hasQueue q = true := by
  unfold declare
  split_ifs with h
  · exact h
  · simp [hasQueue]

@[simp] theorem declare_channelOpen : (b.declare q).channelOpen = b.channelOpen := by
  unfold declare
  split_ifs <;> rfl

theorem hasQueue_of_consumes (h : b.Consumes q c) : b.hasQueue q = true := by
  obtain ⟨cs, hcs, -⟩ := h
  rw [hasQueue, hcs, Option.isSome_some]

/-! ### Channels with a subscription -/

/-- The channel is open and has a subscription to the queue. -/
structure Attached (b : Broker κ ν μ) (q : ν) (c : κ) : Prop where
  channel : b.channelOpen c = true
  consumes : b.Consumes q c

/-- `b'` has come from `b` without a loss for the channel. -/
def Keeps (b : Broker κ ν μ) (c : κ) (b' : Broker κ ν μ) : Prop :=
  ∀ q, b.Attached q c → b'.Attached q c

theorem Keeps.refl (b : Broker κ ν μ) (c : κ) : b.Keeps c b := fun _ => id

theorem Keeps.trans {b'' : Broker κ ν μ} (h : b.Keeps c b') (h' : b'.Keeps c b'') :
    b.Keeps c b'' := fun q => h' q ∘ h q

theorem keeps_of_eq (hchan : b'.channelOpen = b.channelOpen) (hcons : b'.consumers = b.consumers) :
    b.Keeps c b' :=
  fun _ h => ⟨hchan ▸ h.channel, by simpa only [Consumes, hcons] using h.consumes⟩

theorem keeps_connect : b.Keeps c (b.connect c') := by
  refine fun q h => ⟨?_, h.consumes⟩
  by_cases hc : c = c'
  · subst hc
    exact Function.update_self ..
  · exact (Function.update_of_ne hc ..).trans h.channel

theorem keeps_declare : b.Keeps c (b.declare q) := by
  refine fun q' h => ⟨?_, consumes_declare.mpr h.consumes⟩
  rw [declare_channelOpen]
  exact h.channel

theorem keeps_subscribe : b.Keeps c (b.subscribe q c') :=
  fun _ h => ⟨h.channel, consumes_subscribe.mpr (Or.inl h.consumes)⟩

theorem attached_subscribe (hchan : b.channelOpen c = true) (hq : b.hasQueue q = true) :
    (b.subscribe q c).Attached q c :=
  ⟨hchan, consumes_subscribe.mpr (Or.inr ⟨rfl, rfl, hq⟩)⟩

theorem keeps_post : b.Keeps c (b.post q m) :=
  keeps_of_eq (by unfold post; split_ifs <;> rfl) post_consumers

theorem keeps_publish : b.Keeps c (b.publish c' q m) := by
  unfold publish
  split_ifs
  · exact keeps_post
  · exact Keeps.refl b c

theorem keeps_deliver (h : b.deliver i c' = some (q, m, b')) : b.Keeps c b' := by
  obtain ⟨-, -, rfl⟩ := deliver_eq_some h
  exact keeps_of_eq rfl rfl

theorem keeps_lose (h : b.lose i = some b') : b.Keeps c b' := by
  obtain rfl := lose_eq_some h
  exact keeps_of_eq rfl rfl

theorem keeps_receive (h : b.receive c' = some (q, m, b')) : b.Keeps c b' := by
  obtain ⟨i, -, -, rfl⟩ := receive_eq_some h
  exact keeps_of_eq rfl rfl

theorem keeps_cancel (hc : c ≠ c') : b.Keeps c (b.cancel c') :=
  fun _ h => ⟨(Function.update_of_ne hc ..).trans h.channel,
    consumes_cancel.mpr ⟨h.consumes, hc⟩⟩

theorem keeps_close (hc : c ≠ c') : b.Keeps c (b.close c') :=
  fun _ h => ⟨(Function.update_of_ne hc ..).trans h.channel,
    consumes_close.mpr ⟨h.consumes, hc⟩⟩

theorem keeps_closeAll {cs : List κ} (hc : c ∉ cs) : b.Keeps c (b.closeAll cs) := by
  refine closeAll_rel (R := fun b b' => b.Keeps c b') (fun b => Keeps.refl b c)
    (fun _ _ _ => Keeps.trans) fun b c' hmem => keeps_close ?_
  rintro rfl
  exact hc hmem

theorem not_attached_cancel : ¬ (b.cancel c).Attached q c :=
  fun h => (consumes_cancel.mp h.consumes).2 rfl

/-! ### Channels that are not opened -/

/-- No channel is opened on the way from `b` to `b'`. -/
def Fades (b b' : Broker κ ν μ) : Prop := ∀ c, b'.channelOpen c = true → b.channelOpen c = true

theorem Fades.refl (b : Broker κ ν μ) : b.Fades b := fun _ => id

theorem Fades.trans {b'' : Broker κ ν μ} (h : b.Fades b') (h' : b'.Fades b'') : b.Fades b'' :=
  fun c => h c ∘ h' c

theorem fades_of_eq (h : b'.channelOpen = b.channelOpen) : b.Fades b' := fun _ hc => h ▸ hc

theorem cancel_channelOpen : (b.cancel c).channelOpen c = false := Function.update_self ..

theorem fades_cancel : b.Fades (b.cancel c) := by
  intro c' h
  have hne : c' ≠ c := by
    rintro rfl
    rw [cancel_channelOpen] at h
    cases h
  exact (Function.update_of_ne hne ..).symm.trans h

theorem fades_close : b.Fades (b.close c) := (fades_cancel : b.Fades (b.cancel c))

theorem fades_closeAll {cs : List κ} : b.Fades (b.closeAll cs) :=
  closeAll_rel Fades.refl (fun _ _ _ => Fades.trans) fun _ _ _ => fades_close

theorem fades_declare : b.Fades (b.declare q) := fades_of_eq declare_channelOpen

theorem fades_subscribe : b.Fades (b.subscribe q c) := fades_of_eq rfl

@[simp] theorem publish_channelOpen : (b.publish c q m).channelOpen = b.channelOpen := by
  unfold publish post
  split_ifs <;> rfl

theorem fades_publish : b.Fades (b.publish c q m) := fades_of_eq publish_channelOpen

theorem fades_receive (h : b.receive c = some (q, m, b')) : b.Fades b' := by
  obtain ⟨i, -, -, rfl⟩ := receive_eq_some h
  exact fades_of_eq rfl

/-! ### Queues with one consumer or none -/

/-- From `b` to `b'` no channel is opened, and the queue keeps a single consumer exactly as
long as its channel: no other event ends it, and none brings it back. -/
structure Retains (q : ν) (b b' : Broker κ ν μ) : Prop where
  fades : b.Fades b'
  gone : b.consumers q = none → b'.consumers q = none
  orphan : b.consumers q = some [] → b'.consumers q = some []
  held : ∀ c, b.consumers q = some [c] → b.channelOpen c = true →
    b'.consumers q = if b'.channelOpen c then some [c] else none

theorem retains_of_eq (hchan : b'.channelOpen = b.channelOpen)
    (hcons : b'.consumers q = b.consumers q) : b.Retains q b' := by
  refine ⟨fades_of_eq hchan, fun h => hcons.trans h, fun h => hcons.trans h, fun c h hopen => ?_⟩
  rw [hchan, if_pos hopen, hcons, h]

theorem Retains.refl (b : Broker κ ν μ) (q : ν) : b.Retains q b := retains_of_eq rfl rfl

theorem Retains.trans {b'' : Broker κ ν μ} (h : b.Retains q b') (h' : b'.Retains q b'') :
    b.Retains q b'' := by
  refine ⟨h.fades.trans h'.fades, h'.gone ∘ h.gone, h'.orphan ∘ h.orphan, fun c hc hopen => ?_⟩
  have hmid := h.held c hc hopen
  by_cases hopen' : b'.channelOpen c = true
  · rw [if_pos hopen'] at hmid
    exact h'.held c hmid hopen'
  · rw [if_neg hopen'] at hmid
    rw [h'.gone hmid, if_neg fun hlater => hopen' (h'.fades c hlater)]

theorem retains_declare (h : q ≠ q') : b.Retains q (b.declare q') := by
  refine retains_of_eq declare_channelOpen ?_
  unfold declare
  split_ifs
  · rfl
  · exact Function.update_of_ne h ..

theorem retains_subscribe (h : q ≠ q') : b.Retains q (b.subscribe q' c) :=
  retains_of_eq rfl (Function.update_of_ne h ..)

theorem retains_post : b.Retains q (b.post q' m) := by
  unfold post
  split_ifs
  · exact retains_of_eq rfl rfl
  · exact Retains.refl b q

theorem retains_publish : b.Retains q (b.publish c q' m) := by
  unfold publish
  split_ifs
  · exact retains_post
  · exact Retains.refl b q

theorem retains_deliver (h : b.deliver i c = some (q', m, b')) : b.Retains q b' := by
  obtain ⟨-, -, rfl⟩ := deliver_eq_some h
  exact retains_of_eq rfl rfl

theorem retains_lose (h : b.lose i = some b') : b.Retains q b' := by
  obtain rfl := lose_eq_some h
  exact retains_of_eq rfl rfl

theorem retains_receive (h : b.receive c = some (q', m, b')) : b.Retains q b' := by
  obtain ⟨i, -, -, rfl⟩ := receive_eq_some h
  exact retains_of_eq rfl rfl

theorem retains_cancel : b.Retains q (b.cancel c) := by
  have hconsumers : (b.cancel c).consumers q = (b.consumers q).bind (without c) := rfl
  refine ⟨fades_cancel, fun h => ?_, fun h => ?_, fun c' h hopen => ?_⟩
  · rw [hconsumers, h]
    rfl
  · rw [hconsumers, h]
    rfl
  · rw [hconsumers, h, Option.bind_some, without]
    by_cases hc : c' = c
    · subst hc
      simp [cancel_channelOpen]
    · have hkept : (b.cancel c).channelOpen c' = true :=
        (Function.update_of_ne hc ..).trans hopen
      simp [hc, Ne.symm hc, hkept]

theorem retains_close : b.Retains q (b.close c) := by
  have h : b.Retains q (b.cancel c) := retains_cancel
  exact ⟨h.fades, h.gone, h.orphan, h.held⟩

theorem retains_closeAll {cs : List κ} : b.Retains q (b.closeAll cs) :=
  closeAll_rel (fun b => Retains.refl b q) (fun _ _ _ => Retains.trans) fun _ _ _ => retains_close

/-! ### Inboxes -/

theorem inboxOf_eq {l : List (Place κ ν × μ)} (h : b.messages = l) : b.inboxOf c =
    l.filterMap fun
      | (.queue _, _) => none
      | (.inbox c' q, m) => if c' = c then some (q, m) else none := by
  rw [← h]
  rfl

@[simp] theorem inboxOf_connect : (b.connect c').inboxOf c = b.inboxOf c := rfl

@[simp] theorem inboxOf_declare : (b.declare q).inboxOf c = b.inboxOf c :=
  inboxOf_eq declare_messages

@[simp] theorem inboxOf_subscribe : (b.subscribe q c').inboxOf c = b.inboxOf c := rfl

@[simp] theorem inboxOf_post : (b.post q m).inboxOf c = b.inboxOf c := by
  unfold post
  split_ifs
  · simp [inboxOf]
  · rfl

@[simp] theorem inboxOf_publish : (b.publish c' q m).inboxOf c = b.inboxOf c := by
  unfold publish
  split_ifs
  · exact inboxOf_post
  · rfl

@[simp] theorem inboxOf_cancel : (b.cancel c').inboxOf c = b.inboxOf c := by
  unfold inboxOf cancel
  rw [List.filterMap_filter]
  refine List.filterMap_congr fun p _ => ?_
  rcases p with ⟨q | ⟨c'', q⟩, m⟩ <;> simp

theorem inboxOf_close_self : (b.close c).inboxOf c = [] := by
  unfold inboxOf close
  rw [List.filterMap_filter, List.filterMap_eq_nil_iff]
  rintro ⟨q | ⟨c', q⟩, m⟩ - <;> simp [isInbox]

theorem inboxOf_close_ne (h : c ≠ c') : (b.close c').inboxOf c = b.inboxOf c := by
  rw [← inboxOf_cancel (b := b)]
  unfold inboxOf close
  rw [List.filterMap_filter]
  refine List.filterMap_congr fun p _ => ?_
  rcases p with ⟨q | ⟨c'', q⟩, m⟩
  · simp
  · by_cases hc : c'' = c
    · subst hc
      simp [isInbox, h]
    · simp [isInbox, hc]

theorem inboxOf_closeAll {cs : List κ} (h : c ∉ cs) : (b.closeAll cs).inboxOf c = b.inboxOf c := by
  refine closeAll_rel (R := fun b b' => b'.inboxOf c = b.inboxOf c) (fun _ => rfl)
    (fun _ _ _ h h' => h'.trans h) fun b c' hmem => inboxOf_close_ne ?_
  rintro rfl
  exact h hmem

theorem eraseIdx_split {α : Type*} {l : List α} {a : α} (h : l[i]? = some a) :
    l = l.take i ++ a :: l.drop (i + 1) ∧ l.eraseIdx i = l.take i ++ l.drop (i + 1) := by
  obtain ⟨hlt, rfl⟩ := List.getElem?_eq_some_iff.mp h
  refine ⟨?_, List.eraseIdx_eq_take_drop_succ ..⟩
  rw [List.getElem_cons_drop, List.take_append_drop]

theorem filterMap_eraseIdx {α β : Type*} {l : List α} {a : α} {f : α → Option β}
    (h : l[i]? = some a) (hf : f a = none) : (l.eraseIdx i).filterMap f = l.filterMap f := by
  obtain ⟨hl, he⟩ := eraseIdx_split h
  conv_rhs => rw [hl]
  rw [he, List.filterMap_append, List.filterMap_append, List.filterMap_cons_none hf]

theorem inboxOf_lose (h : b.lose i = some b') : b'.inboxOf c = b.inboxOf c := by
  unfold lose at h
  split at h
  · rename_i q m hi
    rw [← Option.some.inj h]
    exact filterMap_eraseIdx hi rfl
  · simp at h

theorem inboxOf_deliver (h : b.deliver i c' = some (q, m, b')) :
    b'.inboxOf c = b.inboxOf c ++ if c' = c then [(q, m)] else [] := by
  obtain ⟨hi, -, rfl⟩ := deliver_eq_some h
  rw [inboxOf, List.filterMap_append, filterMap_eraseIdx hi rfl]
  congr 1
  split_ifs with hc <;> simp [hc]

theorem inboxOf_receive_self (h : b.receive c = some (q, m, b')) :
    b.inboxOf c = (q, m) :: b'.inboxOf c := by
  obtain ⟨i, hi, hfirst, rfl⟩ := receive_eq_some h
  obtain ⟨hl, he⟩ := eraseIdx_split hi
  have hnone : b.inboxOf c = _ := inboxOf_eq hl
  have herase : ({ b with messages := b.messages.eraseIdx i } : Broker κ ν μ).inboxOf c = _ :=
    inboxOf_eq he
  rw [hnone, herase, List.filterMap_append, List.filterMap_append]
  have hpre : ∀ p ∈ b.messages.take i, (match p with
      | (.queue _, _) => none
      | (.inbox c' q, m) => if c' = c then some (q, m) else none : Option (ν × μ)) = none := by
    rintro ⟨q' | ⟨c', q'⟩, m'⟩ hp
    · rfl
    · simpa [isInbox] using hfirst _ hp
  rw [List.filterMap_eq_nil_iff.mpr hpre]
  simp

theorem inboxOf_receive_ne (h : b.receive c' = some (q, m, b')) (hc : c ≠ c') :
    b'.inboxOf c = b.inboxOf c := by
  obtain ⟨i, hi, -, rfl⟩ := receive_eq_some h
  exact filterMap_eraseIdx hi (if_neg (Ne.symm hc))

/-- From `b` to `b'` messages are only taken from the front of inboxes, and none from that
of `c`. -/
structure Drains (c : κ) (b b' : Broker κ ν μ) : Prop where
  kept : b'.inboxOf c = b.inboxOf c
  front : ∀ c', b'.inboxOf c' <:+ b.inboxOf c'

theorem drains_of_eq (h : ∀ c', b'.inboxOf c' = b.inboxOf c') : b.Drains c b' :=
  ⟨h c, fun c' => h c' ▸ List.suffix_rfl⟩

theorem Drains.refl (b : Broker κ ν μ) (c : κ) : b.Drains c b := drains_of_eq fun _ => rfl

theorem Drains.trans {b'' : Broker κ ν μ} (h : b.Drains c b') (h' : b'.Drains c b'') :
    b.Drains c b'' :=
  ⟨h'.kept.trans h.kept, fun c' => (h'.front c').trans (h.front c')⟩

theorem drains_cancel : b.Drains c (b.cancel c') := drains_of_eq fun _ => inboxOf_cancel

theorem drains_close (h : c ≠ c') : b.Drains c (b.close c') := by
  refine ⟨inboxOf_close_ne h, fun c'' => ?_⟩
  by_cases hc : c'' = c'
  · subst hc
    rw [inboxOf_close_self]
    exact List.nil_suffix
  · have hsame : (b.close c').inboxOf c'' = b.inboxOf c'' := inboxOf_close_ne hc
    exact hsame ▸ List.suffix_rfl

theorem drains_closeAll {cs : List κ} (h : c ∉ cs) : b.Drains c (b.closeAll cs) := by
  refine closeAll_rel (R := fun b b' => b.Drains c b') (fun b => Drains.refl b c)
    (fun _ _ _ => Drains.trans) fun b c' hmem => drains_close ?_
  rintro rfl
  exact h hmem

theorem drains_receive (hc : c ≠ c') (h : b.receive c' = some (q, m, b')) : b.Drains c b' := by
  refine ⟨inboxOf_receive_ne h hc, fun c'' => ?_⟩
  by_cases hc'' : c'' = c'
  · subst hc''
    rw [inboxOf_receive_self h]
    exact List.suffix_cons ..
  · have hsame : b'.inboxOf c'' = b.inboxOf c'' := inboxOf_receive_ne h hc''
    exact hsame ▸ List.suffix_rfl

/-! ### Messages told apart by a key -/

section key
variable {α : Type*} {f : μ → α}

theorem receive_nodup (hf : (b.messages.map fun p => f p.2).Nodup)
    (h : b.receive c = some (q, m, b')) :
    (b'.messages.map fun p => f p.2).Nodup ∧ ∀ p ∈ b'.messages, f p.2 ≠ f m := by
  obtain ⟨i, hi, -, rfl⟩ := receive_eq_some h
  have hperm := (perm_eraseIdx hi).map fun p : Place κ ν × μ => f p.2
  rw [← hperm.nodup_iff, List.map_cons, List.nodup_cons] at hf
  exact ⟨hf.2, fun p hp heq => hf.1 (List.mem_map.mpr ⟨p, hp, heq⟩)⟩

theorem deliver_nodup (hf : (b.messages.map fun p => f p.2).Nodup)
    (h : b.deliver i c = some (q, m, b')) : (b'.messages.map fun p => f p.2).Nodup := by
  obtain ⟨hi, -, rfl⟩ := deliver_eq_some h
  have hperm := (perm_eraseIdx hi).map fun p : Place κ ν × μ => f p.2
  rw [← hperm.nodup_iff, List.map_cons] at hf
  rw [List.map_append, List.map_singleton, List.perm_append_singleton _ _ |>.nodup_iff]
  exact hf

theorem nodup_append_message {l : List (Place κ ν × μ)} (hf : (l.map fun p => f p.2).Nodup)
    (hp : ∀ p' ∈ l, f p'.2 ≠ f p.2) : ((l ++ [p]).map fun p => f p.2).Nodup := by
  rw [List.map_append, List.map_singleton]
  refine List.nodup_append.mpr ⟨hf, List.nodup_singleton _, fun a ha b hb => ?_⟩
  obtain ⟨p', hp', rfl⟩ := List.mem_map.mp ha
  rw [List.mem_singleton.mp hb]
  exact hp p' hp'

end key

/-! ### Brokers with less in them -/

/-- `b'` has come from `b` without a new message or subscription. -/
structure Within (b' b : Broker κ ν μ) : Prop where
  messages : b'.messages.Sublist b.messages
  consumes : ∀ q c, b'.Consumes q c → b.Consumes q c

theorem Within.trans {b'' : Broker κ ν μ} (h : b''.Within b') (h' : b'.Within b) :
    b''.Within b :=
  ⟨h.messages.trans h'.messages, fun q c => h'.consumes q c ∘ h.consumes q c⟩

theorem within_connect : (b.connect c).Within b := ⟨List.Sublist.refl _, fun _ _ => id⟩

theorem within_declare : (b.declare q).Within b :=
  ⟨by rw [declare_messages], fun _ _ => consumes_declare.mp⟩

theorem within_cancel : (b.cancel c).Within b :=
  ⟨List.filter_sublist, fun _ _ h => (consumes_cancel.mp h).1⟩

theorem within_close : (b.close c).Within b :=
  ⟨List.filter_sublist.trans List.filter_sublist, fun _ _ h => (consumes_close.mp h).1⟩

theorem within_closeAll {cs : List κ} : (b.closeAll cs).Within b :=
  closeAll_rel (R := fun b b' => b'.Within b) (fun _ => ⟨List.Sublist.refl _, fun _ _ => id⟩)
    (fun _ _ _ h h' => h'.trans h) fun _ _ _ => within_close

theorem within_lose (h : b.lose i = some b') : b'.Within b := by
  obtain rfl := lose_eq_some h
  exact ⟨List.eraseIdx_sublist .., fun _ _ => id⟩

theorem within_receive (h : b.receive c = some (q, m, b')) : b'.Within b := by
  obtain ⟨i, -, -, rfl⟩ := receive_eq_some h
  exact ⟨List.eraseIdx_sublist .., fun _ _ => id⟩

/-! ### Messages counted by a key -/

section count
variable {α : Type*} [DecidableEq α] (f : μ → α) (a : α)

def countOf (b : Broker κ ν μ) : ℕ := (b.messages.map fun p => f p.2).count a

theorem countOf_eq (h : b'.messages = b.messages) : b'.countOf f a = b.countOf f a := by
  rw [countOf, h, countOf]

theorem countOf_le (h : b'.messages.Sublist b.messages) : b'.countOf f a ≤ b.countOf f a :=
  (h.map _).count_le a

theorem Within.countOf_le (h : b'.Within b) : b'.countOf f a ≤ b.countOf f a :=
  Broker.countOf_le f a h.messages

theorem countOf_append {l : List (Place κ ν × μ)} (h : b'.messages = l ++ [p]) :
    b'.countOf f a = (l.map fun p => f p.2).count a + if f p.2 = a then 1 else 0 := by
  rw [countOf, h, List.map_append, List.count_append, List.map_singleton, List.count_singleton]
  simp only [beq_iff_eq]

theorem countOf_erase (h : b.messages[i]? = some p) : b.countOf f a =
    ((b.messages.eraseIdx i).map fun p => f p.2).count a + if f p.2 = a then 1 else 0 := by
  rw [countOf, ← ((perm_eraseIdx h).map fun p : Place κ ν × μ => f p.2).count_eq,
    List.map_cons, List.count_cons]
  simp only [beq_iff_eq]

theorem countOf_post :
    (b.post q m).countOf f a ≤ b.countOf f a + if f m = a then 1 else 0 := by
  unfold post
  by_cases hq : b.hasQueue q = true
  · rw [if_pos hq]
    exact Nat.le_of_eq (countOf_append f a (p := (.queue q, m)) rfl)
  · rw [if_neg hq]
    exact Nat.le_add_right ..

theorem countOf_publish :
    (b.publish c q m).countOf f a ≤ b.countOf f a + if f m = a then 1 else 0 := by
  unfold publish
  by_cases hc : b.channelOpen c = true
  · rw [if_pos hc]
    exact countOf_post f a
  · rw [if_neg hc]
    exact Nat.le_add_right ..

/-- Between a queue and an inbox no message comes or goes. -/
theorem countOf_deliver (h : b.deliver i c = some (q, m, b')) :
    b'.countOf f a = b.countOf f a := by
  obtain ⟨hi, -, rfl⟩ := deliver_eq_some h
  rw [countOf_erase f a hi]
  exact countOf_append f a (p := (.inbox c q, m)) rfl

theorem countOf_receive (h : b.receive c = some (q, m, b')) :
    b.countOf f a = b'.countOf f a + if f m = a then 1 else 0 := by
  obtain ⟨i, hi, -, rfl⟩ := receive_eq_some h
  exact countOf_erase f a hi

end count

end Broker
