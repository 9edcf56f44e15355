import Chamge.Lib.JsonMembers
import Chamge.Lib.JsonReader
import Chamge.RegistryEvents
import Chamge.RequestBody

/-! A device prints its uid into the request as it is. The arbiter decodes it as it was
exactly when JSON lets every character of it stand for itself. -/

namespace Chamge
open CString JsonGlib

variable {json : JsonParser} {type : DeviceType} {m : BackendMethod}

/-- The body asks for just this method of just this device: the arbiter's events carry the
uid, and its answer is the one that the device expects. -/
structure RoundTrips (json : JsonParser) (type : DeviceType) (m : BackendMethod)
    (uid : Bytes) : Prop where
  decoded : Asks json type.name type.idKey m.name (requestBody type m uid) uid
  events : ∀ signal : ArbiterSignal, raised json signal (requestBody type m uid) =
    if signal.type = type ∧ signal.method = m then [uid] else []
  answered : ∀ agent, type.validate json
    (strndup (arbiterProcessJsonMessage json amqpArbiterBackend (requestBody type m uid) agent).1)
    m.shouldbe = some .ok

theorem roundTrips_of_plain {uid : Bytes} (hjson : ReadsPlain json) (huid : Plain uid)
    (type : DeviceType) (m : BackendMethod) : RoundTrips json type m uid where
  decoded := asks_requestBody hjson huid type m
  events signal := by
    rw [raised_of_asks (asks_requestBody hjson huid type m)]
    simp only [name_inj]
  answered agent := by
    rw [(process_requestBody hjson huid type m agent).1]
    exact validate_resultBody hjson type m

theorem requestBody_utf8 {method methodName deviceType typeName idKey uid : List Char}
    (hmethod : cstr "method" = utf8 method) (hname : m.name = utf8 methodName)
    (hdevice : cstr "deviceType" = utf8 deviceType) (htype : type.name = utf8 typeName)
    (hkey : type.idKey = utf8 idKey) :
    requestBody type m (utf8 uid) = utf8 ('{' :: (quoted method ++ ':' :: (quoted methodName ++
      ',' :: (quoted deviceType ++ ':' :: (quoted typeName ++ ',' :: (quoted idKey ++ ':' ::
      quoted uid)))) ++ ['}'])) := by
  rw [requestBody_eq, hmethod, hname, hdevice, htype, hkey]
  apply objectText_utf8
  have hcomma : String.utf8EncodeChar ',' = [44] := by decide
  simp only [membersText, memberText_utf8, utf8_append, utf8_cons, hcomma, List.append_assoc,
    List.cons_append, List.nil_append]

/-- What is read off a body as its uid takes up all of the body's text, and no more. -/
theorem plain_of_decoded {uid : List Char} (hjson : Rfc8259 json)
    (h : Asks json type.name type.idKey m.name (requestBody type m (utf8 uid)) (utf8 uid)) :
    Plain (utf8 uid) := by
  obtain ⟨members, hload, -, hid, -⟩ := h
  obtain ⟨method, hmethod, hmethodPlain⟩ := (plain_cstr (t := "method") (by decide)).exists_utf8
  obtain ⟨deviceType, hdevice, hdevicePlain⟩ :=
    (plain_cstr (t := "deviceType") (by decide)).exists_utf8
  obtain ⟨methodName, hname, hnamePlain⟩ := (plain_methodName m).exists_utf8
  obtain ⟨typeName, htype, htypePlain⟩ := (plain_typeName type).exists_utf8
  obtain ⟨idKey, hkey, -⟩ := (plain_idKey type).exists_utf8
  rw [requestBody_utf8 hmethod hname hdevice htype hkey, loadFromData_braces_iff hjson] at hload
  obtain ⟨members', hmembers, hlist | ⟨hws, -⟩⟩ := hload
  · obtain rfl := JsonNode.object.inj hmembers
    obtain ⟨_, rfl, hlist'⟩ := hlist.peel hmethodPlain hnamePlain
    obtain ⟨rest, rfl, hlast⟩ := hlist'.peel hdevicePlain htypePlain
    -- neither of the first two members has the name of the id
    have hmem : (utf8 idKey, .string (utf8 uid)) ∈ rest := by
      rw [← hmethod, ← hdevice] at hid
      rcases stringMember_cons_iff.mp hid with hid | ⟨hclash, -⟩
      · rcases stringMember_cons_iff.mp hid with hid | ⟨hclash, -⟩
        · exact hkey ▸ hid.mem
        · exact absurd (Prod.mk.inj hclash).1 (by cases type <;> decide)
      · exact absurd (Prod.mk.inj hclash).1 (by cases type <;> decide)
    have hlength : (quoted idKey ++ ':' :: quoted uid).length ≤ idKey.length + uid.length + 5 := by
      simp only [quoted, List.length_append, List.length_cons, List.length_nil]
      omega
    exact plain_utf8_iff.mpr ((hlast.length hmem).2 hlength)
  · exact absurd (hws '"' (by simp [quoted])) (by decide)

/-- A request comes back as it was sent exactly when its uid is plain: without quotation
marks, backslashes and control characters. -/
theorem request_round_trips_iff (hjson : Rfc8259 json) (type : DeviceType) (m : BackendMethod)
    (uid : String) :
    RoundTrips json type m (cstr uid) ↔
      ∀ c ∈ uid.toList, 32 ≤ c.toNat ∧ c ≠ '"' ∧ c ≠ '\\' := by
  have hplain : Plain (cstr uid) ↔ ∀ c ∈ uid.toList, 32 ≤ c.toNat ∧ c ≠ '"' ∧ c ≠ '\\' := by
    rw [cstr_eq_utf8, plain_utf8_iff]
    simp only [unescaped, Bool.and_eq_true, decide_eq_true_eq, and_assoc]
  rw [← hplain]
  constructor
  · intro h
    have hdecoded := h.decoded
    rw [cstr_eq_utf8] at hdecoded ⊢
    exact plain_of_decoded hjson hdecoded
  · exact fun huid => roundTrips_of_plain hjson.readsPlain huid type m

theorem checksum_round_trips : RoundTrips rfcParser .edge .enroll (cstr "5d41402abc4b2a76") := by
  have hplain : "5d41402abc4b2a76".toList.all unescaped = true := by decide
  apply (request_round_trips_iff rfcParser_rfc8259 .edge .enroll "5d41402abc4b2a76").mpr
  intro c hc
  simpa only [unescaped, Bool.and_eq_true, decide_eq_true_eq, and_assoc] using
    List.all_eq_true.mp hplain c hc

/-- A uid with a quotation mark in it. -/
theorem quoted_uid_lost :
    Rfc8259 rfcParser ∧ ¬ RoundTrips rfcParser .edge .enroll (cstr "edge\"1") := by
  refine ⟨rfcParser_rfc8259, fun h => ?_⟩
  have hdecoded := h.decoded
  rw [cstr_eq_utf8] at hdecoded
  have hplain := plain_of_decoded rfcParser_rfc8259 hdecoded
  rw [← cstr_eq_utf8] at hplain
  exact hplain.noQuote (by decide)

end Chamge
