import Chamge.Dispatch
import Chamge.RpcRequest

/-! The message pumps: which consumed envelopes are requests, and the reply to one. The
checks are the same text in the three backends. -/

namespace Chamge
open CString JsonGlib

/-- A length-delimited property that is there, not empty, and free of NULs. -/
def stringProperty (flag : Bool) (value : Bytes) : Option Bytes :=
  if flag ∧ 0 < value.length ∧ value.length ≤ strlen value then strndup value else none

theorem stringProperty_eq (flag : Bool) (value : Bytes) :
    stringProperty flag value = if flag = true ∧ Clean value then some value else none := by
  unfold stringProperty
  have hlong : value.length ≤ strlen value ↔ (0 : UInt8) ∉ value := by
    rw [← text_eq_self_iff, strlen, text]
    constructor
    · exact fun h => (List.takeWhile_prefix _).eq_of_length_le h
    · exact fun h => h.symm ▸ le_rfl
  by_cases hvalue : flag = true ∧ Clean value
  · rw [if_pos hvalue, if_pos ⟨hvalue.1, List.length_pos_iff.mpr hvalue.2.1,
      hlong.mpr hvalue.2.2⟩]
    exact (strndup_eq_self_iff value).mpr hvalue.2
  · rw [if_neg hvalue, if_neg fun h => hvalue ⟨h.1, List.length_pos_iff.mp h.2.1,
      hlong.mp h.2.2⟩]

def isJsonContent (props : AmqpBasicProperties) : Bool :=
  props.contentTypeFlag && strlen defaultContentType = props.contentType.length &&
    strncasecmp defaultContentType props.contentType props.contentType.length = 0

/-- Where the reply to a request goes, and the id it echoes. -/
structure ReplyAddress where
  replyQueue : Bytes
  correlationId : Option Bytes
  deriving DecidableEq

/-- The checks before the dispatch; an envelope that fails one is dropped. -/
def replyAddress (envelope : AmqpEnvelope) : Option ReplyAddress :=
  let props := envelope.properties
  if envelope.body = [] then none
  else if isJsonContent props = false then none
  else (stringProperty props.replyToFlag props.replyTo).map fun replyQueue =>
    ⟨replyQueue, stringProperty props.correlationIdFlag props.correlationId⟩

/-- `_process_json_message` of a device; `userCommand` is the handler's response. -/
def deviceProcessJsonMessage (json : JsonParser) (userCommand : Bytes → Option Bytes)
    (body : Bytes) : Bytes :=
  match json.loadFromData body with
  | .error _ => resultBody (cstr "failed to parse body")
  | .ok _ => (userCommand (text body)).getD (resultBody (cstr "not ok"))

/-- The body comes to the user-command handler. -/
def reachesHandler (json : JsonParser) (body : Bytes) : Bool :=
  match json.loadFromData body with
  | .error _ => false
  | .ok _ => true

end Chamge
