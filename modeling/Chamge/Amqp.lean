import Chamge.Types

/-! What the AMQP library hands over: replies with their error texts, basic properties,
envelopes, and the two properties records that this program sends. -/

namespace Chamge
open CString

inductive ServerMethod
  | connectionClose (code : ℕ) (text : Bytes)
  | channelClose (code : ℕ) (text : Bytes)
  | other (id : UInt32)
  deriving DecidableEq

/-- `amqp_rpc_reply_t`; `text` is what `amqp_error_string2` says of the library error. -/
inductive AmqpRpcReply
  | normal
  | missing
  | libraryException (error : Int) (text : Bytes)
  | serverException (method : ServerMethod)
  deriving DecidableEq

def amqpStatusTimeout : Int := -0x000D

def hex8 (id : UInt32) : String :=
  let digits := (Nat.toDigits 16 id.toNat).map Char.toUpper
  String.ofList (List.replicate (8 - digits.length) '0' ++ digits)

/-- The static buffer of 512 bytes that `g_snprintf` fills. -/
def amqpServerExceptionString (m : ServerMethod) : Bytes :=
  List.take 511 <| match m with
    | .connectionClose code text =>
      cstr s!"server connection error {code}, message: " ++ CString.text text
    | .channelClose code text =>
      cstr s!"server channel error {code}, message: " ++ CString.text text
    | .other id => cstr s!"unknown server error, method id 0x{hex8 id}"

/-- `_amqp_rpc_reply_string` of the edge and hub backends. -/
def amqpRpcReplyString : AmqpRpcReply → Bytes
  | .normal => cstr "normal response"
  | .missing => cstr "missing RPC reply type"
  | .libraryException _ text => text
  | .serverException m => amqpServerExceptionString m

/-- `_amqp_get_rpc_reply_string` of the arbiter and hub backends. -/
def amqpGetRpcReplyString : AmqpRpcReply → Bytes
  | .normal => cstr "response normal"
  | .missing => cstr "reply type is missing"
  | .libraryException _ text => text
  | .serverException m => amqpServerExceptionString m

/-- `amqp_basic_properties_t` with the flag bits the program reads or sets. -/
structure AmqpBasicProperties where
  contentTypeFlag : Bool
  deliveryModeFlag : Bool
  replyToFlag : Bool
  correlationIdFlag : Bool
  contentType : Bytes
  deliveryMode : ℕ
  replyTo : Bytes
  correlationId : Bytes
  deriving DecidableEq

structure AmqpEnvelope where
  channel : Int
  properties : AmqpBasicProperties
  body : Bytes
  deriving DecidableEq

/-- What `amqp_consume_message` returns; the envelope is filled on a normal reply. -/
structure ConsumeOutcome where
  reply : AmqpRpcReply
  envelope : AmqpEnvelope
  deriving DecidableEq

def defaultContentType : Bytes := cstr "application/json"

def requestProperties (replyQueue correlationId : Bytes) : AmqpBasicProperties :=
  { contentTypeFlag := true, deliveryModeFlag := true, replyToFlag := true,
    correlationIdFlag := true, contentType := defaultContentType, deliveryMode := 2,
    replyTo := replyQueue, correlationId }

/-- The properties of a reply: the request's correlation id where it has one. -/
def replyProperties (correlationId : Option Bytes) : AmqpBasicProperties :=
  { contentTypeFlag := true, deliveryModeFlag := true, replyToFlag := false,
    correlationIdFlag := correlationId.isSome, contentType := defaultContentType,
    deliveryMode := 2, replyTo := [], correlationId := correlationId.getD [] }

end Chamge
