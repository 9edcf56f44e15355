import Mathlib.Algebra.BigOperators.Group.List.Basic
import Mathlib.Algebra.Ring.Nat
import Mathlib.Data.List.Basic
import Chamge.Lib.Machine
import Chamge.Pump

/-! The main-loop source that an activated edge attaches to its connection, over the
library's inbound side: bytes in the socket, bytes in the inbound buffer, and the messages
that a synchronous call decoded and queued while it waited for its reply. -/

namespace Chamge
open CString

/-! ### The library -/

/-- A whole message on the wire, or the reply to a synchronous call. -/
structure Frame where
  message : Option AmqpEnvelope
  size : ℕ
  size_pos : 0 < size

def totalSize (l : List Frame) : ℕ := (l.map Frame.size).sum

/-- `stream` is what is sent and not yet decoded; its first `buffered` bytes are in the
inbound buffer and the next `unread` ones in the socket. -/
structure Inbound where
  frames : List AmqpEnvelope
  stream : List Frame
  buffered : ℕ
  unread : ℕ

/-- One read of the socket: the bytes that arrive until then, and those it takes. -/
structure Recv where
  arriving : ℕ
  taken : ℕ

def Inbound.arrive (c : Inbound) (n : ℕ) : Option Inbound :=
  if c.buffered + c.unread + n ≤ totalSize c.stream then
    some { c with unread := c.unread + n }
  else none

def Inbound.recv (c : Inbound) (r : Recv) : Option Inbound :=
  (c.arrive r.arriving).bind fun c =>
    if 0 < r.taken ∧ r.taken ≤ c.unread then
      some { c with buffered := c.buffered + r.taken, unread := c.unread - r.taken }
    else none

def Inbound.decode (c : Inbound) : Option (Frame × Inbound) :=
  match c.stream with
  | [] => none
  | f :: rest =>
    if f.size ≤ c.buffered then
      some (f, { c with stream := rest, buffered := c.buffered - f.size })
    else none

/-- Bytes in the inbound buffer do not count. -/
def amqpFramesEnqueued (c : Inbound) : Bool := !c.frames.isEmpty

def consumeStream : List Recv → Inbound → Option (Option AmqpEnvelope × Inbound)
  | [], c =>
    match c.decode with
    | some (f, rest) => f.message.map fun e => (some e, rest)
    | none => if c.unread = 0 then some (none, c) else none
  | r :: reads, c =>
    match c.decode with
    | some _ => none
    | none => (c.recv r).bind (consumeStream reads)

/-- `amqp_consume_message` with a timeout of zero: from the queue, then from the buffer,
then from the socket while it has bytes. `none` in the result is the time-out. -/
def amqpConsumeMessage (c : Inbound) (reads : List Recv) :
    Option (Option AmqpEnvelope × Inbound) :=
  match c.frames with
  | e :: frames => if reads.isEmpty then some (some e, { c with frames }) else none
  | [] => consumeStream reads c

/-- The part of a synchronous call that the buffer serves: messages are queued until the
reply comes up, if it does. -/
def decodeReply : List Frame → ℕ → List AmqpEnvelope → Bool × List Frame × ℕ × List AmqpEnvelope
  | [], n, frames => (false, [], n, frames)
  | f :: rest, n, frames =>
    if f.size ≤ n then
      match f.message with
      | some e => decodeReply rest (n - f.size) (frames ++ [e])
      | none => (true, rest, n - f.size, frames)
    else (false, f :: rest, n, frames)

/-- A synchronous call waiting for its reply, past the queue and without a timeout. -/
def awaitReply : List Recv → Inbound → Option Inbound
  | [], c =>
    match decodeReply c.stream c.buffered c.frames with
    | (true, stream, buffered, frames) => some { c with stream, buffered, frames }
    | (false, _) => none
  | r :: reads, c =>
    match decodeReply c.stream c.buffered c.frames with
    | (true, _) => none
    | (false, stream, buffered, frames) =>
      (Inbound.recv { c with stream, buffered, frames } r).bind (awaitReply reads)

/-! ### The source -/

/-- What the broker sends while a synchronous call waits: messages, the reply, and more
messages that reads of the call may bring with it. -/
structure SyncCall where
  before : List Frame
  reply : Frame
  after : List Frame
  reads : List Recv
  before_message : ∀ f ∈ before, f.message ≠ none
  after_message : ∀ f ∈ after, f.message ≠ none
  reply_message : reply.message = none

def Inbound.expect (c : Inbound) (call : SyncCall) : Inbound :=
  { c with stream := c.stream ++ (call.before ++ call.reply :: call.after) }

def SyncCall.run (call : SyncCall) (c : Inbound) : Option Inbound :=
  awaitReply call.reads (c.expect call)

def messagesOf (l : List Frame) : List AmqpEnvelope := l.filterMap Frame.message

/-- `sent` and `handed` are the messages sent on the subscription and those handed to the
handler since the start. -/
structure SourceState where
  attached : Bool
  conn : Inbound
  sent : List AmqpEnvelope
  handed : List AmqpEnvelope

def SourceState.init : SourceState := ⟨false, ⟨[], [], 0, 0⟩, [], []⟩

def chamgeAmqpSourcePrepare (s : SourceState) : Bool := amqpFramesEnqueued s.conn

/-- `revents` after a poll has `G_IO_IN` where the socket has unread bytes. -/
def chamgeAmqpSourceCheck (s : SourceState) : Bool := 0 < s.conn.unread

/-- The handler of an activated edge. A request makes it ask the broker for the reply
queue, which is a synchronous call on the same connection. -/
def processAmqpMessage (envelope : AmqpEnvelope) (call : Option SyncCall) (c : Inbound) :
    Option Inbound :=
  match replyAddress envelope, call with
  | none, none => some c
  | some _, some call => call.run c
  | _, _ => none

def chamgeAmqpSourceDispatch (s : SourceState) (reads : List Recv) (call : Option SyncCall) :
    Option SourceState :=
  (amqpConsumeMessage s.conn reads).bind fun
    | (none, c) => if call.isNone then some { s with conn := c } else none
    | (some e, c) => (processAmqpMessage e call c).map fun conn =>
      { s with
        conn, handed := s.handed ++ [e]
        sent := s.sent ++ (call.elim [] fun call => messagesOf (call.before ++ call.after)) }

/-- The subscription of `activate` with the source attached after it, a message sent by the
broker, bytes arriving at the socket, and one iteration of the main loop. -/
inductive SourceLabel
  | activate (call : SyncCall)
  | send (f : Frame)
  | arrive (n : ℕ)
  | iterate (reads : List Recv) (call : Option SyncCall)

def amqpSource : Machine SourceState SourceLabel where
  step s
    | .activate call =>
      if s.attached then none
      else (call.run s.conn).map fun conn =>
        { s with attached := true, conn, sent := s.sent ++ messagesOf (call.before ++ call.after) }
    | .send f => f.message.map fun e =>
      { s with conn := { s.conn with stream := s.conn.stream ++ [f] }, sent := s.sent ++ [e] }
    | .arrive n => (s.conn.arrive n).map fun conn => { s with conn }
    | .iterate reads call =>
      if s.attached && (chamgeAmqpSourcePrepare s || chamgeAmqpSourceCheck s) then
        chamgeAmqpSourceDispatch s reads call
      else none

end Chamge
