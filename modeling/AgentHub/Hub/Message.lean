import AgentHub.Json.Text
import AgentHub.Outbox.Record

/-!
# Messages and presences

The records a hub stores, and `prepareMessage`, which turns the parts of a post into the record and
the stream fields.  What a call draws from its surroundings (an identifier, the clock) is a `Draw`,
and the libraries behind it are a `Platform`.
-/

namespace AgentHub.Hub

open AgentHub.Json AgentHub.Text AgentHub.Validation AgentHub.Outbox

/-- The library functions the hub calls. -/
structure Platform where
  sha256 : List UInt8 → Digest
  /-- `lz4_compress_body`: LZ4 with the size in front, in Base64. -/
  lz4CompressBody : String → String
  /-- A millisecond count as `%Y-%m-%dT%H:%M:%S%.6fZ`, within the range of the calendar. -/
  formatMillis : UInt64 → Option String
  /-- The milliseconds of an RFC 3339 text. -/
  parseRfc3339 : String → Option Int

/-- The part of the configuration the modelled functions read. -/
structure Settings where
  hubIdentity : Option String
  sessionId : Option String

/-- What a call draws: a fresh identifier, the time, and the time an acknowledgement is due. -/
structure Draw where
  id : String
  timestampUtc : String
  deadlineAt : String
  deriving DecidableEq

/-! ### Records -/

def protocolVersion : String := "1.0"

structure Message where
  id : String
  timestampUtc : String
  protocolVersion : String
  fromAgent : String
  toAgent : String
  topic : String
  body : String
  threadId : Option String
  tags : List String
  priority : String
  requestAck : Bool
  replyTo : Option String
  metadata : Value
  streamId : Option String
  clientMsgId : Option String
  originHub : Option String
  deriving DecidableEq

/-- The fields of a message as the structure is written; absent ones are left out. -/
def Message.fields (m : Message) : Fields :=
  Fields.compact
    [("id", some (.str m.id)),
     ("timestamp_utc", some (.str m.timestampUtc)),
     ("protocol_version", some (.str m.protocolVersion)),
     ("from", some (.str m.fromAgent)),
     ("to", some (.str m.toAgent)),
     ("topic", some (.str m.topic)),
     ("body", some (.str m.body)),
     ("thread_id", m.threadId.map .str),
     ("tags", some (.arr (m.tags.map .str))),
     ("priority", some (.str m.priority)),
     ("request_ack", some (.bool m.requestAck)),
     ("reply_to", m.replyTo.map .str),
     ("metadata", some m.metadata),
     ("stream_id", m.streamId.map .str),
     ("client_msg_id", m.clientMsgId.map .str),
     ("origin_hub", m.originHub.map .str)]

structure Presence where
  agent : String
  status : String
  protocolVersion : String
  timestampUtc : String
  sessionId : String
  capabilities : List String
  metadata : Value
  ttlSeconds : Nat
  deriving DecidableEq

def Presence.fields (p : Presence) : Fields :=
  [("agent", .str p.agent),
   ("status", .str p.status),
   ("protocol_version", .str p.protocolVersion),
   ("timestamp_utc", .str p.timestampUtc),
   ("session_id", .str p.sessionId),
   ("capabilities", .arr (p.capabilities.map .str)),
   ("metadata", p.metadata),
   ("ttl_seconds", .int p.ttlSeconds)]

/-- What `track_pending_ack` stores. -/
structure PendingAck where
  messageId : String
  recipient : String
  sentAt : String
  deriving DecidableEq

/-- A record of `ack_deadline`, as it is first stored. -/
structure AckDeadline where
  messageId : String
  recipient : String
  deadlineAt : String
  deriving DecidableEq

/-- An event on the hub's channel. -/
inductive BusEvent where
  | message (message : Message)
  | presence (presence : Presence)
  deriving DecidableEq

/-! ### Rules shared by every post -/

def compressThreshold : Nat := 512

def pendingAckTtl : Nat := 300

def notificationStreamTtlSecs : Nat := 259200

def notificationReason (m : Message) : String :=
  if m.topic = "knock" then "knock"
  else if m.requestAck then "direct_request_ack"
  else "direct_message"

def shouldPublishMessageEvent (m : Message) (hasSseSubscribers : Bool) : Bool :=
  hasSseSubscribers || (!m.toAgent.isEmpty && m.toAgent ≠ "all")

def ackDeadlineSeconds (priority : String) : Nat :=
  if priority = "critical" ∨ priority = "urgent" then 60
  else if priority = "high" then 120
  else 300

def ackDeadlineRetentionSecs : Nat := 7 * 24 * 60 * 60

def ackDeadlineKeyTtl (deadlineTtlSeconds : Nat) : Nat :=
  deadlineTtlSeconds + ackDeadlineRetentionSecs

/-- The JSON text of a value. -/
def jsonText (v : Value) : String := String.ofList (print v)

/-- The name of the schema in force: the checked one, else the topic's. -/
def inferredSchema (schema : Option MessageSchema) (topic : String) : Option String :=
  (schema <|> topicSchema topic).map MessageSchema.asStr

/-- A body above the threshold in its stored form. -/
def compressedBody (platform : Platform) (body : String) : Option String :=
  if len body > compressThreshold then some (platform.lz4CompressBody body) else none

/-- The metadata with its annotations: the schema in force replaces what the caller wrote under
`_schema`, and a compressed body leaves its markers. -/
def annotatedMetadata (metadata : Value) (schema : Option String) (compressedSize : Option Nat) :
    Value :=
  if schema.isSome || compressedSize.isSome || (metadata.field? "_schema").isSome then
    let map : Fields := match metadata with
      | .obj m => m
      | _ => []
    let map : Fields := map.remove "_schema"
    let map : Fields := match schema with
      | some schema => map.insert "_schema" (.str schema)
      | none => map
    let map : Fields := match compressedSize with
      | some size =>
        Fields.insert (map.insert "_compressed" (.str "lz4")) "_original_size" (.int size)
      | none => map
    .obj map
  else metadata

/-- The tags with that of the configured session. -/
def effectiveTags (sessionId : Option String) (tags : List String) : List String :=
  match sessionId with
  | none => tags
  | some sid =>
    let tag := "session:" ++ sid
    if tags.contains tag then tags else tags ++ [tag]

/-- The parts of a post. -/
structure Draft where
  fromAgent : String
  toAgent : String
  topic : String
  body : String
  threadId : Option String
  tags : List String
  priority : String
  requestAck : Bool
  replyTo : Option String
  metadata : Value
  schema : Option MessageSchema

structure PreparedMessage where
  message : Message
  storedBody : String
  tagsJson : String
  ackStr : String
  threadStr : String
  metaJson : String
  isCompressed : Bool

def prepareMessage (platform : Platform) (sessionId : Option String) (draw : Draw) (d : Draft) :
    PreparedMessage :=
  let reply := d.replyTo.getD d.fromAgent
  -- A reply without a thread of its own belongs to the thread of what it replies to.
  let effectiveThreadId := d.threadId <|> d.replyTo
  let compressed := compressedBody platform d.body
  let finalMetadata := annotatedMetadata d.metadata (inferredSchema d.schema d.topic)
    (compressed.map fun _ => len d.body)
  let tags := effectiveTags sessionId d.tags
  { message := {
      id := draw.id
      timestampUtc := draw.timestampUtc
      protocolVersion
      fromAgent := d.fromAgent
      toAgent := d.toAgent
      topic := d.topic
      body := d.body
      threadId := effectiveThreadId
      tags
      priority := d.priority
      requestAck := d.requestAck
      replyTo := some reply
      metadata := finalMetadata
      streamId := none
      clientMsgId := none
      originHub := none }
    storedBody := compressed.getD d.body
    tagsJson := jsonText (.arr (tags.map .str))
    ackStr := if d.requestAck then "true" else "false"
    threadStr := effectiveThreadId.getD ""
    metaJson := jsonText finalMetadata
    isCompressed := compressed.isSome }

end AgentHub.Hub
