import AgentHub.Hub.Message
import AgentHub.Json.Document
import Mathlib.Data.Prod.Lex

/-!
# Messages as the sync task sees them

A message with the fields cloud sync adds to it, the sensitivity that governs replication, the
fields of a stream entry in both directions (`decodeStreamEntry`, `xaddSynced`), the item of a push
(`PushMessage`) and the item of a pull (`Message.ofValue`).

The libraries behind these functions are a `Codec`.
-/

namespace AgentHub.Sync

open AgentHub.Json

/-- The library functions the sync task calls. -/
structure Codec where
  doubles : Doubles
  /-- `lz4_decompress_body`; `none` is its error. -/
  lz4DecompressBody : String → Option String

/-! ### Stream identifiers -/

/-- An identifier of a stream entry: milliseconds and a counter, ordered in that order. -/
abbrev StreamId := Nat ×ₗ Nat

namespace StreamId

def mk (ms seq : Nat) : StreamId := toLex (ms, seq)

/-- `0-0`, before every entry. -/
def zero : StreamId := mk 0 0

def text (id : StreamId) : String :=
  String.ofList (Nat.toDigits 10 (ofLex id).1 ++ '-' :: Nat.toDigits 10 (ofLex id).2)

end StreamId

/-! ### Sensitivity -/

inductive Sensitivity where
  | internal
  | noOffsite
  deriving DecidableEq, Repr

namespace Sensitivity

def asStr : Sensitivity → String
  | .internal => "internal"
  | .noOffsite => "no-offsite"

def parse (raw : String) : Option Sensitivity :=
  if raw = "internal" then some .internal
  else if raw = "no-offsite" then some .noOffsite
  else none

/-- A stored column or stream field: empty is unset, and what is not known stays on site. -/
def fromStored (raw : String) : Option Sensitivity :=
  if raw.isEmpty then none else some ((parse raw).getD .noOffsite)

end Sensitivity

def noOffsiteTag : String := "sensitivity:no-offsite"

/-- A message with the fields of cloud sync. -/
structure Message extends Hub.Message where
  originSeq : Option UInt64
  hlc : Option String
  sensitivity : Option Sensitivity
  deriving DecidableEq

/-- The explicit field, then `metadata.sensitivity`, then the tag. -/
def Message.effectiveSensitivity (m : Message) : Sensitivity :=
  match m.sensitivity with
  | some explicit => explicit
  | none =>
    match m.metadata.field? "sensitivity" with
    | some (.str raw) => (Sensitivity.parse raw).getD .noOffsite
    | none | some .null =>
      if m.tags.any fun tag => tag == noOffsiteTag then .noOffsite else .internal
    | some _ => .noOffsite

/-- Whether a message may leave the hub: it originated here and is plainly internal. -/
def pushable (m : Message) (hub : String) : Bool :=
  (m.originHub.all fun origin => origin == hub) && m.effectiveSensitivity == .internal

/-! ### Stream entries -/

/-- The fields of a stream entry, in the order they were written. -/
abbrev EntryFields := List (String × String)

/-- A field read into a map, where the last of two equal names stays. -/
def EntryFields.field (fields : EntryFields) (name : String) : Option String :=
  List.lookup name fields.reverse

/-- A field, empty where it is missing. -/
def EntryFields.text (fields : EntryFields) (name : String) : String :=
  (fields.field name).getD ""

def nonEmpty (value : String) : Option String := if value.isEmpty then none else some value

/-- `str::parse::<u64>`. -/
def parseU64 (s : String) : Option UInt64 :=
  let digits := match s.toList with
    | '+' :: ds => ds
    | ds => ds
  let n := Nat.ofDigitChars 10 digits 0
  if digits ≠ [] ∧ digits.all Char.isDigit ∧ n < 2 ^ 64 then some (UInt64.ofNat n) else none

/-- A JSON array of texts; anything else is read as the empty one. -/
def jsonTexts (s : String) : List String :=
  match fromStr s.toList with
  | .ok (.arr items) => (items.mapM Value.asStr).getD []
  | _ => []

variable (codec : Codec)

/-- The body of an entry; one that does not decompress is given as it is stored. -/
def entryBody (fields : EntryFields) : String :=
  let raw := fields.text "body"
  if fields.text "_compressed" = "lz4" then (codec.lz4DecompressBody raw).getD raw else raw

def entryMetadata (fields : EntryFields) : Value :=
  match fields.field "metadata" with
  | some raw => (readDocument codec.doubles raw.toList).getD (.obj [])
  | none => .obj []

def decodeStreamEntry (fields : EntryFields) : Message where
  id := fields.text "id"
  timestampUtc := fields.text "timestamp_utc"
  protocolVersion := fields.text "protocol_version"
  fromAgent := fields.text "from"
  toAgent := fields.text "to"
  topic := fields.text "topic"
  body := entryBody codec fields
  threadId :=
    let v := fields.text "thread_id"
    if v.isEmpty ∨ v = "None" then none else some v
  tags := ((fields.field "tags").map jsonTexts).getD []
  priority :=
    let v := fields.text "priority"
    if v.isEmpty then "normal" else v
  requestAck := fields.text "request_ack" = "true" || fields.text "request_ack" = "True"
  replyTo := nonEmpty (fields.text "reply_to")
  metadata := entryMetadata codec fields
  streamId := none
  clientMsgId := nonEmpty (fields.text "client_msg_id")
  originHub := nonEmpty (fields.text "origin_hub")
  originSeq := parseU64 (fields.text "origin_seq")
  hlc := nonEmpty (fields.text "hlc")
  sensitivity := Sensitivity.fromStored (fields.text "sensitivity")

/-- An entry of the hub's message stream. -/
structure Entry where
  id : StreamId
  fields : EntryFields
  deriving DecidableEq

/-- An entry as `read_messages_after` returns it. -/
def Entry.message (entry : Entry) : Message :=
  { decodeStreamEntry codec entry.fields with streamId := some entry.id.text }

/-- The fields `xadd_synced` writes for a message of another hub. -/
def syncedFields (m : Message) (originHub : String) : EntryFields :=
  [("id", m.id),
   ("timestamp_utc", m.timestampUtc),
   ("protocol_version", m.protocolVersion),
   ("from", m.fromAgent),
   ("to", m.toAgent),
   ("topic", m.topic),
   ("body", m.body),
   ("tags", Hub.jsonText (.arr (m.tags.map .str))),
   ("priority", m.priority),
   ("request_ack", if m.requestAck then "true" else "false"),
   ("reply_to", m.replyTo.getD ""),
   ("metadata", Hub.jsonText m.metadata),
   ("origin_hub", originHub)] ++
  [("thread_id", m.threadId),
   ("client_msg_id", m.clientMsgId),
   ("origin_seq", m.originSeq.map fun seq => toString seq.toNat),
   ("hlc", m.hlc),
   ("sensitivity", m.sensitivity.map Sensitivity.asStr)].filterMap
    fun kv => kv.2.map fun value => (kv.1, value)

/-! ### The wire -/

/-- The fields of an item of `/sync/push`.  A `reply_to` that only repeats the sender is not sent. -/
def pushSlots (m : Message) : List (String × Option Value) :=
  [("id", some (.str m.id)),
   ("timestamp_utc", some (.str m.timestampUtc)),
   ("protocol_version", some (.str m.protocolVersion)),
   ("sender", some (.str m.fromAgent)),
   ("recipient", some (.str m.toAgent)),
   ("topic", some (.str m.topic)),
   ("body", some (.str m.body)),
   ("tags", some (.arr (m.tags.map .str))),
   ("priority", some (.str m.priority)),
   ("request_ack", some (.bool m.requestAck)),
   ("metadata", some m.metadata),
   ("thread_id", m.threadId.map .str),
   ("reply_to", (m.replyTo.filter fun reply => !reply.isEmpty && reply ≠ m.fromAgent).map .str),
   ("client_msg_id", m.clientMsgId.map .str),
   ("origin_seq", m.originSeq.map fun seq => .int seq.toNat),
   ("hlc", m.hlc.map .str)]

/-- The item of `/sync/push`. -/
def pushMessage (m : Message) : Value := .obj (Fields.compact (pushSlots m))

/-- An optional field of a structure: missing and `null` are the same. -/
def readOption {α : Type} (read : Value → Option α) : Option Value → Option (Option α)
  | none | some .null => some none
  | some v => (read v).map some

/-- A field with a default, which `null` is no value of. -/
def readDefault {α : Type} (read : Value → Option α) (default : α) : Option Value → Option α
  | none => some default
  | some v => read v

def readTexts (v : Value) : Option (List String) := v.asArray.bind fun items => items.mapM Value.asStr

def readSensitivity (v : Value) : Option Sensitivity := v.asStr.bind Sensitivity.parse

/-- `serde_json::from_value::<Message>`. -/
def Message.ofValue (v : Value) : Option Message := do
  let text (name : String) : Option String := (v.field? name).bind Value.asStr
  let id ← text "id"
  let timestampUtc ← text "timestamp_utc"
  let protocolVersion ← text "protocol_version"
  let fromAgent ← text "from"
  let toAgent ← text "to"
  let topic ← text "topic"
  let body ← text "body"
  let threadId ← readOption Value.asStr (v.field? "thread_id")
  let tags ← readDefault readTexts [] (v.field? "tags")
  let priority ← readDefault Value.asStr "normal" (v.field? "priority")
  let requestAck ← readDefault Value.asBool false (v.field? "request_ack")
  let replyTo ← readOption Value.asStr (v.field? "reply_to")
  let metadata := (v.field? "metadata").getD .null
  let streamId ← readOption Value.asStr (v.field? "stream_id")
  let clientMsgId ← readOption Value.asStr (v.field? "client_msg_id")
  let originHub ← readOption Value.asStr (v.field? "origin_hub")
  let originSeq ← readOption Value.asU64 (v.field? "origin_seq")
  let hlc ← readOption Value.asStr (v.field? "hlc")
  let sensitivity ← readOption readSensitivity (v.field? "sensitivity")
  return {
    id, timestampUtc, protocolVersion, fromAgent, toAgent, topic, body, threadId, tags, priority
    requestAck, replyTo, metadata, streamId, clientMsgId, originHub
    originSeq := originSeq.map UInt64.ofNat, hlc, sensitivity }

end AgentHub.Sync
