import AgentHub.Program
import AgentHub.Sync.Message
import AgentHub.Channels.Claims
import Mathlib.Data.String.Basic

/-!
# Direct channels

A pair of agents shares one stream, under a key made of both names.  Posting to it and reading from
it are programs of Redis commands, each of which may fail; a command that failed may have been
carried out all the same.
-/

namespace AgentHub.Channels

open AgentHub.Text AgentHub.Validation AgentHub.Outbox AgentHub.Json Program
open AgentHub.Sync (StreamId Entry EntryFields Codec)
open AgentHub.Hub (Expiring readKey jsonText protocolVersion)

/-! ### Keys -/

def directPrefix : String := "bus:direct:"

/-- `direct_key`: the names in order, so that both agents come to the same stream. -/
def directKey (agentA agentB : String) : String :=
  let (lo, hi) := if agentA ≤ agentB then (agentA, agentB) else (agentB, agentA)
  s!"{directPrefix}{lo}:{hi}"

def channelStreamMaxlen : Nat := 1000

def directStreamTtlSecs : Nat := 604800

def groupMembersTtlSecs : Nat := 2592000

/-- The lifetime of a channel stream. -/
def streamTtl (streamKey : String) : Nat :=
  if startsWith streamKey directPrefix then directStreamTtlSecs else groupMembersTtlSecs

/-! ### Commands -/

inductive ChannelCall where
  | connect
  /-- `Uuid::now_v7()`. -/
  | uuid
  /-- `Utc::now()`. -/
  | now
  /-- `XADD key MAXLEN ~ 1000 * fields`. -/
  | xadd (key : String) (fields : EntryFields)
  | expire (key : String) (seconds : Nat)
  /-- `XREVRANGE key + - COUNT count`. -/
  | xrevrange (key : String) (count : Nat)

/-- The answer, or the text of the error. -/
abbrev ChannelCall.Reply : ChannelCall → Type
  | .connect => Except String Unit
  | .uuid => String
  | .now => Nat
  | .xadd _ _ => Except String StreamId
  | .expire _ _ => Except String Unit
  | .xrevrange _ _ => Except String (List Entry)

/-! ### Store -/

/-- A stream keeps the last identifier it gave, also when the entry is trimmed. -/
structure Stream where
  entries : List Entry := []
  lastId : StreamId := StreamId.zero

/-- Deadlines are milliseconds, the clock is nanoseconds. -/
structure ChannelStore where
  streams : String → Option (Expiring Stream) := fun _ => none
  clock : Nat := 0

/-- What becomes of a command. -/
inductive Fate where
  | served
  /-- It is not carried out. -/
  | refused (error : String)
  /-- It is carried out and the answer is lost. -/
  | lost (error : String)

/-- The surroundings of a call: the time before it, its fate, a fresh identifier, and how many
entries the server would like to trim. -/
structure ChannelEnv where
  delay : Nat
  fate : Fate
  uuid : String
  trimmed : Nat

namespace ChannelStore

def wait (s : ChannelStore) (delay : Nat) : ChannelStore := { s with clock := s.clock + delay }

def nowMs (s : ChannelStore) : Nat := s.clock / 1000000

/-- The stream a command finds; a missing one is empty. -/
def stream (s : ChannelStore) (key : String) : Stream := (readKey (s.streams key) s.nowMs).getD {}

def deadline (s : ChannelStore) (key : String) : Option Nat :=
  if (readKey (s.streams key) s.nowMs).isSome then (s.streams key).bind Expiring.deadline else none

def setKey (s : ChannelStore) (key : String) (slot : Option (Expiring Stream)) : ChannelStore :=
  { s with streams := Function.update s.streams key slot }

end ChannelStore

/-- The identifier `*` stands for. -/
def nextStreamId (last : StreamId) (ms : Nat) : StreamId :=
  if (ofLex last).1 < ms then StreamId.mk ms 0
  else StreamId.mk (ofLex last).1 ((ofLex last).2 + 1)

/-- `MAXLEN ~`: the server trims as many entries as it likes, but keeps the last thousand. -/
def trimEntries (trimmed : Nat) (entries : List Entry) : List Entry :=
  entries.drop (min trimmed (entries.length - channelStreamMaxlen))

namespace ChannelStore

def xadd (s : ChannelStore) (key : String) (fields : EntryFields) (trimmed : Nat) :
    ChannelStore × StreamId :=
  let id := nextStreamId (s.stream key).lastId s.nowMs
  let entries := trimEntries trimmed ((s.stream key).entries ++ [⟨id, fields⟩])
  (s.setKey key (some ⟨⟨entries, id⟩, s.deadline key⟩), id)

/-- `EXPIRE`, which does nothing where there is no key. -/
def expire (s : ChannelStore) (key : String) (seconds : Nat) : ChannelStore :=
  match readKey (s.streams key) s.nowMs with
  | some stream => s.setKey key (some ⟨stream, some (s.nowMs + seconds * 1000)⟩)
  | none => s

/-- The answer of `XREVRANGE`; a count is a signed number. -/
def xrevrange (s : ChannelStore) (key : String) (count : Nat) : Except String (List Entry) :=
  if count < 2 ^ 63 then .ok ((s.stream key).entries.reverse.take count)
  else .error "ResponseError: value is not an integer or out of range"

/-- A command with an answer, after its fate. -/
def settle {α : Type} (s : ChannelStore) (fate : Fate) (served : ChannelStore × Except String α) :
    ChannelStore × Option (Except String α) :=
  match fate with
  | .served => (served.1, some served.2)
  | .refused error => (s, some (.error error))
  | .lost error => (served.1, some (.error error))

def execute (s : ChannelStore) (env : ChannelEnv) :
    (c : ChannelCall) → ChannelStore × Option c.Reply
  | .connect => s.settle env.fate (s, .ok ())
  | .uuid => (s, some env.uuid)
  | .now => (s, some s.clock)
  | .xadd key fields =>
    let (t, id) := s.xadd key fields env.trimmed
    s.settle env.fate (t, .ok id)
  | .expire key seconds => s.settle env.fate (s.expire key seconds, .ok ())
  | .xrevrange key count => s.settle env.fate (s, s.xrevrange key count)

def serve (c : ChannelCall) (env : ChannelEnv) (s : ChannelStore) :
    ChannelStore × Option c.Reply :=
  (s.wait env.delay).execute env c

end ChannelStore

/-! ### Operations -/

abbrev Channeling (α : Type) := Program ChannelCall ChannelCall.Reply AgentBusError α

/-- An error of Redis, as the channel functions report it. -/
def reported {α : Type} (message : String) : Except String α → Channeling α
  | .ok a => done a
  | .error e => fail (.internal (message ++ e))

def connect : Channeling Unit := do
  let reply ← perform .connect
  reported "Redis connection failed for all loopback candidates: " reply

/-- What `xadd_to_stream` refuses. -/
def checkEntry (topic body : String) : Except AgentBusError Unit := do
  rejectNulBytes topic "topic"
  rejectNulBytes body "body"
  if len topic > maxTopicLen then
    .error (.invalidParams s!"topic exceeds maximum length of {maxTopicLen}")
  else if len body > maxBodyLen then
    .error (.invalidParams s!"body exceeds maximum length of {maxBodyLen}")
  else .ok ()

/-- A message of a channel. -/
structure ChannelPost where
  sender : String
  recipient : String
  topic : String
  body : String
  threadId : Option String
  tags : List String
  priority : String
  metadata : Value

/-- The fields of the entry of a message. -/
def ChannelPost.entryFields (p : ChannelPost) (id timestampUtc : String) : EntryFields :=
  [("id", id),
   ("timestamp_utc", timestampUtc),
   ("protocol_version", protocolVersion),
   ("from", p.sender),
   ("to", p.recipient),
   ("topic", p.topic),
   ("body", p.body),
   ("tags", jsonText (.arr (p.tags.map .str))),
   ("priority", p.priority),
   ("request_ack", "false"),
   ("reply_to", p.sender),
   ("metadata", jsonText p.metadata)] ++
  if p.threadId.getD "" = "" then [] else [("thread_id", p.threadId.getD "")]

/-- The message that is returned to its sender. -/
def ChannelPost.message (p : ChannelPost) (id timestampUtc : String) (streamId : StreamId) :
    Sync.Message where
  id
  timestampUtc
  protocolVersion
  fromAgent := p.sender
  toAgent := p.recipient
  topic := p.topic
  body := p.body
  threadId := p.threadId
  tags := p.tags
  priority := p.priority
  requestAck := false
  replyTo := some p.sender
  metadata := p.metadata
  streamId := some streamId.text
  clientMsgId := none
  originHub := none
  originSeq := none
  hlc := none
  sensitivity := none

def xaddToStream (streamKey : String) (p : ChannelPost) : Channeling Sync.Message := do
  check (checkEntry p.topic p.body)
  let id ← perform .uuid
  let now ← perform .now
  let timestampUtc := formatTimestamp now
  let added ← perform (.xadd streamKey (p.entryFields id timestampUtc))
  let streamId ← reported "XADD to channel stream failed: " added
  let refreshed ← perform (.expire streamKey (streamTtl streamKey))
  reported "EXPIRE channel stream failed: " refreshed
  return p.message id timestampUtc streamId

/-- `decode_channel_entry`. -/
def decodeChannelEntry (codec : Codec) (entry : Entry) : Sync.Message where
  id := entry.fields.text "id"
  timestampUtc := entry.fields.text "timestamp_utc"
  protocolVersion := entry.fields.text "protocol_version"
  fromAgent := entry.fields.text "from"
  toAgent := entry.fields.text "to"
  topic := entry.fields.text "topic"
  body := entry.fields.text "body"
  threadId :=
    let v := entry.fields.text "thread_id"
    if v.isEmpty ∨ v = "None" then none else some v
  tags := Sync.jsonTexts (entry.fields.text "tags")
  priority :=
    let v := entry.fields.text "priority"
    if v.isEmpty then "normal" else v
  requestAck := entry.fields.text "request_ack" = "true" || entry.fields.text "request_ack" = "True"
  replyTo := Sync.nonEmpty (entry.fields.text "reply_to")
  metadata := (readDocument codec.doubles (entry.fields.text "metadata").toList).getD (.obj [])
  streamId := some entry.id.text
  clientMsgId := none
  originHub := none
  originSeq := none
  hlc := none
  sensitivity := none

def xreadFromStream (codec : Codec) (streamKey : String) (limit : Nat) :
    Channeling (List Sync.Message) := do
  let reply ← perform (.xrevrange streamKey (max limit 1))
  let raw ← reported "XREVRANGE on channel stream failed: " reply
  return (raw.map (decodeChannelEntry codec)).reverse

/-- The checks of the names and the body of a direct message. -/
def checkDirect (sender recipient body : String) : Except AgentBusError Unit := do
  rejectNulInFields [(sender, "sender"), (recipient, "recipient")]
  if sender = "" then .error (.invalidParams "sender must not be empty")
  else if recipient = "" then .error (.invalidParams "recipient must not be empty")
  else if body = "" then .error (.invalidParams "body must not be empty")
  else .ok ()

/-- The message `post_direct` writes. -/
def directPost (sender recipient topic body : String) (threadId : Option String)
    (tags : List String) : ChannelPost where
  sender
  recipient
  topic
  body
  threadId
  tags
  priority := "normal"
  metadata := .obj [("channel", .str "direct"), ("recipient", .str recipient)]

def postDirect (sender recipient topic body : String) (threadId : Option String)
    (tags : List String) : Channeling Sync.Message := do
  check (checkDirect sender recipient body)
  connect
  xaddToStream (directKey sender recipient) (directPost sender recipient topic body threadId tags)

def readDirect (codec : Codec) (agentA agentB : String) (limit : Nat) :
    Channeling (List Sync.Message) := do
  connect
  xreadFromStream codec (directKey agentA agentB) limit

/-! ### Runs -/

inductive DirectOp where
  | post (sender recipient topic body : String) (threadId : Option String) (tags : List String)
  | read (agentA agentB : String) (limit : Nat)

inductive DirectReply where
  | posted (message : Sync.Message)
  | messages (messages : List Sync.Message)

def DirectOp.program (codec : Codec) : DirectOp → Channeling DirectReply
  | .post sender recipient topic body threadId tags => do
    let message ← postDirect sender recipient topic body threadId tags
    return .posted message
  | .read agentA agentB limit => do
    let messages ← readDirect codec agentA agentB limit
    return .messages messages

structure DirectInput where
  op : DirectOp
  env : Nat → ChannelEnv

def ChannelStore.perform (codec : Codec) (s : ChannelStore) (i : DirectInput) :
    ChannelStore × Except AgentBusError DirectReply :=
  (i.op.program codec).run ChannelStore.serve (.internal "unreachable") i.env s

/-- The operations one after the other. -/
def directBus (codec : Codec) :
    Machine ChannelStore DirectInput (DirectOp × Except AgentBusError DirectReply) where
  step s i := ((s.perform codec i).1, [(i.op, (s.perform codec i).2)])

end AgentHub.Channels
