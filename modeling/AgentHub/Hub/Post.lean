import AgentHub.Hub.Redis

/-!
# Posting

`busPostMessageWithSchema` posts one message, a Redis command after the other;
`busPostMessagesBatchWithSchema` posts a list of them with one pipeline for each kind of command.
Either may find any of its commands failing.  What they leave behind is an `Effects`.

A message comes with its `PostDraw`: what it draws from its surroundings, and which of the commands
sent for it are carried out.
-/

namespace AgentHub.Hub

open AgentHub.Json

/-- What a post reads besides its message. -/
structure PostConfig where
  platform : Platform
  settings : Settings
  /-- Whether there is a `PgWriter`. -/
  pgWriter : Bool
  hasSseSubscribers : Bool

/-- What one message draws, and which of its commands are carried out. -/
structure PostDraw where
  draw : Draw
  streamId : String
  notificationId : String
  notificationStreamId : String
  xadd : Bool
  publish : Bool
  pendingAck : Bool
  ackDeadline : Bool
  notify : Bool
  expire : Bool

structure Notification where
  id : String
  agent : String
  createdAt : String
  reason : String
  requiresAck : Bool
  message : Message
  notificationStreamId : Option String
  deriving DecidableEq

structure PostedMessage where
  message : Message
  notifications : List Notification
  deriving DecidableEq

inductive PostError where
  | xadd
  | publish
  deriving DecidableEq

/-- What posts add to the stores and to the channel, each in its order. -/
structure Effects where
  stream : List StreamEntry := []
  enqueued : List Message := []
  published : List BusEvent := []
  pendingAcks : List PendingAck := []
  /-- The records of `ack_deadline`, each with the seconds its key is kept. -/
  ackDeadlines : List (AckDeadline × Nat) := []
  notifications : List NotificationEntry := []

/-- One thing after another. -/
def Effects.append (a b : Effects) : Effects where
  stream := a.stream ++ b.stream
  enqueued := a.enqueued ++ b.enqueued
  published := a.published ++ b.published
  pendingAcks := a.pendingAcks ++ b.pendingAcks
  ackDeadlines := a.ackDeadlines ++ b.ackDeadlines
  notifications := a.notifications ++ b.notifications

instance : Append Effects := ⟨Effects.append⟩

/-! ### One message -/

/-- Whether a recipient has a notification stream. -/
def isDirect (toAgent : String) : Bool := !(toAgent.isEmpty || toAgent == "all")

/-- The fields of the stream entry. -/
def streamFields (settings : Settings) (platform : Platform) (draw : Draw) (d : Draft) :
    List (String × String) :=
  let compressed := compressedBody platform d.body
  let effectiveThreadId := d.threadId <|> d.replyTo
  let finalMetadata := annotatedMetadata d.metadata (inferredSchema d.schema d.topic)
    (compressed.map fun _ => Text.len d.body)
  let tags := effectiveTags settings.sessionId d.tags
  let threadStr := effectiveThreadId.getD ""
  [("id", draw.id),
   ("timestamp_utc", draw.timestampUtc),
   ("protocol_version", protocolVersion),
   ("from", d.fromAgent),
   ("to", d.toAgent),
   ("topic", d.topic),
   ("body", compressed.getD d.body),
   ("tags", jsonText (.arr (tags.map .str))),
   ("priority", d.priority),
   ("request_ack", if d.requestAck then "true" else "false"),
   ("reply_to", d.replyTo.getD d.fromAgent),
   ("metadata", jsonText finalMetadata)] ++
  (if threadStr.isEmpty then [] else [("thread_id", threadStr)]) ++
  (if compressed.isSome then [("_compressed", "lz4")] else [])

/-- The metadata of the message a single post returns: the stored one when a schema is in force or
the caller wrote one, else the caller's. -/
def effectiveMetadata (platform : Platform) (d : Draft) : Value :=
  let schema := inferredSchema d.schema d.topic
  let compressed := compressedBody platform d.body
  if schema.isSome || (d.metadata.field? "_schema").isSome then
    annotatedMetadata d.metadata schema (compressed.map fun _ => Text.len d.body)
  else d.metadata

/-- The message a single post returns. -/
def postedMessage (settings : Settings) (platform : Platform) (p : PostDraw) (d : Draft) :
    Message where
  id := p.draw.id
  timestampUtc := p.draw.timestampUtc
  protocolVersion
  fromAgent := d.fromAgent
  toAgent := d.toAgent
  topic := d.topic
  body := d.body
  threadId := d.threadId <|> d.replyTo
  tags := effectiveTags settings.sessionId d.tags
  priority := d.priority
  requestAck := d.requestAck
  replyTo := some (d.replyTo.getD d.fromAgent)
  metadata := effectiveMetadata platform d
  streamId := some p.streamId
  clientMsgId := none
  originHub := none

/-- `track_pending_ack` -/
def trackPendingAck (messageId recipient sentAt : String) : PendingAck :=
  ⟨messageId, recipient, sentAt⟩

/-- `store_ack_deadline` -/
def storeAckDeadline (messageId recipient priority deadlineAt : String) : AckDeadline × Nat :=
  (⟨messageId, recipient, deadlineAt⟩, ackDeadlineKeyTtl (ackDeadlineSeconds priority))

/-- The entry of a notification stream. -/
def notificationEntry (id : String) (m : Message) : NotificationEntry where
  agent := m.toAgent
  fields :=
    [("id", id),
     ("agent", m.toAgent),
     ("created_at", m.timestampUtc),
     ("reason", notificationReason m),
     ("requires_ack", if m.requestAck then "true" else "false")]
  message := m

def notification (p : PostDraw) (m : Message) : Notification where
  id := p.notificationId
  agent := m.toAgent
  createdAt := m.timestampUtc
  reason := notificationReason m
  requiresAck := m.requestAck
  message := m
  notificationStreamId := some p.notificationStreamId

/-- `append_notifications_for_message`, an error of which counts as no notification. -/
def appendNotificationsForMessage (p : PostDraw) (m : Message) :
    List NotificationEntry × List Notification :=
  if !isDirect m.toAgent then ([], [])
  else if !p.notify then ([], [])
  else if !p.expire then ([notificationEntry p.notificationId m], [])
  else ([notificationEntry p.notificationId m], [notification p m])

/-- `bus_post_message_with_schema`, without the warnings about ownership conflicts. -/
def busPostMessageWithSchema (c : PostConfig) (p : PostDraw) (d : Draft) :
    Effects × Except PostError PostedMessage :=
  if !p.xadd then ({}, .error .xadd)
  else
    let msg := postedMessage c.settings c.platform p d
    let added : Effects := {
      stream := [⟨p.streamId, streamFields c.settings c.platform p.draw d⟩]
      enqueued := if c.pgWriter then [msg] else [] }
    let due := shouldPublishMessageEvent msg c.hasSseSubscribers
    if due && !p.publish then (added, .error .publish)
    else
      let (entries, notifications) := appendNotificationsForMessage p msg
      let rest : Effects := {
        published := if due then [.message msg] else []
        pendingAcks :=
          if d.requestAck && p.pendingAck then
            [trackPendingAck p.draw.id d.toAgent msg.timestampUtc]
          else []
        ackDeadlines :=
          if d.requestAck && p.ackDeadline then
            [storeAckDeadline p.draw.id d.toAgent d.priority p.draw.deadlineAt]
          else []
        notifications := entries }
      (added ++ rest, .ok ⟨msg, notifications⟩)

/-- Messages posted one by one. -/
def postEach (c : PostConfig) :
    List (PostDraw × Draft) → Effects × List (Except PostError PostedMessage)
  | [] => ({}, [])
  | (p, d) :: items =>
    let (effects, result) := busPostMessageWithSchema c p d
    let (rest, results) := postEach c items
    (effects ++ rest, result :: results)

/-! ### A batch -/

/-- The fields of an entry of the batch. -/
def PreparedMessage.fields (pm : PreparedMessage) : List (String × String) :=
  [("id", pm.message.id),
   ("timestamp_utc", pm.message.timestampUtc),
   ("protocol_version", protocolVersion),
   ("from", pm.message.fromAgent),
   ("to", pm.message.toAgent),
   ("topic", pm.message.topic),
   ("body", pm.storedBody),
   ("tags", pm.tagsJson),
   ("priority", pm.message.priority),
   ("request_ack", pm.ackStr),
   ("reply_to", pm.message.replyTo.getD pm.message.fromAgent),
   ("metadata", pm.metaJson)] ++
  (if pm.threadStr.isEmpty then [] else [("thread_id", pm.threadStr)]) ++
  (if pm.isCompressed then [("_compressed", "lz4")] else [])

/-- A message of the batch once its entry has an identifier. -/
def batchMessage (settings : Settings) (platform : Platform) (p : PostDraw) (d : Draft) : Message :=
  { (prepareMessage platform settings.sessionId p.draw d).message with
    streamId := some p.streamId }

/-- Whether a command of the notification pipeline sent for a message fails. -/
def notifyFails (p : PostDraw) (m : Message) : Bool := isDirect m.toAgent && !(p.notify && p.expire)

/-- `bus_post_messages_batch_with_schema`.  A pipeline fails when one of its commands does; the
others are carried out all the same. -/
def busPostMessagesBatchWithSchema (c : PostConfig) (payloads : List (PostDraw × Draft)) :
    Effects × Except PostError (List PostedMessage) :=
  let stream := payloads.flatMap fun (p, d) =>
    if p.xadd then
      [⟨p.streamId, (prepareMessage c.platform c.settings.sessionId p.draw d).fields⟩]
    else []
  if payloads.any fun (p, _) => !p.xadd then ({ stream }, .error .xadd)
  else
    let messages := payloads.map fun (p, d) => (p, batchMessage c.settings c.platform p d)
    let effects : Effects := {
      stream
      published := messages.flatMap fun (p, msg) =>
        if shouldPublishMessageEvent msg c.hasSseSubscribers && p.publish then [.message msg]
        else []
      enqueued := if c.pgWriter then messages.map Prod.snd else []
      pendingAcks := messages.flatMap fun (p, msg) =>
        if msg.requestAck && p.pendingAck then [⟨msg.id, msg.toAgent, msg.timestampUtc⟩] else []
      ackDeadlines := messages.flatMap fun (p, msg) =>
        if msg.requestAck && p.ackDeadline then
          [(⟨msg.id, msg.toAgent, p.draw.deadlineAt⟩,
            ackDeadlineKeyTtl (ackDeadlineSeconds msg.priority))]
        else []
      notifications := messages.flatMap fun (p, msg) =>
        if isDirect msg.toAgent && p.notify then [notificationEntry p.notificationId msg] else [] }
    let notified := messages.all fun (p, msg) => !notifyFails p msg
    (effects, .ok (messages.map fun (p, msg) =>
      ⟨msg, if notified && isDirect msg.toAgent then [notification p msg] else []⟩))

end AgentHub.Hub
