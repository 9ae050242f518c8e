import AgentHub.Machine
import AgentHub.Hub.Script
import AgentHub.Outbox.Journal

/-!
# Accepting a replayed request

`accept` validates an envelope, plans its effect and runs the replay script; a claim then goes to
the ordinary claim authority and back through `finish_claim`, each a round trip of its own.  A call
is a `Task` that stands between two of these trips, and `HubState.machine` interleaves any number of
tasks with the commands of other programs, with crashes, and with the clock.
-/

namespace AgentHub.Hub

open AgentHub.Json AgentHub.Validation AgentHub.Outbox

inductive ReplayHubError where
  | invalid
  | identity
  | collision
  | unavailable
  | representation
  deriving DecidableEq, Repr

structure ReplayEnvelope where
  hubIdentity : String
  request : ReplayRequest
  deriving DecidableEq

/-! ### Planning -/

def text (args : Fields) (key default : String) : String :=
  (ReplayRequest.textArg args key).getD default

def strings (args : Fields) (key : String) : List String :=
  (((args.get key).bind Value.asArray).getD []).filterMap Value.asStr

def fingerprint (platform : Platform) (r : ReplayRequest) : String :=
  digestHex platform.sha256 (toVec r.serialize)

/-- Errors of the checks say no more than that the request is invalid. -/
def orInvalid {ε α : Type} : Except ε α → Except ReplayHubError α
  | .ok a => .ok a
  | .error _ => .error .invalid

def presencePlan (platform : Platform) (r : ReplayRequest) : Except ReplayHubError Effect := do
  let args := r.arguments
  let status := text args "status" "online"
  let capabilities := strings args "capabilities"
  orInvalid (rejectNulInFields [(status, "status")])
  capabilities.forM fun capability => orInvalid (rejectNulBytes capability "capability")
  let sessionId := text args "session_id" ""
  orInvalid (rejectNulBytes sessionId "session_id")
  match platform.formatMillis r.createdMs with
  | none => .error .invalid
  | some timestampUtc => return .presence {
    agent := text args "agent" ""
    status
    protocolVersion
    timestampUtc
    sessionId := if sessionId.isEmpty then r.requestId.toString else sessionId
    capabilities
    metadata := (args.get "metadata").getD (.obj [])
    ttlSeconds := (r.expiresMs.toNat - r.createdMs.toNat) / 1000 }

/-- The parts of the message a request stands for. -/
def ReplayRequest.draft (r : ReplayRequest) : Except ReplayHubError Draft := do
  let args := r.arguments
  let ack := r.operation = .ack
  let topic := if ack then "ack" else text args "topic" ""
  let priority := if ack then "normal" else text args "priority" "normal"
  orInvalid (validatePriority priority)
  let body := text args "body" (if ack then "ack" else "")
  let schema ← if ack then .ok none else
    orInvalid (resolveMessageSchema r.surface.asStr (ReplayRequest.textArg args "schema") topic)
  return {
    fromAgent := text args (if ack then "agent" else "sender") ""
    toAgent := if ack then "all" else text args "recipient" ""
    topic
    body := if ack then body else autoFitSchema body schema
    threadId := ReplayRequest.textArg args "thread_id"
    tags := if ack then [] else strings args "tags"
    priority
    requestAck := !ack && ((args.get "request_ack").bind Value.asBool).getD false
    replyTo := if ack then some (text args "message_id" "") else
      ReplayRequest.textArg args "reply_to"
    metadata := if ack then .obj [("ack_for", .str (text args "message_id" ""))] else
      (args.get "metadata").getD (.obj [])
    schema }

/-- The fields of the stream entry. -/
def entryFields (p : PreparedMessage) (clientMsgId originHub : String) : List (String × String) :=
  [("id", p.message.id),
   ("timestamp_utc", p.message.timestampUtc),
   ("protocol_version", protocolVersion),
   ("from", p.message.fromAgent),
   ("to", p.message.toAgent),
   ("topic", p.message.topic),
   ("body", p.storedBody),
   ("tags", p.tagsJson),
   ("priority", p.message.priority),
   ("request_ack", p.ackStr),
   ("reply_to", p.message.replyTo.getD ""),
   ("metadata", p.metaJson),
   ("client_msg_id", clientMsgId),
   ("origin_hub", originHub)] ++
  (if p.threadStr.isEmpty then [] else [("thread_id", p.threadStr)]) ++
  (if p.isCompressed then [("_compressed", "lz4")] else [])

/-- The message of a request as it is stored, before its entry has an identifier. -/
def replayMessage (p : PreparedMessage) (clientMsgId originHub : String) : Message :=
  { p.message with clientMsgId := some clientMsgId, originHub := some originHub }

/-- The effect of a request with the given parts. -/
def replayPlan (platform : Platform) (settings : Settings) (envelope : ReplayEnvelope)
    (draw : Draw) (hasSseSubscribers : Bool) (d : Draft) : MessagePlan :=
  let r := envelope.request
  let prepared := prepareMessage platform settings.sessionId draw d
  let message := replayMessage prepared r.requestId.toString envelope.hubIdentity
  { fields := entryFields prepared r.requestId.toString envelope.hubIdentity
    message
    publish := shouldPublishMessageEvent message hasSseSubscribers
    notification :=
      if d.toAgent ≠ "all" then some
        [("id", message.id),
         ("agent", d.toAgent),
         ("created_at", message.timestampUtc),
         ("reason", notificationReason message),
         ("requires_ack", prepared.ackStr)]
      else none
    acked := if r.operation = .ack then some (text r.arguments "message_id" "") else none
    awaited :=
      if message.requestAck then some
        ({ messageId := message.id, recipient := d.toAgent, sentAt := message.timestampUtc },
         { messageId := message.id, recipient := d.toAgent, deadlineAt := draw.deadlineAt },
         ackDeadlineKeyTtl (ackDeadlineSeconds d.priority))
      else none }

def messagePlan (platform : Platform) (settings : Settings) (envelope : ReplayEnvelope)
    (draw : Draw) (hasSseSubscribers : Bool) : Except ReplayHubError Effect := do
  let d ← ReplayRequest.draft envelope.request
  return .message (replayPlan platform settings envelope draw hasSseSubscribers d)

/-- `claims_key`, without the name space the key lives in. -/
def claimsKey (resource : String) : String :=
  String.ofList (resource.toList.map fun c => if c = '\\' then '/' else c)

def claimPlan (r : ReplayRequest) : Except ReplayHubError Effect := do
  let args := r.arguments
  let _ ← orInvalid (parseLeaseMode (text args "mode" "exclusive"))
  match ReplayRequest.textArg args "scope" with
  | some scope => let _ ← orInvalid (parseResourceScope scope)
  | none => pure ()
  return .claim (claimsKey (text args "resource" "")) (text args "agent" "")

/-- The plan of the operation a request asks for. -/
def planEffect (platform : Platform) (settings : Settings) (envelope : ReplayEnvelope)
    (draw : Draw) (hasSseSubscribers : Bool) : Except ReplayHubError Effect :=
  match envelope.request.operation with
  | .presence => presencePlan platform envelope.request
  | .send | .ack => messagePlan platform settings envelope draw hasSseSubscribers
  | .claimRequest => claimPlan envelope.request

/-- Everything `accept` does before it calls the script. -/
def planRequest (platform : Platform) (settings : Settings) (envelope : ReplayEnvelope)
    (draw : Draw) (hasSseSubscribers : Bool) : Except ReplayHubError ScriptInput := do
  let r := envelope.request
  orInvalid r.validate
  if settings.hubIdentity ≠ some envelope.hubIdentity then .error .identity
  let effect ← planEffect platform settings envelope draw hasSseSubscribers
  return {
    requestId := r.requestId
    fingerprint := fingerprint platform r
    createdMs := r.createdMs.toNat
    expiresMs := r.expiresMs.toNat
    originId := r.originId
    sequence := r.sequence.toNat
    effect }

/-! ### Answering -/

/-- A document as `serde_json` holds it, its fields ordered by name. -/
def asMap : Value → Value
  | .obj fields => .obj (Fields.ofPairs fields)
  | v => v

/-- The result of an acknowledgement. -/
def ackResult (m : Message) (ackedMessageId : String) : Value :=
  .obj
    [("ack_message_id", .str m.id),
     ("ack_sent", .bool true),
     ("acked_message_id", .str ackedMessageId),
     ("timestamp", .str m.timestampUtc)]

/-- The result a remembered response has for the request that asks, once PostgreSQL has it. -/
def appliedResult (r : ReplayRequest) (response : Stored) : Except ReplayHubError Value :=
  match r.operation, response with
  | .send, .message m => .ok (asMap (.obj m.fields))
  | .ack, .message m => .ok (ackResult m (text r.arguments "message_id" ""))
  | .presence, .presence p => .ok (asMap (.obj p.fields))
  | .claimRequest, response => .ok (asMap (response.result.getD .null))
  | _, _ => .error .representation

/-- Whether the text of a response is nested within what the parser of `accept` takes. -/
def parses (response : Stored) : Bool :=
  match response.result with
  | none => true
  | some result => (Value.obj [("status", .str "applied"), ("result", result)]).depth ≤ maxDepth

/-! ### Tasks -/

/-- Where a call of `accept` stands. -/
inductive TaskPhase where
  | called (hasSseSubscribers : Bool)
  /-- The script has admitted the claim. -/
  | admitted
  /-- The claim authority has been called for that many seconds. -/
  | dispatching (remaining : Nat)
  | finishing (response : Stored)
  /-- The script has answered and PostgreSQL is next. -/
  | persisting (response : Stored)

structure Task where
  envelope : ReplayEnvelope
  phase : TaskPhase

/-- How a script run goes. -/
inductive ScriptIo where
  | done
  /-- The server was not reached. -/
  | unreached
  /-- The run, or the connection, ended after so many writes. -/
  | aborted (writes : Nat)
  deriving DecidableEq, Repr

/-- What the surroundings of a task answer in its next step. -/
inductive TaskIo where
  | script (draw : Draw) (streamId : String) (foreign : Bool) (io : ScriptIo)
  /-- `TIME`, or no answer to it. -/
  | time (reached : Bool)
  /-- The claim, with the lifetime it was called for, or an error. -/
  | dispatched (claim : Option OwnershipClaim)
  | finish (io : ScriptIo)
  | persisted (ok : Bool)

inductive HubOutput where
  /-- `dispatch_tool("claim_resource", ..)` is called for a request. -/
  | dispatched (requestId : Uuid)
  | answered (envelope : ReplayEnvelope) (result : Except ReplayHubError ReplayResponse)
  deriving DecidableEq

/-- What a task becomes: a further phase, or the answer of `accept`. -/
inductive Progress where
  | next (phase : TaskPhase) (outs : List HubOutput)
  | answer (result : Except ReplayHubError ReplayResponse)
  /-- The surroundings do not fit the phase: no step. -/
  | stuck

/-- The reply of a script run as the caller sees it, and the writes that were made. -/
def runScript {ρ : Type} (run : ρ × List Write) : ScriptIo → Option ρ × List Write
  | .done => (some run.1, run.2)
  | .unreached => (none, [])
  | .aborted writes => (none, run.2.take writes)

/-- What `accept` makes of the reply of the replay script. -/
def afterScript (r : ReplayRequest) : ScriptReply → Progress
  | .idCollision => .answer (.error .collision)
  | .futureRequest => .answer (.error .invalid)
  | .keyType => .answer (.error .invalid)
  | .claimAdmission => .next .admitted []
  | .pending => .answer (.ok .pending)
  | .stored response =>
    if !parses response then .answer (.error .representation)
    else match response with
      | .superseded => .answer (.ok .superseded)
      | response =>
        match r.operation, appliedResult r response with
        | _, .error error => .answer (.error error)
        | .claimRequest, .ok result => .answer (.ok (.applied result))
        | _, .ok _ => .next (.persisting response) []

/-- The seconds left for a claim, at most those it asked for. -/
def remainingSeconds (r : ReplayRequest) (now : Nat) : Nat :=
  min ((r.expiresMs.toNat - now) / 1000) ((r.expiresMs.toNat - r.createdMs.toNat) / 1000)

/-- When a response of `finish_claim` stops to hold; none when the claim has no readable expiry. -/
def claimDeadline (platform : Platform) (expiresMs : Nat) : Stored → Option Nat
  | .claim c =>
    match c.expiresAt.bind platform.parseRfc3339 with
    | some ms => if 0 ≤ ms then some (min ms.toNat expiresMs) else none
    | none => none
  | _ => some expiresMs

/-- The response a finished claim is answered with. -/
def finishedResponse : Stored → ReplayResponse
  | .claim c => .applied (asMap c.value)
  | _ => .superseded

/-- `finish_claim` up to its script. -/
def finishInput (platform : Platform) (r : ReplayRequest) (response : Stored) :
    Option FinishInput :=
  (claimDeadline platform r.expiresMs.toNat response).map fun claimExpiresMs => {
    requestId := r.requestId
    fingerprint := fingerprint platform r
    key := claimsKey (text r.arguments "resource" "")
    agent := text r.arguments "agent" ""
    expiresMs := r.expiresMs.toNat
    claimExpiresMs
    response }

/-- One round trip of a task: what it becomes and what it writes. -/
def Task.step (platform : Platform) (settings : Settings) (task : Task) (db : Redis) (now : Nat)
    (io : TaskIo) : Progress × List Write :=
  let r := task.envelope.request
  match task.phase, io with
  | .called hasSse, .script draw streamId foreign io =>
    match planRequest platform settings task.envelope draw hasSse with
    | .error error => (.answer (.error error), [])
    | .ok input =>
      match runScript (replayScript db now input streamId foreign) io with
      | (none, writes) => (.answer (.error .unavailable), writes)
      | (some reply, writes) => (afterScript r reply, writes)
  | .admitted, .time reached =>
    if !reached then (.answer (.error .unavailable), [])
    else if remainingSeconds r now = 0 then (.next (.finishing .superseded) [], [])
    else (.next (.dispatching (remainingSeconds r now)) [.dispatched r.requestId], [])
  | .dispatching remaining, .dispatched claim =>
    match claim with
    | none => (.answer (.ok .pending), [])
    | some c =>
      if c.leaseTtlSeconds.toNat = remaining then (.next (.finishing (.claim c)) [], [])
      else (.stuck, [])
  | .finishing response, .finish io =>
    match finishInput platform r response with
    | none => (.answer (.ok .pending), [])
    | some input =>
      match runScript (finishScript db now input) io with
      | (none, writes) => (.answer (.error .unavailable), writes)
      | (some .completed, writes) => (.answer (.ok (finishedResponse response)), writes)
      | (some .superseded, writes) => (.answer (.ok .superseded), writes)
      | (some .unknown, writes) => (.answer (.ok .pending), writes)
  | .persisting response, .persisted ok =>
    if !ok then (.answer (.ok .pending), [])
    else (.answer ((appliedResult r response).map .applied), [])
  | _, _ => (.stuck, [])

/-! ### The hub -/

/-- The Redis commands of the claim operations, and of a program that misuses their key. -/
inductive ClaimCommand where
  | hset (key agent : String) (claim : OwnershipClaim)
  | hdel (key : String) (agents : List String)
  | del (key : String)
  | expire (key : String) (seconds : Nat)
  | clobber (key : String)

namespace ClaimCommand

def key : ClaimCommand → String
  | .hset key _ _ => key
  | .hdel key _ => key
  | .del key => key
  | .expire key _ => key
  | .clobber key => key

/-- What the key holds after the command. -/
def apply (slot : Option (Expiring ClaimsValue)) (now : Nat) :
    ClaimCommand → Option (Expiring ClaimsValue)
  | .hset _ agent claim =>
    match readKey slot now with
    | none => some ⟨.hash [(agent, some claim.value)], none⟩
    | some .other => slot
    | some (.hash entries) =>
      some ⟨.hash ((agent, some claim.value) :: entries.filter fun e => e.1 ≠ agent),
        slot.bind Expiring.deadline⟩
  | .hdel _ agents =>
    match readKey slot now with
    | some (.hash entries) =>
      let left := entries.filter fun e => e.1 ∉ agents
      if left = [] then none else some ⟨.hash left, slot.bind Expiring.deadline⟩
    | _ => slot
  | .del _ => none
  | .expire _ seconds =>
    match readKey slot now with
    | some value => if seconds = 0 then none else some ⟨value, some (now + seconds * 1000)⟩
    | none => slot
  | .clobber _ => some ⟨.other, none⟩

end ClaimCommand

/-- What other programs do to the hub's keys. -/
inductive Command where
  | claim (command : ClaimCommand)
  /-- A post on the ordinary route, whose entries name no retained request. -/
  | post (entry : StreamEntry)
  | announce (presence : Presence) (ttlSeconds : Nat)

def Command.writes (db : Redis) (now : Nat) : Command → List Write
  | .claim c => [.setClaims c.key (c.apply (db.claims c.key) now)]
  | .post entry => if (entry.fields.lookup "client_msg_id").isSome then [] else [.addEntry entry]
  | .announce presence ttlSeconds =>
    [.setPresence presence.agent presence (now + ttlSeconds * 1000)]

structure HubState where
  db : Redis := {}
  now : Nat := 0
  tasks : Nat → Option Task := fun _ => none

inductive HubInput where
  | accept (task : Nat) (envelope : ReplayEnvelope) (hasSseSubscribers : Bool)
  /-- The next round trip of a task, at a time not before the last one. -/
  | proceed (task : Nat) (now : Nat) (io : TaskIo)
  /-- The process of a task stops. -/
  | stop (task : Nat)
  | command (now : Nat) (command : Command)

namespace HubState

def step (platform : Platform) (settings : Settings) (h : HubState) :
    HubInput → HubState × List HubOutput
  | .accept i envelope hasSse =>
    match h.tasks i with
    | some _ => (h, [])
    | none => ({ h with
        tasks := Function.update h.tasks i (some ⟨envelope, .called hasSse⟩) }, [])
  | .stop i => ({ h with tasks := Function.update h.tasks i none }, [])
  | .command now command =>
    let now := max h.now now
    ({ h with db := h.db.writes (command.writes h.db now), now }, [])
  | .proceed i now io =>
    match h.tasks i with
    | none => (h, [])
    | some task =>
      let now := max h.now now
      match task.step platform settings h.db now io with
      | (.stuck, _) => (h, [])
      | (.next phase outs, writes) =>
        ({ db := h.db.writes writes
           now
           tasks := Function.update h.tasks i (some { task with phase }) }, outs)
      | (.answer result, writes) =>
        ({ db := h.db.writes writes, now, tasks := Function.update h.tasks i none },
          [.answered task.envelope result])

/-- The hub with its Redis and every program that uses it. -/
def machine (platform : Platform) (settings : Settings) : Machine HubState HubInput HubOutput :=
  ⟨step platform settings⟩

end HubState

end AgentHub.Hub
