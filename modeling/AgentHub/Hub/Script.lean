import AgentHub.Hub.Redis

/-!
# The replay scripts

`replayScript` is `outbox_replay.lua` and `finishScript` the script inside `finish_claim`.  A script
reads first and then writes, so a run is its reply with the writes in order; `Redis` is one step
for everybody else, but a run that is aborted keeps the writes made so far.
-/

namespace AgentHub.Hub

open AgentHub.Json AgentHub.Outbox

/-! ### Input -/

/-- The effect of a message or an acknowledgement. -/
structure MessagePlan where
  fields : List (String × String)
  message : Message
  publish : Bool
  /-- The fields of the entry in the recipient's stream, for a message to one agent. -/
  notification : Option (List (String × String))
  /-- The message an acknowledgement settles. -/
  acked : Option String
  /-- The record of an awaited acknowledgement, its deadline, and the seconds to keep the latter. -/
  awaited : Option (PendingAck × AckDeadline × Nat)

inductive Effect where
  | message (plan : MessagePlan)
  | presence (presence : Presence)
  /-- A claim is made by the ordinary authority; the script only admits it. -/
  | claim (key agent : String)

structure ScriptInput where
  requestId : Uuid
  fingerprint : String
  createdMs : Nat
  expiresMs : Nat
  originId : Uuid
  sequence : Nat
  effect : Effect

inductive ScriptReply where
  | idCollision
  | futureRequest
  | keyType
  | claimAdmission
  | pending
  | stored (response : Stored)

/-! ### A remembered request -/

/-- The answer to a claim that is remembered as applied, from the live authority. -/
def cachedClaim (db : Redis) (now : Nat) (key agent : String) (response : Stored)
    (claimExpiresMs : Option Nat) : ScriptReply :=
  match claimExpiresMs with
  | none => .pending
  | some deadline =>
    if deadline ≤ now then .stored .superseded
    else match readKey (db.claims key) now with
      | none => .stored .superseded
      | some .other => .pending
      | some (.hash entries) =>
        match entries.lookup agent with
        | none => .stored .superseded
        | some current =>
          match current, response.result with
          | some claim, some cached =>
            if !isTable claim || !isTable cached then .pending
            else if same claim cached then .stored response
            else .stored .superseded
          | _, _ => .pending

def cachedReply (db : Redis) (now : Nat) (input : ScriptInput) (record : Memo) : ScriptReply :=
  if record.fingerprint ≠ input.fingerprint then .idCollision
  else match input.effect with
    | .claim key agent =>
      if input.expiresMs ≤ now then .stored .superseded
      else match record.state with
        | .applied response claimExpiresMs => cachedClaim db now key agent response claimExpiresMs
        | .pending => .pending
    | _ =>
      match record.state with
      | .applied response _ => .stored response
      | .pending => .pending

/-! ### A new request -/

/-- A newer replayed presence of the agent, or a live record written after this one was made. -/
def presenceOvertaken (db : Redis) (now : Nat) (input : ScriptInput) (presence : Presence) : Bool :=
  ((readKey (db.markers presence.agent) now).any fun marker =>
    (marker.originId = input.originId && luaNumber input.sequence ≤ marker.sequence) ||
      input.createdMs < marker.createdMs) ||
  ((readKey (db.presences presence.agent) now).any fun live =>
    presence.timestampUtc < live.timestampUtc)

/-- The event, the notification and the acknowledgement records of a message that has its entry. -/
def messageFollowUps (plan : MessagePlan) (message : Message) (now : Nat) : List Write :=
  (if plan.publish then [.publish (.message message)] else []) ++
  (match plan.notification with
    | some fields =>
      [.addNotification ⟨plan.message.toAgent, fields, message⟩,
       .expireNotifications plan.message.toAgent (now + notificationStreamTtlSecs * 1000)]
    | none => []) ++
  (match plan.acked, plan.awaited with
    | some id, _ => [.delAcks [id] [id]]
    | none, some (pending, deadline, seconds) =>
      [.setPendingAck plan.message.id pending (now + pendingAckTtl * 1000),
       .setAckDeadline plan.message.id deadline (now + seconds * 1000)]
    | none, none => [])

/-- The writes of a message after its reservation, with the identifier its entry got. -/
def messageWrites (plan : MessagePlan) (streamId : String) (now : Nat) : List Write :=
  .addEntry ⟨streamId, plan.fields⟩ ::
    messageFollowUps plan { plan.message with streamId := some streamId } now

/-- How long a memo is kept after the request has expired. -/
def memoRetentionMs : Nat := 86400000

/-- `save`: the memo of a claim has a deadline, the others stay. -/
def saveMemo (input : ScriptInput) (now : Nat) (state : MemoState) : Write :=
  .setMemo input.requestId ⟨input.fingerprint, state⟩
    (match input.effect with
      | .claim _ _ => some (now + (input.expiresMs - now + memoRetentionMs))
      | _ => none)

/-- The reservation and what follows it. -/
def applyEffect (db : Redis) (now : Nat) (input : ScriptInput) (streamId : String) :
    ScriptReply × List Write :=
  let reserve := saveMemo input now .pending
  let complete (response : Stored) := saveMemo input now (.applied response none)
  match input.effect with
  | .claim _ _ => (.claimAdmission, [reserve])
  | .presence presence =>
    if presenceOvertaken db now input presence then
      (.stored .superseded, [reserve, complete .superseded])
    else
      (.stored (.presence presence),
        [reserve,
         .setPresence presence.agent presence input.expiresMs,
         .setMarker presence.agent
          { originId := input.originId, sequence := input.sequence, createdMs := input.createdMs }
          (input.expiresMs + memoRetentionMs),
         .publish (.presence presence),
         complete (.presence presence)])
  | .message plan =>
    let response := Stored.message { plan.message with streamId := some streamId }
    (.stored response, [reserve] ++ messageWrites plan streamId now ++ [complete response])

/-- Whether a key of the request holds a value of the wrong type.  `foreign` is what other programs
did to keys that only the hub writes. -/
def preflightFails (db : Redis) (now : Nat) (input : ScriptInput) (foreign : Bool) : Bool :=
  foreign || match input.effect with
    | .claim key _ =>
      match readKey (db.claims key) now with
      | some .other => true
      | _ => false
    | _ => false

/-- `outbox_replay.lua`. -/
def replayScript (db : Redis) (now : Nat) (input : ScriptInput) (streamId : String)
    (foreign : Bool) : ScriptReply × List Write :=
  match readKey (db.memos input.requestId) now with
  | some record => (cachedReply db now input record, [])
  | none =>
    if input.expiresMs ≠ 0 ∧ input.expiresMs ≤ now then (.stored .superseded, [])
    else if now + 300000 < input.createdMs then (.futureRequest, [])
    else if preflightFails db now input foreign then (.keyType, [])
    else applyEffect db now input streamId

/-! ### Finishing a claim -/

structure FinishInput where
  requestId : Uuid
  fingerprint : String
  key : String
  agent : String
  expiresMs : Nat
  claimExpiresMs : Nat
  response : Stored

inductive FinishReply where
  | unknown
  | completed
  | superseded
  deriving DecidableEq

/-- Whether the live authority still holds the claim a response reports; `none` when it does. -/
def finishGuard (db : Redis) (now : Nat) (input : FinishInput) : Option FinishReply :=
  match input.response.result with
  | none => none
  | some result =>
    match readKey (db.claims input.key) now with
    | none => some .superseded
    | some .other => some .unknown
    | some (.hash entries) =>
      match entries.lookup input.agent with
      | none => some .superseded
      | some none => some .unknown
      | some (some claim) =>
        if !isTable claim then some .unknown
        else if same claim result then none
        else some .superseded

/-- The script of `finish_claim`. -/
def finishScript (db : Redis) (now : Nat) (input : FinishInput) : FinishReply × List Write :=
  match readKey (db.memos input.requestId) now with
  | none => (.unknown, [])
  | some record =>
    if record.fingerprint ≠ input.fingerprint ∨ record.state ≠ .pending then (.unknown, [])
    else if input.claimExpiresMs ≤ now then (.superseded, [])
    else match finishGuard db now input with
      | some reply => (reply, [])
      | none =>
        (.completed,
          [.setMemo input.requestId
            ⟨input.fingerprint, .applied input.response (some input.claimExpiresMs)⟩
            (some (input.expiresMs + memoRetentionMs))])

end AgentHub.Hub
