import AgentHub.Cloud.BusLog
import AgentHub.Sync.Message

/-!
# The sync routes of the Worker

`POST /sync/push` validates every item of a batch by itself, sets aside those that fail, and hands
the rest to the log under the hub its token speaks for; `GET /sync/pull` reads a page.  Bodies are
documents as `JSON.parse` reads them.
-/

namespace AgentHub.Cloud

open AgentHub.Json BusLog

/-- What the Worker runs on. -/
structure Worker where
  numbers : Js.Numbers
  dates : Dates
  /-- Which row a query without an order finds first. -/
  choose : List Row → Nat

/-- The surroundings of one request. -/
structure Moment where
  /-- `Date.now()` of the Worker. -/
  now : Int
  /-- `Date.now()` of the log. -/
  storedAt : Int
  uuidv7 : Nat → String
  fault : Nat → Fault

inductive Response where
  | ok (body : Value)
  | error (status : Nat)
  deriving DecidableEq

def protocolVersion : String := "1.0"

variable (worker : Worker)

/-- `m.id && m.id.trim() ? m.id.trim() : uuidv7()`. -/
def syncItemId (id : Option Value) (uuid : String) : Checked String :=
  if !Js.truthy id then .ok uuid
  else
    match id with
    | some (.str s) => .ok (if (Js.trim s).isEmpty then uuid else Js.trim s)
    | _ => .error "m.id.trim is not a function"

/-- A given timestamp in its canonical form, or the present. -/
def syncItemTimestamp (ts : Option Value) (now : Int) : Checked String :=
  if !Js.truthy ts then .ok (formatTimestampUtc now)
  else
    match ts with
    | some (.str s) => validateTimestampUtc worker.dates now s
    | _ => .error "ts.replace is not a function"

/-- A given version, which the pattern tests as a text, or the present one. -/
def syncItemVersion (v : Option Value) : Checked String :=
  if !Js.truthy v then .ok protocolVersion
  else validateProtocolVersion ((v.map Js.toText).getD "")

def buildSyncPushItem (m : Value) (now : Int) (uuid : String) : Checked InsertMessageInput := do
  let core ← validateMessageCore m
  require (!core.sender.isEmpty) "sender must not be empty"
  let id ← syncItemId (m.field? "id") uuid
  require (Js.length id ≤ maxSyncIdLen) s!"id exceeds maximum length of {maxSyncIdLen}"
  rejectNulBytes id "id"
  let timestampUtc ← syncItemTimestamp worker (m.field? "timestamp_utc") now
  let protocolVersion ← syncItemVersion (m.field? "protocol_version")
  let originSeq ← coerceOptionalInt (m.field? "origin_seq") "origin_seq"
  let originHost ← validateOptionalString (m.field? "origin_host") "origin_host" maxOriginHostLen
  let originHub ← validateOptionalString (m.field? "origin_hub") "origin_hub" maxOriginHubLen
  return {
    id, timestampUtc, protocolVersion
    fromAgent := core.sender
    toAgent := core.recipient
    topic := core.topic
    body := core.body
    threadId := core.threadId
    tags := core.tags
    priority := core.priority
    requestAck := Js.truthy (m.field? "request_ack")
    replyTo := core.replyTo
    metadata := core.metadata
    clientMsgId := core.clientMsgId
    originHost, originSeq, originHub
    hlc := core.hlc
    sensitivity := none }

/-- The items of a batch with what became of each, and a position to tell their defaults apart. -/
def buildItems (moment : Moment) : Nat → List Value → List (Value × Checked InsertMessageInput)
  | _, [] => []
  | i, m :: ms =>
    (m, buildSyncPushItem worker m moment.now (moment.uuidv7 i)) :: buildItems moment (i + 1) ms

def preRejection (x : Value × Checked InsertMessageInput) : Option Rejection :=
  match x.2 with
  | .ok _ => none
  | .error reason => some ⟨x.1.field? "id", x.1.field? "client_msg_id", reason⟩

/-- The elements a loop over `body.messages ?? []` sees, with the `length` that is checked. -/
def messageList (messages : Option Value) : Option (List Value × Nat) :=
  match Js.given messages with
  | none => some ([], 0)
  | some (.arr items) => some (items, items.length)
  | some (.str s) => some (s.toList.map fun c => .str (String.singleton c), Js.length s)
  | some _ => none

def pushAnswer (preRejected : List Rejection) (result : SyncPushResult) : Value :=
  .obj
    [("accepted", .arr (result.accepted.map .str)),
     ("duplicates", .arr (result.duplicates.map .str)),
     ("conflicts", .arr (result.conflicts.map .str)),
     ("rejected", .arr ((preRejected ++ result.rejected).map Rejection.value)),
     ("cursor", .int result.cursor)]

/-- What a push does to the log once its items are built. -/
def storeItems (log : BusLog) (originHub : String) (items : List InsertMessageInput)
    (moment : Moment) : BusLog × List ItemResult × Bool :=
  syncItems worker.choose originHub moment.storedAt log
    (items.zipIdx.map fun x => (x.1, moment.fault x.2))

/-- `POST /sync/push` with the token of a hub. -/
def postSyncPush (log : BusLog) (originHub : String) (body : Value) (moment : Moment) :
    BusLog × Response :=
  if body = .null then (log, .error 500)
  else if Js.truthy (body.field? "origin_hub") ∧ body.field? "origin_hub" ≠ some (.str originHub) then
    (log, .error 403)
  else
    match messageList (body.field? "messages") with
    | none => (log, .error 500)
    | some (messages, length) =>
      if 500 < length then (log, .error 400)
      -- the error path itself reads a property of the item
      else if messages.contains .null then (log, .error 500)
      else
        let built := buildItems worker moment 0 messages
        let items := built.filterMap fun x => x.2.toOption
        let (log, results, completed) := storeItems worker log originHub items moment
        if completed then
          (log, .ok (pushAnswer (built.filterMap preRejection) (pushResult log items results)))
        else (log, .error 500)

/-- The page size the Worker makes of the `limit` of a pull. -/
def pullLimit (limit : Nat) : Nat := max 1 (min limit 1000)

/-- `GET /sync/pull` with the query of a hub.  A cursor beyond the safe integers is refused. -/
def getSyncPull (log : BusLog) (since : Nat) (excludeOrigin : String) (limit : Nat) : Response :=
  if since < 2 ^ 53 then
    .ok (log.syncPull since (some excludeOrigin) (pullLimit limit)).value
  else .error 400

/-! ### What a hub sends and reads -/

/-- The body of a hub's push, as the Worker parses it. -/
def pushBody (batch : List Sync.Message) : Value :=
  Js.parse worker.numbers (.obj [("messages", .arr (batch.map Sync.pushMessage))])

/-- A successful answer as the hub reads it: nested too deep, it is not read at all. -/
def readAnswer (d : Doubles) : Response → Option Value
  | .ok body => if body.depth ≤ 127 then document d body else none
  | .error _ => none

end AgentHub.Cloud
