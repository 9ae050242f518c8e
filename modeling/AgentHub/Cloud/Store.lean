import AgentHub.Cloud.Post
import AgentHub.Program
import AgentHub.Table

/-!
# The store of the Worker

`BusLog` as the routes call it: beside the messages it keeps the acknowledgements that are awaited
and the presence of agents.  One method is one `Call`, which nothing comes between; its statements
run one after the other, and where one of them fails the earlier ones have been carried out, except
in `insertMessageBatch`, which is a transaction.  The table of rate limits and the counters of each
origin are left out: nothing here reads them.
-/

namespace AgentHub.Cloud

open AgentHub.Json BusLog

/-! ### Tables -/

/-- A row of `pending_acks`. -/
structure PendingAck where
  messageId : String
  recipient : String
  sentAt : String
  deriving DecidableEq

structure Presence where
  agent : String
  status : String
  protocolVersion : String
  timestampUtc : String
  sessionId : String
  capabilities : List String
  metadata : Value
  ttlSeconds : Nat
  networkContext : Option String
  deriving DecidableEq

/-- A row of `presence`.  The hub is set for what a hub has relayed. -/
structure PresenceRow extends Presence where
  keyOrigin : String
  expiresAtMs : Int
  originHub : Option String
  deriving DecidableEq

/-- `PRIMARY KEY (key_origin, agent)`. -/
def PresenceRow.key (row : PresenceRow) : String × String := (row.keyOrigin, row.agent)

structure PresenceHistoryRow extends Presence where
  originHub : Option String
  originId : Option Value
  ingestedAtUtc : String
  deriving DecidableEq

structure Store where
  log : BusLog
  pendingAcks : Table PendingAck String PendingAck.messageId
  presence : Table PresenceRow (String × String) PresenceRow.key
  presenceHistory : List PresenceHistoryRow
  /-- The hub and the id of each event that was pushed. -/
  presenceSync : List (String × Value)

/-- An event of a hub's `POST /sync/push-presence`. -/
structure PresenceEvent where
  originId : Value
  timestampUtc : String
  protocolVersion : String
  agent : String
  status : String
  sessionId : Option String
  capabilities : List String
  metadata : Value
  ttlSeconds : Option Nat

/-- The statement on presence that fails. -/
inductive PresenceFault where
  | none
  | sync
  | history
  | presence
  deriving DecidableEq, Repr

/-- The surroundings of one call. -/
structure Visit where
  /-- `Date.now()`, which stands still during a call. -/
  now : Int
  fault : Nat → Fault
  /-- A statement after an insertion fails. -/
  late : Nat → Bool
  presenceFault : Nat → PresenceFault
  /-- The reply does not reach the caller. -/
  replyLost : Bool

/-! ### Messages -/

/-- What `insertMessage` returns. -/
structure Stored where
  message : Row
  inserted : Bool
  conflict : Bool

namespace Store

def empty : Store := ⟨BusLog.empty, Table.empty, Table.empty, [], []⟩

/-- The row of `pending_acks` for a message that asks for an acknowledgement. -/
def awaitAck (store : Store) (input : InsertMessageInput) : Store :=
  if input.requestAck then
    let row : PendingAck := ⟨input.id, input.toAgent, input.timestampUtc⟩
    { store with pendingAcks := store.pendingAcks.put row }
  else store

/-- `insertMessage` without the option that skips the row of `pending_acks`. -/
def insertMessage (choose : List Row → Nat) (store : Store) (input : InsertMessageInput) (now : Int)
    (fault : Fault) (late : Bool) : Store × Option Stored :=
  match input.originHub.filter fun hub => !hub.isEmpty with
  | none => (store, none)
  | some originHub =>
    match BusLog.insertMessage choose store.log input.toMessageFields originHub now fault with
    | .failed _ => (store, none)
    | .existing row conflict => (store, some ⟨row, false, conflict⟩)
    | .inserted log row =>
      if late then ({ store with log }, none)
      else (awaitAck { store with log } input, some ⟨row, true, false⟩)

/-- The insertions of a transaction, as long as none fails. -/
def insertAll (choose : List Row → Nat) (visit : Visit) :
    Nat → Store → List InsertMessageInput → Option (Store × List Stored)
  | _, store, [] => some (store, [])
  | i, store, input :: inputs =>
    match store.insertMessage choose input visit.now (visit.fault i) (visit.late i) with
    | (_, none) => none
    | (store, some stored) =>
      (insertAll choose visit (i + 1) store inputs).map fun x => (x.1, stored :: x.2)

/-- `insertMessageBatch`: all of it or nothing. -/
def insertMessageBatch (choose : List Row → Nat) (store : Store) (inputs : List InsertMessageInput)
    (visit : Visit) : Store × Option (List Stored) :=
  match insertAll choose visit 0 store inputs with
  | none => (store, none)
  | some (store, stored) => (store, some stored)

/-- `clearPendingAck`; nothing has the id `NULL`. -/
def clearPendingAck (store : Store) : Option String → Store
  | none => store
  | some messageId => { store with pendingAcks := store.pendingAcks.delete messageId }

/-- `getMessageRecipient`: the recipient of the newest message with the id, of any origin. -/
def getMessageRecipient (store : Store) : Option String → Option String
  | none => none
  | some messageId =>
    (store.log.rows.reverse.find? fun row => row.id == messageId).map fun row => row.toAgent

/-- `syncPush`, which leaves `pending_acks` alone. -/
def syncPush (choose : List Row → Nat) (store : Store) (originHub : String)
    (items : List InsertMessageInput) (visit : Visit) : Store × Option SyncPushResult :=
  let (log, results, completed) := syncItems choose originHub visit.now store.log
    (items.zipIdx.map fun x => (x.1, visit.fault x.2))
  ({ store with log }, if completed then some (pushResult log items results) else none)

/-! ### Presence -/

/-- A presence in an answer. -/
def presenceValue (input : Presence) (originHub : Option String) : Value :=
  .obj (Fields.compact
    [("agent", some (.str input.agent)),
     ("status", some (.str input.status)),
     ("protocol_version", some (.str input.protocolVersion)),
     ("timestamp_utc", some (.str input.timestampUtc)),
     ("session_id", some (.str input.sessionId)),
     ("capabilities", some (.arr (input.capabilities.map .str))),
     ("metadata", some input.metadata),
     ("ttl_seconds", some (.int input.ttlSeconds)),
     ("network_context", input.networkContext.map .str),
     ("origin_hub", originHub.map .str)])

/-- `setPresence`: the upsert sets every column. -/
def setPresence (store : Store) (input : Presence) (keyOrigin : String) (originHub : Option String)
    (now : Int) (fault : PresenceFault) : Store × Option Value :=
  if fault = .presence then (store, none)
  else
    let row : PresenceRow :=
      { input with keyOrigin, originHub, expiresAtMs := now + input.ttlSeconds * 1000 }
    let store := { store with presence := store.presence.put row }
    if fault = .history then (store, none)
    else
      let entry : PresenceHistoryRow :=
        { input with originHub, originId := none, ingestedAtUtc := formatTimestampUtc now }
      ({ store with presenceHistory := store.presenceHistory ++ [entry] },
        some (presenceValue input originHub))

inductive EventResult where
  | accepted
  | duplicate
  | rejected (reason : String)

def PresenceEvent.presence (ev : PresenceEvent) : Presence where
  agent := ev.agent
  status := ev.status
  protocolVersion := ev.protocolVersion
  timestampUtc := ev.timestampUtc
  sessionId := ev.sessionId.getD ""
  capabilities := ev.capabilities
  metadata := ev.metadata
  ttlSeconds := ev.ttlSeconds.getD 180
  networkContext := none

/-- One event of a push. -/
def syncPresenceEvent (dates : Dates) (store : Store) (originHub : String) (ev : PresenceEvent)
    (now : Int) (fault : PresenceFault) : Store × Option EventResult :=
  if [ev.agent, ev.status, ev.timestampUtc].any fun s => (Js.trim s).isEmpty then
    (store, some (.rejected "agent, status and timestamp_utc must all be non-empty"))
  else if (originHub, ev.originId) ∈ store.presenceSync then (store, some .duplicate)
  else if fault = .sync then (store, none)
  else
    let store := { store with presenceSync := store.presenceSync ++ [(originHub, ev.originId)] }
    if fault = .history then (store, none)
    else
      let presence := PresenceEvent.presence ev
      let entry : PresenceHistoryRow :=
        { presence with
          originHub := some originHub
          originId := some ev.originId
          ingestedAtUtc := formatTimestampUtc now }
      let store := { store with presenceHistory := store.presenceHistory ++ [entry] }
      let current := store.presence.get? (originHub, ev.agent)
      if current.any fun row => ev.timestampUtc < row.timestampUtc then (store, some .accepted)
      else if fault = .presence then (store, none)
      else
        let sent := (dates.parseTimestampUtcMs ev.timestampUtc).getD now
        -- the upsert leaves the network context of a row that is there
        let row : PresenceRow :=
          { presence with
            networkContext := current.bind fun row => row.networkContext
            keyOrigin := originHub
            originHub := some originHub
            expiresAtMs := sent + presence.ttlSeconds * 1000 }
        ({ store with presence := store.presence.put row }, some .accepted)

structure PresencePushResult where
  accepted : Nat
  duplicates : Nat
  rejected : List (Value × String)

def PresencePushResult.add (r : PresencePushResult) (ev : PresenceEvent) :
    EventResult → PresencePushResult
  | .accepted => { r with accepted := r.accepted + 1 }
  | .duplicate => { r with duplicates := r.duplicates + 1 }
  | .rejected reason => { r with rejected := r.rejected ++ [(ev.originId, reason)] }

/-- The loop of `syncPushPresence`. -/
def syncPresenceEvents (dates : Dates) (originHub : String) (visit : Visit) :
    Nat → PresencePushResult → Store → List PresenceEvent → Store × Option PresencePushResult
  | _, result, store, [] => (store, some result)
  | i, result, store, ev :: evs =>
    match store.syncPresenceEvent dates originHub ev visit.now (visit.presenceFault i) with
    | (store, none) => (store, none)
    | (store, some r) =>
      syncPresenceEvents dates originHub visit (i + 1) (result.add ev r) store evs

def syncPushPresence (dates : Dates) (store : Store) (originHub : String)
    (events : List PresenceEvent) (visit : Visit) : Store × Option PresencePushResult :=
  syncPresenceEvents dates originHub visit 0 ⟨0, 0, []⟩ store events

/-! ### Retention -/

/-- `alarm`: messages and the history of presence go by the time they came in. -/
def alarm (store : Store) (cutoffIso : String) : Store :=
  { store with
    log := store.log.deleteBefore cutoffIso
    presenceHistory :=
      store.presenceHistory.filter fun row => !decide (row.ingestedAtUtc < cutoffIso) }

end Store

/-! ### Calls -/

/-- A call of a method of the durable object. -/
inductive Call where
  | insertMessage (input : InsertMessageInput)
  | insertMessageBatch (inputs : List InsertMessageInput)
  | clearPendingAck (messageId : Option String)
  | getMessageRecipient (messageId : Option String)
  | setPresence (input : Presence) (keyOrigin : String) (originHub : Option String)
  | syncPush (originHub : String) (items : List InsertMessageInput)
  | syncPushPresence (originHub : String) (events : List PresenceEvent)

def Call.Reply : Call → Type
  | .insertMessage _ => Stored
  | .insertMessageBatch _ => List Stored
  | .clearPendingAck _ => Unit
  | .getMessageRecipient _ => Option String
  | .setPresence _ _ _ => Value
  | .syncPush _ _ => SyncPushResult
  | .syncPushPresence _ _ => Store.PresencePushResult

namespace Store

/-- A method as it is carried out. -/
def execute (worker : Worker) (store : Store) (visit : Visit) :
    (c : Call) → Store × Option c.Reply
  | .insertMessage input =>
    store.insertMessage worker.choose input visit.now (visit.fault 0) (visit.late 0)
  | .insertMessageBatch inputs => store.insertMessageBatch worker.choose inputs visit
  | .clearPendingAck messageId =>
    if visit.fault 0 = .none then (store.clearPendingAck messageId, some ()) else (store, none)
  | .getMessageRecipient messageId =>
    if visit.fault 0 = .none then (store, some (store.getMessageRecipient messageId))
    else (store, none)
  | .setPresence input keyOrigin originHub =>
    store.setPresence input keyOrigin originHub visit.now (visit.presenceFault 0)
  | .syncPush originHub items => store.syncPush worker.choose originHub items visit
  | .syncPushPresence originHub events =>
    store.syncPushPresence worker.dates originHub events visit

/-- A call as its caller sees it. -/
def serve (worker : Worker) (c : Call) (visit : Visit) (store : Store) :
    Store × Option c.Reply :=
  let (after, reply) := store.execute worker visit c
  (after, if visit.replyLost then none else reply)

end Store

end AgentHub.Cloud
