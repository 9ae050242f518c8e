import AgentHub.Machine
import AgentHub.Paging
import AgentHub.Sync.Message

/-!
# The sync engine of a hub

`Engine` is the task that replicates a hub to the cloud and back: a tick pushes the messages of the
local stream, pushes the presence events, and pulls what other hubs wrote.  Between two calls that
it waits for, the engine is a pure function of its state and the answer, so a run is a sequence of
answers.

`Site` is the engine with what it works on: the stream and the presence table of the hub, the
markers of ingested messages, and the state file.  Everything else is an input: local writes, the
sessions of the database, the answers of the cloud, how a save of the state file goes, crashes and
restarts.
-/

namespace AgentHub.Sync

open AgentHub.Json AgentHub.Paging

/-! ### Cursors -/

structure RejectionReceipt where
  messageId : String
  localStreamId : String
  deriving DecidableEq

structure SyncCursors where
  pushStreamId : StreamId := StreamId.zero
  pullCursor : Nat := 0
  presenceOriginId : Int := 0
  rejectionReceipts : List RejectionReceipt := []
  rejectedTotal : Nat := 0
  deriving DecidableEq

def maxRejectionReceipts : Nat := 4096

/-- How a save of the state file goes. -/
inductive SaveResult where
  | saved
  | failed
  /-- The file was replaced, and what follows the replacement failed. -/
  | replaced
  deriving DecidableEq, Repr

/-- The state file after a save. -/
def SaveResult.file (r : SaveResult) (old : Option SyncCursors) (new : SyncCursors) :
    Option SyncCursors :=
  if r = .failed then old else some new

/-! ### Answers of the cloud -/

structure PushOutcome where
  accepted : Nat
  duplicates : Nat
  rejected : List String
  rejectedIds : List String
  deriving DecidableEq

/-- A count in a push answer: the length of an array, or a number. -/
def outcomeCount (body : Value) (key : String) : Nat :=
  match body.field? key with
  | some (.arr items) => items.length
  | some v => v.asU64.getD 0
  | none => 0

def outcomeFrom (body : Value) : PushOutcome where
  accepted := outcomeCount body "accepted"
  duplicates := outcomeCount body "duplicates"
  rejected := (((body.field? "rejected").bind Value.asArray).getD []).map fun item =>
    ((item.field? "reason").bind Value.asStr).getD "rejected"
  rejectedIds := []

/-- An id of the answer joins those seen, if it is one of the batch and was not seen before. -/
def seeId (expected seen : List String) (id : String) : Option (List String) :=
  if expected.contains id && !seen.contains id then some (seen ++ [id]) else none

/-- The ids of an array of the answer. -/
def seeIds (expected : List String) : List String → List Value → Option (List String)
  | seen, [] => some seen
  | seen, v :: vs => do
    let id ← v.asStr
    let seen ← seeId expected seen id
    seeIds expected seen vs

/-- The ids of the rejected items, each of which has to carry a reason. -/
def seeRejected (expected : List String) :
    List String → List Value → Option (List String × List String)
  | seen, [] => some (seen, [])
  | seen, v :: vs => do
    let id ← (v.field? "id").bind Value.asStr
    let _ ← (v.field? "reason").bind Value.asStr
    let seen ← seeId expected seen id
    let (seen, ids) ← seeRejected expected seen vs
    return (seen, id :: ids)

/-- `message_outcome`: the exact disposition of every id of the batch, or no answer at all. -/
def messageOutcome (body : Value) (batch : List Message) : Option PushOutcome := do
  let expected := batch.map fun m => m.id
  guard expected.Nodup
  let conflicts ← (body.field? "conflicts").bind Value.asArray
  guard conflicts.isEmpty
  let rejected ← (body.field? "rejected").bind Value.asArray
  let accepted ← (body.field? "accepted").bind Value.asArray
  let seen ← seeIds expected [] accepted
  let duplicates ← (body.field? "duplicates").bind Value.asArray
  let seen ← seeIds expected seen duplicates
  let (seen, rejectedIds) ← seeRejected expected seen rejected
  guard (expected.all fun id => seen.contains id)
  return { outcomeFrom body with rejected := [], rejectedIds }

structure PullPage where
  messages : List Message
  unparseable : Nat
  nextCursor : Nat
  hasMore : Bool

/-- The page in the answer to a pull since a cursor. -/
def pullPage (body : Value) (since : Nat) : PullPage :=
  let items := ((body.field? "messages").bind Value.asArray).getD []
  let messages := items.filterMap Message.ofValue
  { messages
    unparseable := items.length - messages.length
    nextCursor := ((body.field? "next_cursor").bind Value.asU64).getD since
    hasMore := ((body.field? "has_more").bind Value.asBool).getD false }

/-! ### The engine -/

def maxBatch : Nat := 500

def maxChunksPerTick : Nat := 20

def pullPageSize : Nat := 200

structure Config where
  hub : String
  outboxCap : Nat
  batchSize : Nat
  backfill : Bool

/-- The call a tick waits for. -/
inductive Phase where
  | idle
  /-- `messages_after`, with so many chunks left. -/
  | reading (chunks : Nat)
  /-- The answer to the push of a batch, read from a full chunk or not. -/
  | pushing (chunks : Nat) (fullChunk : Bool)
  | readingPresence (chunks : Nat)
  | pushingPresence (chunks : Nat) (rows : List (Int × Hub.Presence))
  | pulling
  /-- `ingest_message` for the first of the messages. -/
  | ingesting (messages : List Message) (nextCursor : Nat) (hasMore : Bool)
  deriving DecidableEq

structure Engine where
  hub : String
  batchSize : Nat
  outboxCap : Nat
  cursors : SyncCursors
  readTo : StreamId
  outbox : List (StreamId × Message)
  phase : Phase

namespace Engine

/-- `Engine::new`: a batch of 1 to 500 messages and room for at least one batch. -/
def new (config : Config) (cursors : SyncCursors) : Engine :=
  let batchSize := max 1 (min config.batchSize maxBatch)
  { hub := config.hub
    batchSize
    outboxCap := max config.outboxCap batchSize
    cursors
    readTo := cursors.pushStreamId
    outbox := []
    phase := .idle }

/-- The messages of the next push. -/
def take (e : Engine) : Nat := min e.outbox.length e.batchSize

def batch (e : Engine) : List Message := (e.outbox.take e.take).map Prod.snd

/-- `enqueue`: a chunk joins the outbox, or an outbox without room for it is dropped and the chunk
will be read again from the acknowledged position. -/
def enqueue (e : Engine) (chunk : List (StreamId × Message)) : Engine :=
  let eligible := chunk.filter fun entry => pushable entry.2 e.hub
  if e.outbox.length + eligible.length > e.outboxCap then
    { e with outbox := [], readTo := e.cursors.pushStreamId }
  else
    { e with
      outbox := e.outbox ++ eligible
      readTo := (chunk.getLast?.map Prod.fst).getD e.readTo }

/-- The receipt of one rejected id. -/
def recordRejection (sent : List (StreamId × Message)) (next : SyncCursors) (id : String) :
    Option SyncCursors := do
  let (stream, _) ← sent.find? fun entry => entry.2.id == id
  guard (Text.len id ≤ 512 ∧ Text.len stream.text ≤ 128)
  let receipt : RejectionReceipt := ⟨id, stream.text⟩
  if next.rejectionReceipts.contains receipt then return next
  else do
    guard (next.rejectionReceipts.length < maxRejectionReceipts)
    guard (next.rejectedTotal + 1 < 2 ^ 64)
    return { next with
      rejectionReceipts := next.rejectionReceipts ++ [receipt]
      rejectedTotal := next.rejectedTotal + 1 }

/-- Where the acknowledged position stands after the next batch. -/
def acknowledgedTo (e : Engine) : StreamId :=
  if e.outbox.length = e.take then e.readTo
  else ((e.outbox[e.take - 1]?).map Prod.fst).getD e.cursors.pushStreamId

/-- The cursors after the next batch with the given outcome, or the batch is retained. -/
def acknowledge (e : Engine) (outcome : PushOutcome) : Option SyncCursors := do
  let handled := outcome.accepted + outcome.duplicates + outcome.rejectedIds.length
  guard (outcome.rejected.isEmpty ∧ handled = e.batch.length)
  let next ← outcome.rejectedIds.foldlM (recordRejection (e.outbox.take e.take)) e.cursors
  return { next with pushStreamId := e.acknowledgedTo }

/-- The call after a chunk is done with. -/
def afterChunk (chunks : Nat) (fullChunk : Bool) : Phase :=
  if fullChunk && decide (1 < chunks) then .reading (chunks - 1)
  else .readingPresence maxChunksPerTick

/-- The head of the loop of `flush_outbox`: the next batch, or the position moves over entries that
are not to be sent. -/
def flush (e : Engine) (chunks : Nat) (fullChunk : Bool) : Engine :=
  if e.outbox.isEmpty then
    { e with
      cursors := { e.cursors with pushStreamId := e.readTo }
      phase := afterChunk chunks fullChunk }
  else { e with phase := .pushing chunks fullChunk }

end Engine

/-! ### The site -/

/-- The table of presence events: the next identifier of its sequence, the identifiers that open
sessions have drawn, and the rows that are visible. -/
structure PresenceTable where
  nextId : Int := 1
  uncommitted : List Int := []
  rows : List (Int × Hub.Presence) := []

/-- `list_presence_events_after`. -/
def PresenceTable.after (table : PresenceTable) (afterId : Int) (limit : Nat) :
    List (Int × Hub.Presence) :=
  ((table.rows.filter fun row => afterId < row.1).mergeSort fun a b => decide (a.1 ≤ b.1)).take
    limit

structure Site where
  stream : List Entry := []
  presence : PresenceTable := {}
  /-- The keys that remember what was ingested and whose lifetime has not ended. -/
  ingested : List String := []
  file : Option SyncCursors := none
  engine : Option Engine := none
  /-- The cursors the hub began to replicate with.  No function reads them. -/
  initial : Option SyncCursors := none

/-- `ingest_seen_key`. -/
def ingestSeenKey (originHub id : String) : String :=
  s!"agent_bus:cloud_sync:ingested:{originHub}:{id}"

inductive SiteInput where
  /-- A local write, with the identifier the stream gives it. -/
  | append (id : StreamId) (fields : EntryFields)
  /-- A session of the database draws an identifier for its row. -/
  | allocate
  /-- The session's row becomes visible. -/
  | commit (id : Int) (presence : Hub.Presence)
  | rollback (id : Int)
  /-- The lifetime of an ingest marker ends, thirty days after it was set. -/
  | expire (key : String)
  /-- The task starts, and on its first run reads the tails it begins at. -/
  | start (save : SaveResult)
  | crash
  /-- The poll interval or the backoff has passed. -/
  | tick
  /-- The local store answers, or fails; `id` is for an entry it adds. -/
  | store (ok : Bool) (id : StreamId) (save : SaveResult)
  /-- The cloud answers with a document, or there is no answer to read. -/
  | cloud (body : Option Value) (save : SaveResult)

inductive SiteOutput where
  /-- `POST /sync/push`. -/
  | push (batch : List (StreamId × Message))
  /-- The answer to a push was found complete. -/
  | acknowledged (batch : List (StreamId × Message)) (body : Value)
  /-- `POST /sync/push-presence`. -/
  | pushPresence (rows : List (Int × Hub.Presence))
  /-- `GET /sync/pull`. -/
  | pull (since : Nat)
  /-- A message of another hub was added under the id. -/
  | ingested (id : StreamId) (message : Message)
  deriving DecidableEq

namespace Site

variable (codec : Codec) (config : Config)

def streamTail (s : Site) : StreamId := (s.stream.getLast?.map Entry.id).getD StreamId.zero

def presenceTail (s : Site) : Int := ((s.presence.rows.map Prod.fst).max?).getD 0

/-- `initial_cursors` on a first run: the current tails, or the whole history. -/
def firstCursors (s : Site) : SyncCursors :=
  if config.backfill then {}
  else { pushStreamId := s.streamTail, presenceOriginId := s.presenceTail }

/-- The requests an engine makes on entering its phase. -/
def requests (e : Engine) : List SiteOutput :=
  match e.phase with
  | .pushing _ _ => [.push (e.outbox.take e.take)]
  | .pushingPresence _ rows => [.pushPresence rows]
  | .pulling => [.pull e.cursors.pullCursor]
  | _ => []

/-- The engine goes on to its next call. -/
def proceed (s : Site) (e : Engine) : Site × List SiteOutput :=
  ({ s with engine := some e }, requests e)

/-- The engine goes on after a `persist`, whose failure is not fatal. -/
def persist (s : Site) (e : Engine) (save : SaveResult) : Site × List SiteOutput :=
  ({ s with engine := some e, file := save.file s.file e.cursors }, requests e)

/-- The first failure ends the tick. -/
def fail (s : Site) (e : Engine) : Site × List SiteOutput :=
  ({ s with engine := some { e with phase := .idle } }, [])

/-- `flush_outbox` from its head; the moved position is saved only when it moved. -/
def flush (s : Site) (e : Engine) (chunks : Nat) (fullChunk : Bool) (save : SaveResult) :
    Site × List SiteOutput :=
  if e.outbox.isEmpty ∧ e.cursors.pushStreamId ≠ e.readTo then
    s.persist (e.flush chunks fullChunk) save
  else s.proceed (e.flush chunks fullChunk)

/-- `messages_after`. -/
def messagesAfter (s : Site) (c : StreamId) (limit : Nat) : List (StreamId × Message) :=
  (page Entry.id c limit s.stream).map fun entry => (entry.id, entry.message codec)

/-- A chunk has been read. -/
def readChunk (s : Site) (e : Engine) (chunks : Nat) (save : SaveResult) :
    Site × List SiteOutput :=
  let chunk := s.messagesAfter codec e.readTo e.batchSize
  let fullChunk := e.batchSize ≤ chunk.length
  let e := if chunk.isEmpty then e else e.enqueue chunk
  s.flush e chunks fullChunk save

/-- A batch has been answered. -/
def finishPush (s : Site) (e : Engine) (chunks : Nat) (fullChunk : Bool) (body : Value)
    (save : SaveResult) : Site × List SiteOutput :=
  match messageOutcome body e.batch with
  | none => s.fail e
  | some outcome =>
    let answered := SiteOutput.acknowledged (e.outbox.take e.take) body
    match e.acknowledge outcome with
    | none =>
      let (s, outs) := s.fail e
      (s, answered :: outs)
    | some next =>
      -- rejections have to be on disk before the position moves over them
      if !outcome.rejectedIds.isEmpty && save ≠ .saved then
        ({ s with
          engine := some { e with phase := .idle }
          file := save.file s.file next }, [answered])
      else
        let e' := ({ e with cursors := next, outbox := e.outbox.drop e.take } : Engine).flush
          chunks fullChunk
        let (s, outs) := s.persist e' save
        (s, answered :: outs)

def readPresence (s : Site) (e : Engine) (chunks : Nat) : Site × List SiteOutput :=
  let rows := s.presence.after e.cursors.presenceOriginId e.batchSize
  if rows.isEmpty then s.proceed { e with phase := .pulling }
  else s.proceed { e with phase := .pushingPresence chunks rows }

def finishPresence (s : Site) (e : Engine) (chunks : Nat) (rows : List (Int × Hub.Presence))
    (save : SaveResult) : Site × List SiteOutput :=
  let maxId := ((rows.map Prod.fst).max?).getD e.cursors.presenceOriginId
  let full := e.batchSize ≤ rows.length
  s.persist
    { e with
      cursors := { e.cursors with presenceOriginId := maxId }
      phase := if full && decide (1 < chunks) then .readingPresence (chunks - 1) else .pulling }
    save

/-- The page is done with, or the next of its messages is to be ingested. -/
def ingestNext (s : Site) (e : Engine) (messages : List Message) (nextCursor : Nat)
    (hasMore : Bool) (save : SaveResult) : Site × List SiteOutput :=
  if messages.isEmpty then
    s.persist
      { e with
        cursors := { e.cursors with pullCursor := max nextCursor e.cursors.pullCursor }
        phase := if hasMore then .pulling else .idle }
      save
  else s.proceed { e with phase := .ingesting messages nextCursor hasMore }

/-- A page has been pulled.  A message without an origin, or with this hub's, is passed over. -/
def readPage (s : Site) (e : Engine) (body : Value) (save : SaveResult) :
    Site × List SiteOutput :=
  let page := pullPage body e.cursors.pullCursor
  let messages := page.messages.filter fun m => m.originHub.any fun origin => origin ≠ e.hub
  s.ingestNext e messages page.nextCursor page.hasMore save

/-- `ingest_synced_message`: the marker and the entry in one script, or an error. -/
def ingestMessage (s : Site) (m : Message) (id : StreamId) : Option (Site × List SiteOutput) :=
  match m.originHub.filter fun hub => !hub.isEmpty with
  | none => none
  | some originHub =>
    if m.id.isEmpty then none
    else if s.ingested.contains (ingestSeenKey originHub m.id) then some (s, [])
    else if s.streamTail < id then
      some ({ s with
        ingested := s.ingested ++ [ingestSeenKey originHub m.id]
        stream := s.stream ++ [⟨id, syncedFields m originHub⟩] }, [.ingested id m])
    else none

/-- The local store has answered the engine. -/
def stepStore (s : Site) (e : Engine) (ok : Bool) (id : StreamId) (save : SaveResult) :
    Site × List SiteOutput :=
  match e.phase with
  | .reading chunks => if ok then s.readChunk codec e chunks save else s.fail e
  | .readingPresence chunks => if ok then s.readPresence e chunks else s.fail e
  | .ingesting (m :: messages) nextCursor hasMore =>
    if ok then
      match s.ingestMessage m id with
      | none => s.fail e
      | some (s, outs) =>
        let (s, outs') := s.ingestNext e messages nextCursor hasMore save
        (s, outs ++ outs')
    else s.fail e
  | _ => (s, [])

/-- The cloud has answered the engine. -/
def stepCloud (s : Site) (e : Engine) (body : Option Value) (save : SaveResult) :
    Site × List SiteOutput :=
  match e.phase with
  | .pushing chunks fullChunk =>
    match body with
    | some body => s.finishPush e chunks fullChunk body save
    | none => s.fail e
  | .pushingPresence chunks rows =>
    if body.isSome then s.finishPresence e chunks rows save else s.fail e
  | .pulling =>
    match body with
    | some body => s.readPage e body save
    | none => s.fail e
  | _ => (s, [])

/-- The task starts with the saved cursors, or saves those of a first run. -/
def start (s : Site) (save : SaveResult) : Site × List SiteOutput :=
  match s.engine, s.file with
  | some _, _ => (s, [])
  | none, some cursors => ({ s with engine := some (Engine.new config cursors) }, [])
  | none, none =>
    let cursors := s.firstCursors config
    let file := save.file none cursors
    if save = .saved then
      ({ s with engine := some (Engine.new config cursors), file, initial := file }, [])
    else ({ s with file, initial := file }, [])

def step (s : Site) : SiteInput → Site × List SiteOutput
  | .append id fields =>
    if s.streamTail < id then ({ s with stream := s.stream ++ [⟨id, fields⟩] }, []) else (s, [])
  | .allocate =>
    let table := s.presence
    ({ s with presence := { table with
        nextId := table.nextId + 1
        uncommitted := table.uncommitted ++ [table.nextId] } }, [])
  | .commit id presence =>
    let table := s.presence
    if table.uncommitted.contains id then
      ({ s with presence := { table with
          uncommitted := table.uncommitted.filter (· ≠ id)
          rows := table.rows ++ [(id, presence)] } }, [])
    else (s, [])
  | .rollback id =>
    let table := s.presence
    ({ s with presence := { table with
        uncommitted := table.uncommitted.filter (· ≠ id) } }, [])
  | .expire key => ({ s with ingested := s.ingested.filter (· ≠ key) }, [])
  | .start save => s.start config save
  | .crash => ({ s with engine := none }, [])
  | .tick =>
    match s.engine with
    | some e =>
      if e.phase = .idle then s.proceed { e with phase := .reading maxChunksPerTick } else (s, [])
    | none => (s, [])
  | .store ok id save =>
    match s.engine with
    | some e => s.stepStore codec e ok id save
    | none => (s, [])
  | .cloud body save =>
    match s.engine with
    | some e => s.stepCloud e body save
    | none => (s, [])

/-- A site before its first input, with the state file it finds. -/
def fresh (file : Option SyncCursors) : Site := { file, initial := file }

def machine : Machine Site SiteInput SiteOutput := ⟨fun s i => s.step codec config i⟩

end Site

end AgentHub.Sync
