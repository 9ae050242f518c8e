import AgentHub.Cloud.Validation
import AgentHub.Paging

/-!
# The message log of the cloud

`BusLog` is the durable object that keeps the messages of every hub: a table whose sequence numbers
only grow and whose two unique keys are per origin.  Its operations are the insertion of a message,
the push of a batch by a hub, the page of a pull, and the deletion of what has outlived its
retention.

A statement of the store can fail.  The failures that a retry cannot mend are told from the others
by the text of the error, which is what a `Fault` keeps.  The table of per-origin counters is left
out: no operation on messages reads it.
-/

namespace AgentHub.Cloud

open AgentHub.Json AgentHub.Paging

/-- The columns a writer of a message gives. -/
structure MessageFields where
  id : String
  timestampUtc : String
  protocolVersion : String
  fromAgent : String
  toAgent : String
  topic : String
  body : String
  threadId : Option String
  tags : List String
  priority : String
  requestAck : Bool
  replyTo : Option String
  metadata : Value
  clientMsgId : Option String
  originHost : Option String
  originSeq : Option Value
  hlc : Option String
  sensitivity : Option String
  deriving DecidableEq

structure InsertMessageInput extends MessageFields where
  originHub : Option String
  deriving DecidableEq

/-- A row of `messages`. -/
structure Row extends MessageFields where
  seq : Nat
  originHub : String
  ingestedAtUtc : String
  deriving DecidableEq

/-- `stream_id`, which the insertion sets after the sequence number is known. -/
def Row.streamId (row : Row) : String := toString row.seq ++ "-0"

/-- Two rows that the unique keys do not allow together; `NULL` equals nothing. -/
def Row.Clash (a b : Row) : Prop :=
  a.originHub = b.originHub ∧
    (a.id = b.id ∨ (a.clientMsgId.isSome ∧ a.clientMsgId = b.clientMsgId))

instance (a b : Row) : Decidable (a.Clash b) :=
  inferInstanceAs (Decidable (_ ∧ (_ ∨ (_ ∧ _))))

structure BusLog where
  rows : List Row
  /-- The largest sequence number ever given out. -/
  lastSeq : Nat
  ascending : Ascending Row.seq rows
  le_lastSeq : ∀ row ∈ rows, row.seq ≤ lastSeq
  unique : rows.Pairwise fun a b => ¬ a.Clash b

namespace BusLog

def empty : BusLog := ⟨[], 0, List.Pairwise.nil, by simp, List.Pairwise.nil⟩

/-- The row an insertion would add. -/
def newRow (log : BusLog) (fields : MessageFields) (originHub : String) (now : Int) : Row :=
  { fields with seq := log.lastSeq + 1, originHub, ingestedAtUtc := formatTimestampUtc now }

/-- `INSERT INTO messages`, refused by the unique keys. -/
def insertRow (log : BusLog) (fields : MessageFields) (originHub : String) (now : Int) :
    Option (BusLog × Row) :=
  let row := log.newRow fields originHub now
  if h : ∀ old ∈ log.rows, ¬ old.Clash row then
    some (
      { rows := log.rows ++ [row]
        lastSeq := log.lastSeq + 1
        ascending := List.pairwise_append.2 ⟨log.ascending, List.pairwise_singleton _ _, by
          intro a ha b hb
          rw [List.mem_singleton.1 hb]
          exact Nat.lt_succ_of_le (log.le_lastSeq a ha)⟩
        le_lastSeq := by
          intro a ha
          rcases List.mem_append.1 ha with ha | ha
          · exact Nat.le_succ_of_le (log.le_lastSeq a ha)
          · rw [List.mem_singleton.1 ha]
            exact Nat.le_refl _
        unique := List.pairwise_append.2 ⟨log.unique, List.pairwise_singleton _ _, by
          intro a ha b hb
          rw [List.mem_singleton.1 hb]
          exact h a ha⟩ }, row)
  else none

/-! ### Insertion -/

/-- How the statements of an insertion go. -/
inductive Fault where
  | none
  /-- The look-up fails. -/
  | lookup
  /-- The insertion fails, in a way that a retry repeats or not. -/
  | insert (deterministic : Bool)
  deriving DecidableEq, Repr

inductive InsertResult where
  | inserted (log : BusLog) (row : Row)
  | existing (row : Row) (conflict : Bool)
  | failed (deterministic : Bool)

/-- The row a `LIMIT 1` without an order returns: any of them. -/
def limitOne (choose : List Row → Nat) (rows : List Row) : Option Row :=
  rows[choose rows % rows.length]?

/-- The rows that have one of the keys of a message. -/
def withKey (log : BusLog) (originHub id : String) (clientMsgId : Option String) : List Row :=
  log.rows.filter fun row =>
    row.originHub == originHub &&
      (row.id == id || (clientMsgId.any fun key => row.clientMsgId == some key))

def messageContentDiffers (existing : Row) (input : MessageFields) : Bool :=
  existing.fromAgent ≠ input.fromAgent || existing.toAgent ≠ input.toAgent ||
    existing.topic ≠ input.topic || existing.body ≠ input.body

/-- `insertMessage`, for a message whose origin is known. -/
def insertMessage (choose : List Row → Nat) (log : BusLog) (fields : MessageFields)
    (originHub : String) (now : Int) (fault : Fault) : InsertResult :=
  if fault = .lookup then .failed false
  else
    match limitOne choose (log.withKey originHub fields.id
        (fields.clientMsgId.filter fun key => !key.isEmpty)) with
    | some row => .existing row (messageContentDiffers row fields)
    | none =>
      match fault, log.insertRow fields originHub now with
      | .insert deterministic, _ => .failed deterministic
      | _, some (log, row) => .inserted log row
      | _, none => .failed true

/-! ### Push -/

inductive ItemResult where
  | accepted (row : Row)
  | duplicate (row : Row)
  | conflict (row : Row)
  | rejected (reason : String)

/-- One item of a push; `none` is an error that ends the request. -/
def syncItem (choose : List Row → Nat) (log : BusLog) (originHub : String)
    (item : InsertMessageInput) (now : Int) (fault : Fault) : Option (BusLog × ItemResult) :=
  if item.sensitivity = some "no-offsite" then
    some (log, .rejected "sensitivity=no-offsite messages are never replicated to the cloud tier")
  else if [item.fromAgent, item.toAgent, item.topic, item.body].any fun s => (Js.trim s).isEmpty then
    some (log, .rejected "from, to, topic and body must all be non-empty")
  else if (item.originHub.filter fun hub => !hub.isEmpty).any fun hub => hub ≠ originHub then
    some (log, .rejected (s!"item origin_hub '{item.originHub.getD originHub}' does not match " ++
      s!"the request's origin_hub '{originHub}'"))
  else
    match insertMessage choose log item.toMessageFields originHub now fault with
    | .inserted log row => some (log, .accepted row)
    | .existing row true => some (log, .conflict row)
    | .existing row false => some (log, .duplicate row)
    | .failed true => some (log, .rejected "storage rejected the message")
    | .failed false => none

/-- The loop of `syncPush`: the results so far, and whether it came to its end. -/
def syncItems (choose : List Row → Nat) (originHub : String) (now : Int) :
    BusLog → List (InsertMessageInput × Fault) → BusLog × List ItemResult × Bool
  | log, [] => (log, [], true)
  | log, (item, fault) :: items =>
    match syncItem choose log originHub item now fault with
    | none => (log, [], false)
    | some (log, result) =>
      let (log, results, completed) := syncItems choose originHub now log items
      (log, result :: results, completed)

/-- The items with a result of one kind, by their ids. -/
def idsOf (kind : ItemResult → Bool) (items : List InsertMessageInput) (results : List ItemResult) :
    List String :=
  ((items.zip results).filter fun x => kind x.2).map fun x => x.1.id

def ItemResult.isAccepted : ItemResult → Bool
  | .accepted _ => true
  | _ => false

def ItemResult.isDuplicate : ItemResult → Bool
  | .duplicate _ => true
  | _ => false

def ItemResult.isConflict : ItemResult → Bool
  | .conflict _ => true
  | _ => false

/-- An entry of `rejected`; what is undefined is left out. -/
structure Rejection where
  id : Option Value
  clientMsgId : Option Value
  reason : String

def Rejection.value (r : Rejection) : Value :=
  .obj (Fields.compact
    [("id", r.id), ("client_msg_id", r.clientMsgId), ("reason", some (.str r.reason))])

def rejectionOf (item : InsertMessageInput) : ItemResult → Option Rejection
  | .rejected reason => some ⟨some (.str item.id), item.clientMsgId.map .str, reason⟩
  | _ => none

structure SyncPushResult where
  accepted : List String
  duplicates : List String
  conflicts : List String
  rejected : List Rejection
  cursor : Nat

/-- `MAX(seq)`, zero for no rows. -/
def currentCursor (log : BusLog) : Nat := (log.rows.getLast?.map Row.seq).getD 0

/-- What `syncPush` returns for the results of its items. -/
def pushResult (log : BusLog) (items : List InsertMessageInput) (results : List ItemResult) :
    SyncPushResult where
  accepted := idsOf ItemResult.isAccepted items results
  duplicates := idsOf ItemResult.isDuplicate items results
  conflicts := idsOf ItemResult.isConflict items results
  rejected := (items.zip results).filterMap fun x => rejectionOf x.1 x.2
  cursor := log.currentCursor

/-! ### Pull -/

/-- The fields of a message in an answer; what is `NULL` is left out. -/
def rowSlots (row : Row) : List (String × Option Value) :=
  [("id", some (.str row.id)),
   ("timestamp_utc", some (.str row.timestampUtc)),
   ("protocol_version", some (.str row.protocolVersion)),
   ("from", some (.str row.fromAgent)),
   ("to", some (.str row.toAgent)),
   ("topic", some (.str row.topic)),
   ("body", some (.str row.body)),
   ("tags", some (.arr (row.tags.map .str))),
   ("priority", some (.str row.priority)),
   ("request_ack", some (.bool row.requestAck)),
   ("metadata", some row.metadata),
   ("thread_id", row.threadId.map .str),
   ("reply_to", row.replyTo.map .str),
   ("stream_id", some (.str row.streamId)),
   ("client_msg_id", row.clientMsgId.map .str),
   ("origin_host", row.originHost.map .str),
   ("origin_hub", some (.str row.originHub)),
   ("origin_seq", row.originSeq),
   ("hlc", row.hlc.map .str),
   ("sensitivity", (row.sensitivity.filter fun s => !s.isEmpty && s ≠ "internal").map .str)]

/-- `rowToMessage`, as the answer carries it. -/
def rowToMessage (row : Row) : Value := .obj (Fields.compact (rowSlots row))

structure SyncPullResult where
  page : List Row
  nextCursor : Nat
  hasMore : Bool
  deriving DecidableEq

/-- `syncPull`: one row more than the page is read, to see whether there is one. -/
def syncPull (log : BusLog) (sinceSeq : Nat) (excludeOrigin : Option String) (limit : Nat) :
    SyncPullResult :=
  let highWater := log.currentCursor
  let rows := (log.rows.filter fun row =>
    decide (sinceSeq < row.seq) && decide (row.seq ≤ highWater) &&
      (excludeOrigin.filter fun hub => !hub.isEmpty).all fun hub => row.originHub ≠ hub).take
        (limit + 1)
  let hasMore := decide (limit < rows.length)
  let page := if hasMore then rows.take limit else rows
  { page
    hasMore
    nextCursor :=
      match hasMore, page.getLast? with
      | true, some last => last.seq
      | _, _ => max sinceSeq highWater }

/-- The answer to a pull. -/
def SyncPullResult.value (r : SyncPullResult) : Value :=
  .obj
    [("messages", .arr (r.page.map rowToMessage)),
     ("next_cursor", .int r.nextCursor),
     ("has_more", .bool r.hasMore)]

/-! ### Retention -/

/-- The alarm's deletion of rows by the time they came in. -/
def deleteBefore (log : BusLog) (cutoffIso : String) : BusLog where
  rows := log.rows.filter fun row => !decide (row.ingestedAtUtc < cutoffIso)
  lastSeq := log.lastSeq
  ascending := log.ascending.filter _
  le_lastSeq row hrow := log.le_lastSeq row (List.mem_of_mem_filter hrow)
  unique := log.unique.filter _

end BusLog

end AgentHub.Cloud
