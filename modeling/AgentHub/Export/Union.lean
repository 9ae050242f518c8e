import AgentHub.Hub.History
import AgentHub.Loop
import AgentHub.Outbox.Request
import AgentHub.Postgres.Persist
import Mathlib.Data.List.Lex
import Mathlib.Order.Fin.Basic

/-!
# The complete export

`export_union` reads the rows of PostgreSQL in keyset pages, gives each to a sink, and then reads the
entries of the Redis stream and gives those whose id it has not seen.  The cursor of the rows is read
back from the text of the last message of a page.  `exportMessagesPage` and `redisPage` are the two
sources `export_all` hands to it.
-/

namespace AgentHub.Export

open AgentHub.Json AgentHub.Paging
open AgentHub.Hub (MessageStream)
open AgentHub.Outbox (Uuid)
open AgentHub.Sync (Codec Entry StreamId Sensitivity)
open AgentHub.Validation (AgentBusError)

/-! ### Identifiers and times -/

/-- UUIDs in the order of their bytes. -/
instance : LinearOrder Uuid :=
  LinearOrder.lift' Uuid.nibbles fun u v h => by
    cases u
    cases v
    cases h
    rfl

/-- `Uuid::parse_str`: the forms with and without hyphens, and the one with hyphens in braces or as a
URN. -/
def parseUuid (s : String) : Option Uuid :=
  match s.toList with
  | '\x7b' :: cs =>
    if cs.length = 37 ∧ cs.getLast? = some '\x7d' then Uuid.parse (String.ofList cs.dropLast) else none
  | 'u' :: 'r' :: 'n' :: ':' :: 'u' :: 'u' :: 'i' :: 'd' :: ':' :: cs =>
    if cs.length = 36 then Uuid.parse (String.ofList cs) else none
  | _ => Uuid.parse s

/-- The microseconds of the years that are written with four digits. -/
def fourDigits (t : Int) : Bool := -62167219200000000 ≤ t && t < 253402300800000000

/-- The microseconds a `DateTime<Utc>` can hold. -/
def chronoHolds (t : Int) : Bool := -8334601228800000000 ≤ t && t < 8210266876800000000

/-- The library functions an export calls. -/
structure ExportLibrary where
  codec : Codec
  /-- `format("%Y-%m-%dT%H:%M:%S%.6fZ")` of a count of microseconds. -/
  formatUtc : Int → String
  /-- `DateTime::parse_from_rfc3339`: the microseconds, or what is wrong with the text. -/
  parseRfc3339 : String → Except String Int
  /-- What `Uuid::parse_str` says of a text it does not read. -/
  uuidError : String → String
  parse_format : ∀ t, fourDigits t = true →
    parseRfc3339 (Postgres.timestampText (formatUtc t)) = .ok t
  /-- Other years are written with a sign, and not read. -/
  parse_far : ∀ t, fourDigits t = false →
    ∃ e, parseRfc3339 (Postgres.timestampText (formatUtc t)) = .error e

/-! ### Rows -/

/-- A row of the table of messages.  A document that cannot be read is `none`. -/
structure Row where
  id : Uuid
  timestampUtc : Int
  protocolVersion : String
  sender : String
  recipient : String
  topic : String
  body : String
  threadId : Option String
  tags : Option Value
  priority : String
  requestAck : Bool
  replyTo : String
  metadata : Option Value
  streamId : Option String
  clientMsgId : Option String
  originHub : Option String
  originSeq : Option Int64
  hlc : Option String
  sensitivity : Option String

/-- What `order by timestamp_utc, id` compares. -/
def Row.key (row : Row) : Int ×ₗ Uuid := toLex (row.timestampUtc, row.id)

/-- The table in the order of an export; `id` is its primary key. -/
structure MessageTable where
  rows : List Row
  ascending : Ascending Row.key rows
  nodup : (rows.map Row.id).Nodup

/-- `parse_tags`. -/
def parseTags (value : Value) : List String := (value.asArray.getD []).filterMap Value.asStr

/-- Whether the columns of a row can be read. -/
def Row.decodes (row : Row) : Bool :=
  chronoHolds row.timestampUtc && row.tags.isSome && row.metadata.isSome

variable (lib : ExportLibrary)

/-- `row_to_message`; `none` is the panic of `row.get` on a column it cannot read. -/
def rowToMessage (row : Row) : Option Sync.Message :=
  if chronoHolds row.timestampUtc then
    match row.tags, row.metadata with
    | some tags, some metadata => some
        { id := row.id.toString
          timestampUtc := lib.formatUtc row.timestampUtc
          protocolVersion := row.protocolVersion
          fromAgent := row.sender
          toAgent := row.recipient
          topic := row.topic
          body := row.body
          threadId := row.threadId
          tags := parseTags tags
          priority := row.priority
          requestAck := row.requestAck
          replyTo := Sync.nonEmpty row.replyTo
          metadata := metadata
          streamId := row.streamId
          clientMsgId := row.clientMsgId
          originHub := row.originHub
          originSeq := row.originSeq.bind fun v => if 0 ≤ v then some v.toUInt64 else none
          hlc := row.hlc
          sensitivity := row.sensitivity.bind Sensitivity.fromStored }
    | _, _ => none
  else none

/-! ### The two sources -/

/-- How an export ends before its time. -/
inductive Stop where
  | failed (error : AgentBusError)
  | panicked
  deriving DecidableEq

/-- The last `(timestamp_utc, id)` that was read. -/
abbrev PgCursor := Int ×ₗ Uuid

/-- `export_messages_page`. -/
def exportMessagesPage (table : MessageTable) (limit : Nat) (after : Option PgCursor) :
    Except Stop (List Sync.Message) :=
  if limit < 2 ^ 63 then
    let rows := match after with
      | some cursor => page Row.key cursor limit table.rows
      | none => table.rows.take limit
    match rows.mapM (rowToMessage lib) with
    | some messages => .ok messages
    | none => .error .panicked
  else
    .error (.failed (.internal
      "page size exceeds i64: out of range integral type conversion attempted"))

/-- The greatest identifier Redis has; no range begins after it. -/
def greatestId : StreamId := StreamId.mk (2 ^ 64 - 1) (2 ^ 64 - 1)

/-- `XRANGE key - + COUNT n`, or `XRANGE key (id + COUNT n`, decoded. -/
def redisPage (stream : MessageStream) (count : Nat) (after : Option StreamId) :
    Except Stop (List (StreamId × Sync.Message)) :=
  let decode := fun entry : Entry => (entry.id, entry.message lib.codec)
  match after with
  | none => .ok ((stream.entries.take count).map decode)
  | some id =>
    if id < greatestId then .ok ((page Entry.id id count stream.entries).map decode)
    else .error (.failed (.internal "XRANGE failed: ResponseError: invalid start ID for the interval"))

/-! ### The union -/

structure ExportSummary where
  pgMessages : Nat
  redisOnly : Nat
  redisDuplicates : Nat
  deriving DecidableEq

/-- What an export has counted, the ids it has seen and what it gave to the sink. -/
structure Progress where
  summary : ExportSummary
  seen : List String
  emitted : List Sync.Message

def Progress.start : Progress where
  summary := ⟨0, 0, 0⟩
  seen := []
  emitted := []

/-- Where the messages go. -/
abbrev Sink := Sync.Message → Except Stop Unit

/-- A message of PostgreSQL. -/
def emitRow (sink : Sink) (p : Progress) (m : Sync.Message) : Except Stop Progress := do
  sink m
  return { summary := { p.summary with pgMessages := p.summary.pgMessages + 1 }
           seen := p.seen ++ [m.id]
           emitted := p.emitted ++ [m] }

/-- A message of the stream. -/
def emitEntry (sink : Sink) (p : Progress) (m : Sync.Message) : Except Stop Progress :=
  if m.id ∈ p.seen then
    return { p with summary := { p.summary with redisDuplicates := p.summary.redisDuplicates + 1 } }
  else do
    sink m
    return { summary := { p.summary with redisOnly := p.summary.redisOnly + 1 }
             seen := p.seen ++ [m.id]
             emitted := p.emitted ++ [m] }

/-- `parse_timestamp_utc`. -/
def parseTimestampUtc (timestampUtc : String) : Except Stop Int :=
  match lib.parseRfc3339 (Postgres.timestampText timestampUtc) with
  | .ok t => .ok t
  | .error e => .error (.failed (.internal s!"invalid timestamp_utc {timestampUtc}: {e}"))

/-- The cursor after a message. -/
def cursorOf (m : Sync.Message) : Except Stop PgCursor := do
  let ts ← parseTimestampUtc lib m.timestampUtc
  match parseUuid m.id with
  | some id => return toLex (ts, id)
  | none => throw (.failed (.internal s!"bad id {m.id} in PostgreSQL: {lib.uuidError m.id}"))

/-- One round of the first loop. -/
def pgRound (pgPage : Option PgCursor → Except Stop (List Sync.Message)) (sink : Sink) :
    Option PgCursor × Progress → Except Stop ((Option PgCursor × Progress) ⊕ Progress)
  | (cursor, p) => do
    let messages ← pgPage cursor
    match messages.getLast? with
    | none => return .inr p
    | some last =>
      let next ← cursorOf lib last
      let p ← messages.foldlM (emitRow sink) p
      return .inl (some next, p)

/-- One round of the second loop. -/
def redisRound (page : Option StreamId → Except Stop (List (StreamId × Sync.Message)))
    (sink : Sink) :
    Option StreamId × Progress → Except Stop ((Option StreamId × Progress) ⊕ Progress)
  | (after, p) => do
    let pairs ← page after
    match pairs.getLast? with
    | none => return .inr p
    | some last =>
      let p ← (pairs.map Prod.snd).foldlM (emitEntry sink) p
      return .inl (some last.1, p)

/-- `export_union`; no result is a loop that has not come to its end within the fuel. -/
def exportUnion (pgPage : Option PgCursor → Except Stop (List Sync.Message))
    (page : Option StreamId → Except Stop (List (StreamId × Sync.Message))) (sink : Sink)
    (fuel : Nat) : Option (Except Stop Progress) :=
  match loop (pgRound lib pgPage sink) fuel (none, Progress.start) with
  | none => none
  | some (.error e) => some (.error e)
  | some (.ok p) => loop (redisRound page sink) fuel (none, p)

end AgentHub.Export
