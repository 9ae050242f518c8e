import AgentHub.Export.Union
import AgentHub.Outbox.Record

/-!
# Comparing the two stores

`scan_stores` reads the ids of the messages of a window out of the Redis stream, page by page, and out
of PostgreSQL, and `check` compares the two sets.  The window ends a while before the present and
begins no earlier than the first message the stream still has.  Times are nanoseconds since the epoch;
PostgreSQL keeps microseconds.
-/

namespace AgentHub.Stores

open AgentHub.Export (Row greatestId parseUuid)
open AgentHub.Hub (MessageStream)
open AgentHub.Outbox (Digest Uuid)
open AgentHub.Sync (Codec Entry EntryFields StreamId)
open AgentHub.Validation (AgentBusError)

/-- The library functions behind the comparison, and what PostgreSQL makes of the values of a row. -/
structure StoreLibrary where
  codec : Codec
  /-- `DateTime::parse_from_rfc3339`. -/
  parseRfc3339 : String → Option Int
  toRfc3339 : Int → String
  sha256 : List UInt8 → Digest
  /-- Whether the values of a row can be sent: no text has a NUL. -/
  takes : Row → Bool
  /-- Whether the indexes have room for a row. -/
  hasRoom : Row → Bool

/-- Rows one of the unique indexes keeps apart: on the id, on the stream id, and on the origin hub with
the id its client gave. -/
def clashes (r r' : Row) : Bool :=
  r.id = r'.id || (r.streamId.isSome && r.streamId = r'.streamId) ||
    (r.originHub.isSome && r.clientMsgId.isSome &&
      r.originHub = r'.originHub && r.clientMsgId = r'.clientMsgId)

/-- The table of messages. -/
structure Archive where
  rows : List Row
  distinct : rows.Pairwise fun r r' => clashes r' r = false

variable (lib : StoreLibrary)

/-- `parse_timestamp_utc`, where its error is dropped. -/
def parseTimestampUtc (timestampUtc : String) : Option Int :=
  lib.parseRfc3339 (Postgres.timestampText timestampUtc)

/-- A time as PostgreSQL is given it: whole microseconds from the beginning of 2000, towards it. -/
def sqlTime (t : Int) : Int := 946684800000000 + (t - 946684800000000000).tdiv 1000

/-- Whether PostgreSQL has a time: from 4713 BC to 294276 AD. -/
def SqlHolds (t : Int) : Prop :=
  -210866803200000000 ≤ sqlTime t ∧ sqlTime t < 9224318016000000000

instance (t : Int) : Decidable (SqlHolds t) := inferInstanceAs (Decidable (_ ∧ _))

/-! ### Sets of ids -/

/-- A set of texts in order. -/
def idSet (ids : List String) : List String := Text.sorted ids.dedup

/-- `id_set_digest`. -/
def idSetDigest (ids : List String) : String :=
  let head (id : String) : Nat :=
    ((lib.sha256 (Json.utf8 id.toList)).bytes.take 16).foldl (fun n b => n * 256 + b.toNat) 0
  let sum := ((idSet ids).map head).sum % 2 ^ 128
  let digits := Nat.toDigits 16 sum
  String.ofList (List.replicate (32 - digits.length) '0' ++ digits)

structure IdSetReport where
  ok : Bool
  redisCount : Nat
  pgCount : Nat
  redisDigest : String
  pgDigest : String
  redisOnlyCount : Nat
  pgOnlyCount : Nat
  redisOnly : List String
  pgOnly : List String
  listingTruncated : Bool

/-- `compare_id_sets`. -/
def compareIdSets (redis pg : List String) (maxListed : Nat) : IdSetReport :=
  let redisSet := idSet redis
  let pgSet := idSet pg
  let redisOnly := redisSet.filter fun id => id ∉ pgSet
  let pgOnly := pgSet.filter fun id => id ∉ redisSet
  { ok := redisOnly.isEmpty && pgOnly.isEmpty
    redisCount := redisSet.length
    pgCount := pgSet.length
    redisDigest := idSetDigest lib redisSet
    pgDigest := idSetDigest lib pgSet
    redisOnlyCount := redisOnly.length
    pgOnlyCount := pgOnly.length
    redisOnly := redisOnly.take maxListed
    pgOnly := pgOnly.take maxListed
    listingTruncated := maxListed < redisOnly.length || maxListed < pgOnly.length }

/-! ### Reading the stream in pages -/

def xrangePage : Nat := 1000

/-- Where a range begins: at an identifier, or behind it. -/
inductive RangeStart where
  | at (id : StreamId)
  | past (id : StreamId)

/-- `XRANGE key start + COUNT count`; there is no range behind the greatest identifier. -/
def xrange (stream : MessageStream) (count : Nat) : RangeStart → Except AgentBusError (List Entry)
  | .at id => .ok ((stream.entries.filter fun entry => id ≤ entry.id).take count)
  | .past id =>
    if id < greatestId then .ok (Paging.page Entry.id id count stream.entries)
    else .error (.internal "XRANGE failed: ResponseError: invalid start ID for the interval")

/-- One round of a loop that reads pages and visits their entries, up to a page that is not full. -/
def rangeRound {α : Type} (stream : MessageStream) (visit : α → Entry → α) :
    RangeStart × α → Except AgentBusError ((RangeStart × α) ⊕ α)
  | (start, acc) => do
    let entries ← xrange stream xrangePage start
    let acc := entries.foldl visit acc
    match entries.getLast? with
    | some last =>
      if xrangePage ≤ entries.length then return .inl (.past last.id, acc) else return .inr acc
    | none => return .inr acc

/-- `{ms}-0` for the milliseconds of a time, with a minute of slack. -/
def startId (t : Int) : StreamId := StreamId.mk (t / 1000000 - 60000).toNat 0

/-! ### The scan -/

/-- `field_text`: the first field of the name. -/
def fieldText (fields : EntryFields) (name : String) : Option String := List.lookup name fields

/-- What `read_redis_ids` counts and gathers. -/
structure RedisIds where
  ids : List String
  nonUuidSkipped : Nat
  untimedSkipped : Nat

def RedisIds.empty : RedisIds := ⟨[], 0, 0⟩

/-- An entry is visited. -/
def scanEntry (lo hi : Int) (out : RedisIds) (entry : Entry) : RedisIds :=
  match (fieldText entry.fields "timestamp_utc").bind (parseTimestampUtc lib) with
  | none => { out with untimedSkipped := out.untimedSkipped + 1 }
  | some t =>
    if t < lo ∨ hi < t then out
    else
      match (fieldText entry.fields "id").bind parseUuid with
      | some id => { out with ids := out.ids ++ [id.toString] }
      | none => { out with nonUuidSkipped := out.nonUuidSkipped + 1 }

/-- The time of an identifier, if a `DateTime` can hold it. -/
def idTime (id : StreamId) : Option Int :=
  let ms := (ofLex id).1
  if ms < 2 ^ 63 ∧ Export.chronoHolds (ms * 1000) then some (ms * 1000000) else none

/-- The time of the first message of the stream. -/
def retentionStart (stream : MessageStream) : Option Int :=
  stream.entries.head?.bind fun entry =>
    ((fieldText entry.fields "timestamp_utc").bind (parseTimestampUtc lib)).or (idTime entry.id)

/-- How much history to compare. -/
inductive Scope where
  | window (length : Int)
  | full

/-- The end of the window that is judged. -/
def windowEnd (settle now : Int) : Int := now - settle

/-- The beginning of the window: what is asked for, or where the stream begins. -/
def windowStart (stream : MessageStream) (scope : Scope) (settle now : Int) : Int :=
  let requested := match scope with
    | .window length => windowEnd settle now - length
    | .full => 0
  (retentionStart lib stream).elim requested fun start => max requested start

/-- The ids of the rows of a window. -/
def idsBetween (archive : Archive) (lo hi : Int) : List String :=
  (archive.rows.filter fun row => sqlTime lo ≤ row.timestampUtc && row.timestampUtc ≤ sqlTime hi).map
    fun row => row.id.toString

/-- `list_message_ids_between`. -/
def listMessageIdsBetween (archive : Archive) (lo hi : Int) : Except AgentBusError (List String) :=
  if SqlHolds lo ∧ SqlHolds hi then .ok (idsBetween archive lo hi)
  else .error (.internal "db error: timestamp out of range")

structure StoreScan where
  scope : String
  lo : Int
  hi : Int
  redisRetentionStart : Option Int
  redisIds : List String
  pgIds : List String
  redisNonUuidSkipped : Nat
  redisUntimedSkipped : Nat

/-- What `scan_stores` returns for what it read of the stores. -/
def scanOf (stream : MessageStream) (scope : Scope) (settle now : Int) (redis : RedisIds)
    (pgIds : List String) : StoreScan where
  scope := match scope with
    | .window _ => "window"
    | .full => "full"
  lo := windowStart lib stream scope settle now
  hi := windowEnd settle now
  redisRetentionStart := retentionStart lib stream
  redisIds := redis.ids
  pgIds := pgIds
  redisNonUuidSkipped := redis.nonUuidSkipped
  redisUntimedSkipped := redis.untimedSkipped

/-- `scan_stores` at a time; no result is a loop that has not come to its end within the fuel. -/
def scanStores (fuel : Nat) (stream : MessageStream) (archive : Archive) (scope : Scope)
    (settle now : Int) : Option (Except AgentBusError StoreScan) :=
  let lo := windowStart lib stream scope settle now
  let visit := scanEntry lib lo (windowEnd settle now)
  (loop (rangeRound stream visit) fuel (.at (startId lo), RedisIds.empty)).map fun result => do
    let redis ← result
    let pgIds ← listMessageIdsBetween archive lo (windowEnd settle now)
    return scanOf lib stream scope settle now redis pgIds

structure StoreCheck where
  scope : String
  fromUtc : String
  toUtc : String
  redisRetentionStartUtc : Option String
  redisNonUuidSkipped : Nat
  redisUntimedSkipped : Nat
  report : IdSetReport

/-- `StoreScan::check`. -/
def StoreScan.check (scan : StoreScan) (maxListed : Nat) : StoreCheck where
  scope := scan.scope
  fromUtc := lib.toRfc3339 scan.lo
  toUtc := lib.toRfc3339 scan.hi
  redisRetentionStartUtc := scan.redisRetentionStart.map lib.toRfc3339
  redisNonUuidSkipped := scan.redisNonUuidSkipped
  redisUntimedSkipped := scan.redisUntimedSkipped
  report := compareIdSets lib scan.redisIds scan.pgIds maxListed

/-- `check_stores`. -/
def checkStores (fuel : Nat) (stream : MessageStream) (archive : Archive) (scope : Scope)
    (settle now : Int) (maxListed : Nat) : Option (Except AgentBusError StoreCheck) :=
  (scanStores lib fuel stream archive scope settle now).map fun result =>
    result.map fun scan => scan.check lib maxListed

end AgentHub.Stores
