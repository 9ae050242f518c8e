import AgentHub.Backward
import AgentHub.Sync.Message

/-!
# Reading the history of a stream

`bus_list_messages_from_redis_with_filters`: the stream is read backwards page by page, each entry
is decoded and filtered, and the messages that are found are returned oldest first.
-/

namespace AgentHub.Hub

open AgentHub.Paging
open AgentHub.Sync (Entry Codec)
open AgentHub.Validation (AgentBusError)

def xrevrangeOverfetchFactor : Nat := 5

def xrevrangeMinFetch : Nat := 200

/-- A stream as Redis keeps it. -/
structure MessageStream where
  entries : List Entry
  ascending : Paging.Ascending Entry.id entries

/-- What `bus_list_messages_from_redis_with_filters` is asked for. -/
structure HistoryFilters where
  agent : Option String
  fromAgent : Option String
  includeBroadcast : Bool
  topic : Option String
  threadId : Option String
  requiredTags : List String

/-- `message_matches_filters`. -/
def HistoryFilters.messageMatchesFilters (filters : HistoryFilters) (m : Sync.Message) : Bool :=
  (filters.fromAgent.all fun name => m.fromAgent = name) &&
    (filters.agent.all fun name =>
      m.toAgent = name || (filters.includeBroadcast && m.toAgent = "all")) &&
    (filters.topic.all fun topic => m.topic = topic) &&
    (filters.threadId.all fun threadId => m.threadId = some threadId) &&
    filters.requiredTags.all fun tag => m.tags.contains tag

/-- A product of sizes, which saturates. -/
def saturatingMul (a b : Nat) : Nat := min (a * b) (2 ^ 64 - 1)

/-- How many entries a page asks for. -/
def pageSize (filters : HistoryFilters) (limit : Nat) : Nat :=
  let factor :=
    if filters.topic.isSome || filters.threadId.isSome || !filters.requiredTags.isEmpty then
      saturatingMul xrevrangeOverfetchFactor 2
    else xrevrangeOverfetchFactor
  max (saturatingMul limit factor) xrevrangeMinFetch

/-- `n as i64` of a `u64`, which wraps around. -/
def asI64 (n : Nat) : Int := if n < 2 ^ 63 then n else n - 2 ^ 64

/-- `chrono::Duration::minutes`, in nanoseconds.  It panics where the milliseconds leave `i64`. -/
def durationMinutes (minutes : Int) : Option Int :=
  if (minutes * 60).natAbs ≤ 9223372036854775 then some (minutes * 60 * 1000000000) else none

/-- The first second of the calendar of `chrono`, and the first after it. -/
def calendarStart : Int := -8334601228800

def calendarStop : Int := 8210266876800

/-- A time in nanoseconds that the calendar has. -/
def inCalendar (t : Int) : Option Int :=
  if calendarStart * 1000000000 ≤ t ∧ t < calendarStop * 1000000000 then some t else none

/-- The beginning of the window, in nanoseconds; a time outside the calendar is a panic. -/
def historyCutoff (now sinceMinutes : Nat) : Option Int :=
  (durationMinutes (asI64 sinceMinutes)).bind fun duration => inCalendar (now - duration)

/-- `{cutoff}-0`, where the window begins in the stream. -/
def streamStart (cutoff : Int) : Sync.StreamId := Sync.StreamId.mk (cutoff / 1000000).toNat 0

/-- `XREVRANGE key bound start COUNT count`, whose upper bound is exclusive unless it is `+`, and
whose count is a signed number. -/
def xrevrange (stream : MessageStream) (start : Sync.StreamId) (count : Nat)
    (bound : Option Sync.StreamId) : Except AgentBusError (List Entry) :=
  if count < 2 ^ 63 then
    .ok ((before Entry.id bound (stream.entries.filter fun entry => start ≤ entry.id)).take count)
  else .error (.internal "XREVRANGE failed: ResponseError: value is not an integer or out of range")

/-- How a read ends. -/
inductive HistoryRead where
  | panicked
  | returned (result : Except AgentBusError (List Sync.Message))

section Reading

-- `parseRfc3339` gives the nanoseconds of an RFC 3339 text
variable (codec : Codec) (parseRfc3339 : String → Option Int)

/-- `timestamp_utc.replace('Z', "+00:00")`. -/
def replaceZ (s : String) : String :=
  String.ofList (s.toList.flatMap fun c => if c = 'Z' then "+00:00".toList else [c])

/-- A message that carries a time before the cutoff. -/
def beforeCutoff (cutoff : Int) (m : Sync.Message) : Bool :=
  (parseRfc3339 (replaceZ m.timestampUtc)).any fun t => decide (t < cutoff)

/-- The message of an entry, if it is looked for. -/
def selectEntry (filters : HistoryFilters) (cutoff : Int) (entry : Entry) : Option Sync.Message :=
  let m := Sync.decodeStreamEntry codec entry.fields
  if beforeCutoff parseRfc3339 cutoff m then none
  else if filters.messageMatchesFilters m then some { m with streamId := some entry.id.text }
  else none

/-- `bus_list_messages_from_redis_with_filters`; no result is a loop that has not come to its end
within the fuel. -/
def busListMessagesFromRedisWithFilters (fuel : Nat) (stream : MessageStream) (now : Nat)
    (filters : HistoryFilters) (sinceMinutes limit : Nat) : Option HistoryRead :=
  if limit = 0 then some (.returned (.ok []))
  else
    let size := pageSize filters limit
    match historyCutoff now sinceMinutes with
    | none => some .panicked
    | some cutoff =>
      let found := walk Entry.id (xrevrange stream (streamStart cutoff) size)
        (selectEntry codec parseRfc3339 filters cutoff) limit size (fun _ => false) fuel none 0 []
      found.map fun result => .returned (result.map List.reverse)

end Reading

end AgentHub.Hub
