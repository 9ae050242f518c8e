import AgentHub.Machine
import AgentHub.Hub.Redis
import AgentHub.Sync.Engine

/-!
# Ingesting a pulled message

`ingest_synced_message` with the script it runs on Redis: the marker of the message is looked up and
reserved, the entry is appended, and a failed append takes the reservation back.  The row for
PostgreSQL and the notifications that follow a successful append are best effort and change neither
the markers nor the stream.
-/

namespace AgentHub.Sync

open AgentHub.Hub (Expiring readKey)
open AgentHub.Validation (AgentBusError)

def ingestSeenTtlSeconds : Nat := 30 * 24 * 60 * 60

/-- What the script needs of Redis.  Deadlines and the clock are milliseconds. -/
structure IngestStore where
  markers : String → Option (Expiring Unit) := fun _ => none
  stream : List Entry := []
  clock : Nat := 0

/-- Where the script fails, once it has found no marker. -/
inductive ScriptFault where
  | streamType
  | permission
  /-- `DEL` or `SET` raises its error. -/
  | reserve (error : String)
  | xadd (error : String)

/-- What becomes of the command that runs the script. -/
inductive ScriptFate where
  | served
  | faulty (fault : ScriptFault)
  /-- It does not reach Redis, or Redis does not run it. -/
  | refused (error : String)

/-- A call, with the time before it, the identifier of the entry it may append, and how many entries
the server would like to trim. -/
structure IngestCall where
  message : Message
  delay : Nat
  fate : ScriptFate
  id : StreamId
  trimmed : Nat

inductive IngestOutcome where
  | ingested
  | duplicate
  deriving DecidableEq

namespace IngestStore

def wait (s : IngestStore) (delay : Nat) : IngestStore := { s with clock := s.clock + delay }

def marked (s : IngestStore) (key : String) : Bool := (readKey (s.markers key) s.clock).isSome

/-- `SET key 1 EX seconds`. -/
def mark (s : IngestStore) (key : String) : IngestStore :=
  let marker : Expiring Unit := ⟨(), some (s.clock + ingestSeenTtlSeconds * 1000)⟩
  { s with markers := Function.update s.markers key (some marker) }

def unmark (s : IngestStore) (key : String) : IngestStore :=
  { s with markers := Function.update s.markers key none }

/-- `XADD key MAXLEN ~ maxlen`. -/
def xadd (s : IngestStore) (maxlen trimmed : Nat) (entry : Entry) : IngestStore :=
  let stream := s.stream ++ [entry]
  { s with stream := stream.drop (min trimmed (stream.length - maxlen)) }

/-- `INGEST_SCRIPT`; no identifier is its `false`. -/
def ingestScript (s : IngestStore) (maxlen : Nat) (seenKey : String) (entry : Entry) (trimmed : Nat)
    (fault : Option ScriptFault) : IngestStore × Except String (Option StreamId) :=
  if s.marked seenKey then (s, .ok none)
  else
    match fault with
    | some .streamType => (s, .error "synced message stream has the wrong type")
    | some .permission =>
      (s, .error "synced message ingestion requires SET, DEL and XADD permission")
    | some (.reserve error) => (s.unmark seenKey, .error error)
    | some (.xadd error) => (((s.unmark seenKey).mark seenKey).unmark seenKey, .error error)
    | none => (((s.unmark seenKey).mark seenKey).xadd maxlen trimmed entry, .ok (some entry.id))

end IngestStore

/-- The script as it is invoked. -/
def invoke (s : IngestStore) (maxlen : Nat) (seenKey : String) (entry : Entry) (trimmed : Nat) :
    ScriptFate → IngestStore × Except String (Option StreamId)
  | .served => s.ingestScript maxlen seenKey entry trimmed none
  | .faulty fault => s.ingestScript maxlen seenKey entry trimmed (some fault)
  | .refused error => (s, .error error)

/-- The hub and the identifier of a message that can be ingested. -/
def ingestName (m : Message) : Except AgentBusError (String × String) :=
  match m.originHub.filter fun hub => !hub.isEmpty with
  | none => .error (.invalidParams "synced message has no origin_hub")
  | some originHub =>
    if m.id.isEmpty then .error (.invalidParams "synced message has no id")
    else .ok (originHub, m.id)

/-- `ingest_synced_message`, with the entry it appends. -/
def ingestSyncedMessage (maxlen : Nat) (s : IngestStore) (call : IngestCall) :
    IngestStore × Except AgentBusError IngestOutcome × Option Entry :=
  match ingestName call.message with
  | .error e => (s, .error e, none)
  | .ok (originHub, id) =>
    let entry : Entry := ⟨call.id, syncedFields call.message originHub⟩
    match invoke s maxlen (ingestSeenKey originHub id) entry call.trimmed call.fate with
    | (s, .ok (some _)) => (s, .ok .ingested, some entry)
    | (s, .ok none) => (s, .ok .duplicate, none)
    | (s, .error e) => (s, .error (.internal s!"atomic synced ingest failed: {e}"), none)

/-- A call, its result and the entry the stream got. -/
structure Ingested where
  call : IngestCall
  result : Except AgentBusError IngestOutcome
  received : Option Entry

/-- The calls one after the other. -/
def ingesting (maxlen : Nat) : Machine IngestStore IngestCall Ingested where
  step s call :=
    let (t, result, received) := ingestSyncedMessage maxlen (s.wait call.delay) call
    (t, [⟨call, result, received⟩])

end AgentHub.Sync
