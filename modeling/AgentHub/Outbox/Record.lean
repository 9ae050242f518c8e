import AgentHub.Outbox.Request

/-!
# Journal records

A journal is a file of lines, each the JSON of one `Event` with the digest of that event.  The
digest is taken over the event as its structure is written (`serialize`), while the line itself is
built with the `json!` macro, whose maps are ordered by key (`toValue`).

`decodeLine` is what a reader does with one line before the event is applied.
-/

namespace AgentHub.Outbox

open AgentHub.Json AgentHub.Validation

/-- Terminal evidence about a request; none of these means an offline grant. -/
inductive Disposition where
  | applied
  | expired
  | superseded
  | rejected
  deriving DecidableEq, Repr

def Disposition.asStr : Disposition → String
  | .applied => "applied"
  | .expired => "expired"
  | .superseded => "superseded"
  | .rejected => "rejected"

inductive Event where
  | header (originId : Uuid) (destination : String)
  | queued (request : ReplayRequest)
  | attempted (requestId : Uuid)
  | settled (requestId : Uuid) (disposition : Disposition)
  deriving DecidableEq

/-! ### Writing -/

/-- A request with its fields ordered by name. -/
def ReplayRequest.toValue (r : ReplayRequest) : Value :=
  .obj
    [("arguments", .obj r.arguments),
     ("created_ms", .int r.createdMs.toNat),
     ("expires_ms", .int r.expiresMs.toNat),
     ("operation", .str r.operation.asStr),
     ("origin_id", .str r.originId.toString),
     ("request_id", .str r.requestId.toString),
     ("sequence", .int r.sequence.toNat),
     ("surface", .str r.surface.asStr)]

namespace Event

/-- The event as its structure is written: the tag first. -/
def serialize : Event → Value
  | .header originId destination =>
    .obj [("event", .str "header"), ("origin_id", .str originId.toString),
      ("destination", .str destination)]
  | .queued request => .obj [("event", .str "queued"), ("request", request.serialize)]
  | .attempted requestId =>
    .obj [("event", .str "attempted"), ("request_id", .str requestId.toString)]
  | .settled requestId disposition =>
    .obj [("event", .str "settled"), ("request_id", .str requestId.toString),
      ("disposition", .str disposition.asStr)]

/-- The event as `json!` holds it: the fields ordered by name. -/
def toValue : Event → Value
  | .header originId destination =>
    .obj [("destination", .str destination), ("event", .str "header"),
      ("origin_id", .str originId.toString)]
  | .queued request => .obj [("event", .str "queued"), ("request", request.toValue)]
  | .attempted requestId =>
    .obj [("event", .str "attempted"), ("request_id", .str requestId.toString)]
  | .settled requestId disposition =>
    .obj [("disposition", .str disposition.asStr), ("event", .str "settled"),
      ("request_id", .str requestId.toString)]

end Event

/-- `json!({"event": event, "sha256": sha256})`. -/
def recordValue (event : Event) (sha256 : String) : Value :=
  .obj [("event", event.toValue), ("sha256", .str sha256)]

/-- A SHA-256 digest. -/
structure Digest where
  bytes : List UInt8
  length_eq : bytes.length = 32

/-- The digest in lower-case hexadecimal digits. -/
def Digest.hex (d : Digest) : String :=
  String.ofList (d.bytes.flatMap fun b => [Nat.digitChar (b.toNat / 16), Nat.digitChar (b.toNat % 16)])

/-- The length of a record's line with its newline.  A digest has 64 characters whatever they
are. -/
def recordLen (event : Event) : Nat :=
  encodedLen (recordValue event (String.ofList (List.replicate 64 '0'))) + 1

section Line

-- SHA-256 comes from a library; nothing below depends on more than its being a function.
variable (sha256 : List UInt8 → Digest)

/-- `digest_hex`. -/
def digestHex (bytes : List UInt8) : String := (sha256 bytes).hex

/-- The bytes `append` writes for an event. -/
def encodeLine (event : Event) : List UInt8 :=
  toVec (recordValue event (digestHex sha256 (toVec event.serialize))) ++ [10]

/-! ### Reading -/

/-- The value of a field, where an object has exactly the expected number of fields: with the
lookup of every expected name this is `deny_unknown_fields` and no field twice. -/
def fieldsOf (count : Nat) : Value → Option Fields
  | .obj fields => if fields.length = count then some fields else none
  | _ => none

def readUuid (m : Fields) (key : String) : Option Uuid :=
  ((m.get key).bind Value.asStr).bind Uuid.parse

def readU64 (m : Fields) (key : String) : Option UInt64 :=
  ((m.get key).bind Value.asU64).map UInt64.ofNat

def readText (m : Fields) (key : String) : Option String := (m.get key).bind Value.asStr

def readObject (m : Fields) (key : String) : Option Fields :=
  match m.get key with
  | some (.obj fields) => some fields
  | _ => none

def Operation.ofStr (s : String) : Option Operation :=
  if s = "send" then some .send
  else if s = "presence" then some .presence
  else if s = "ack" then some .ack
  else if s = "claim_request" then some .claimRequest
  else none

def ClientSurface.ofStr (s : String) : Option ClientSurface :=
  if s = "cli" then some .cli else if s = "mcp" then some .mcp else none

def Disposition.ofStr (s : String) : Option Disposition :=
  if s = "applied" then some .applied
  else if s = "expired" then some .expired
  else if s = "superseded" then some .superseded
  else if s = "rejected" then some .rejected
  else none

def ReplayRequest.ofValue (v : Value) : Option ReplayRequest := do
  let m ← fieldsOf 8 v
  return {
    requestId := ← readUuid m "request_id"
    originId := ← readUuid m "origin_id"
    sequence := ← readU64 m "sequence"
    createdMs := ← readU64 m "created_ms"
    expiresMs := ← readU64 m "expires_ms"
    operation := ← (readText m "operation").bind Operation.ofStr
    surface := ← (readText m "surface").bind ClientSurface.ofStr
    arguments := ← readObject m "arguments" }

def Event.ofValue (v : Value) : Option Event :=
  match v with
  | .obj fields => do
    let tag ← readText fields "event"
    if tag = "header" then do
      let m ← fieldsOf 3 v
      return .header (← readUuid m "origin_id") (← readText m "destination")
    else if tag = "queued" then do
      let m ← fieldsOf 2 v
      return .queued (← (m.get "request").bind ReplayRequest.ofValue)
    else if tag = "attempted" then do
      let m ← fieldsOf 2 v
      return .attempted (← readUuid m "request_id")
    else if tag = "settled" then do
      let m ← fieldsOf 3 v
      return .settled (← readUuid m "request_id")
        (← (readText m "disposition").bind Disposition.ofStr)
    else none
  | _ => none

/-- A `Record` of the parsed line. -/
def readRecord (v : Value) : Option (Event × String) := do
  let m ← fieldsOf 2 v
  return (← (m.get "event").bind Event.ofValue, ← readText m "sha256")

/-- One line of the file, without its newline: its size, its JSON and its digest. -/
def decodeLine (line : List UInt8) : Except OutboxError Event :=
  if line = [] then .error .corrupt
  else if line.length > recordLimit then .error .corrupt
  else match fromSlice line with
    | .error _ => .error .corrupt
    | .ok v => match readRecord v with
      | none => .error .corrupt
      | some (event, digest) =>
        if digest ≠ digestHex sha256 (toVec event.serialize) then .error .corrupt else .ok event

end Line

end AgentHub.Outbox
