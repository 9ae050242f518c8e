import AgentHub.Json.Text
import AgentHub.ToolSchema

/-!
# Durable client requests

`ReplayRequest` is the immutable envelope a client retains and replays: its identity, its place in
the journal, its lifetime and the tool call it stands for.  `validate` is the gate every writer and
every reader of a journal applies to it, and the hub again on arrival.
-/

namespace AgentHub.Outbox

open AgentHub.Json AgentHub.Text AgentHub.Validation AgentHub.ToolSchema

/-! ### Identifiers -/

/-- A UUID, as the 32 hexadecimal digits of its 16 bytes. -/
structure Uuid where
  nibbles : List (Fin 16)
  length_eq : nibbles.length = 32
  deriving DecidableEq

namespace Uuid

def hexChar (d : Fin 16) : Char := Nat.digitChar d

/-- The lower-case hyphenated form. -/
def toChars (u : Uuid) : List Char :=
  let ds := u.nibbles.map hexChar
  ds.take 8 ++ '-' :: ((ds.drop 8).take 4 ++ '-' :: ((ds.drop 12).take 4 ++
    '-' :: ((ds.drop 16).take 4 ++ '-' :: ds.drop 20)))

def toString (u : Uuid) : String := String.ofList u.toChars

def hexNibble (c : Char) : Option (Fin 16) := (hexValue c).map (Fin.ofNat 16)

/-- `Uuid::parse_str` on the forms with and without hyphens; the forms with a `urn:uuid:` lead or
in braces are never written by a journal. -/
def parse (s : String) : Option Uuid :=
  let cs := s.toList
  let hyphenated := cs.length == 36 && cs[8]? == some '-' && cs[13]? == some '-' &&
    cs[18]? == some '-' && cs[23]? == some '-'
  let digits :=
    if hyphenated then
      cs.take 8 ++ (cs.drop 9).take 4 ++ (cs.drop 14).take 4 ++ (cs.drop 19).take 4 ++ cs.drop 24
    else cs
  match digits.mapM hexNibble with
  | none => none
  | some nibbles => if h : nibbles.length = 32 then some ⟨nibbles, h⟩ else none

/-- The UUID whose last digits are those of a small number. -/
def ofNat (n : Nat) : Uuid :=
  ⟨(List.range 32).map fun i => Fin.ofNat 16 (n / 16 ^ (31 - i)), by simp⟩

end Uuid

/-! ### Requests -/

/-- The client surface a request was made on. -/
inductive ClientSurface where
  | cli
  | mcp
  deriving DecidableEq, Repr

def ClientSurface.asStr : ClientSurface → String
  | .cli => "cli"
  | .mcp => "mcp"

/-- The operations whose requests can be retained offline. -/
inductive Operation where
  | send
  | presence
  | ack
  | claimRequest
  deriving DecidableEq, Repr

def Operation.toolName : Operation → String
  | .send => "post_message"
  | .presence => "set_presence"
  | .ack => "ack_message"
  | .claimRequest => "claim_resource"

/-- The name an operation is serialized under. -/
def Operation.asStr : Operation → String
  | .send => "send"
  | .presence => "presence"
  | .ack => "ack"
  | .claimRequest => "claim_request"

/-- Whether the requests of an operation age. -/
def Operation.ages : Operation → Bool
  | .send | .ack => false
  | .presence | .claimRequest => true

structure ReplayRequest where
  requestId : Uuid
  /-- The journal's own random identity. -/
  originId : Uuid
  sequence : UInt64
  createdMs : UInt64
  /-- Absolute expiry; zero for a message or an acknowledgement, which do not age. -/
  expiresMs : UInt64
  operation : Operation
  surface : ClientSurface
  arguments : Fields
  deriving DecidableEq

inductive OutboxError where
  | io
  | json
  | corrupt
  | scopeChanged
  | invalidRequest
  | capacity
  | custody
  | busy
  deriving DecidableEq, Repr

def journalLimit : Nat := 32 * 1024 * 1024

def requestLimit : Nat := 1000

def recordLimit : Nat := maxBodyLen + 16384

/-- Drop the text of a validation error. -/
def sanitize {α : Type} : Except AgentBusError α → Except OutboxError α
  | .ok a => .ok a
  | .error _ => .error .invalidRequest

inductive ResourceLeaseMode where
  | shared
  | sharedNamespaced
  | exclusive
  deriving DecidableEq, Repr

def parseLeaseMode (mode : String) : Except AgentBusError ResourceLeaseMode :=
  if mode = "shared" then .ok .shared
  else if mode = "shared_namespaced" then .ok .sharedNamespaced
  else if mode = "exclusive" then .ok .exclusive
  else .error (.invalidParams
    s!"invalid lease mode '{mode}'; expected shared|shared_namespaced|exclusive")

inductive ResourceScope where
  | repo
  | machine
  deriving DecidableEq, Repr

def parseResourceScope (scope : String) : Except AgentBusError ResourceScope :=
  if scope = "repo" then .ok .repo
  else if scope = "machine" then .ok .machine
  else .error (.invalidParams s!"invalid scope '{scope}'; expected repo|machine")

namespace ReplayRequest

/-- The request as `serde_json::to_vec` writes it: the fields in the order of the structure. -/
def serialize (r : ReplayRequest) : Value :=
  .obj
    [("request_id", .str r.requestId.toString),
     ("origin_id", .str r.originId.toString),
     ("sequence", .int r.sequence.toNat),
     ("created_ms", .int r.createdMs.toNat),
     ("expires_ms", .int r.expiresMs.toNat),
     ("operation", .str r.operation.asStr),
     ("surface", .str r.surface.asStr),
     ("arguments", .obj r.arguments)]

/-- The texts an operation cannot do without. -/
def requiredTexts : Operation → List String
  | .send => ["sender", "recipient", "topic", "body"]
  | .presence => ["agent"]
  | .ack => ["agent", "message_id"]
  | .claimRequest => ["agent", "resource"]

/-- A text argument, absent when it is missing or no string. -/
def textArg (args : Fields) (key : String) : Option String := (args.get key).bind Value.asStr

def checkRequiredText (args : Fields) (key : String) : Except OutboxError Unit :=
  match textArg args key with
  | none => .error .invalidRequest
  | some text => (sanitize (nonEmpty text key)).map fun _ => ()

def checkClaim (args : Fields) : Except OutboxError Unit := do
  let _ ← sanitize (parseLeaseMode ((textArg args "mode").getD "exclusive"))
  match textArg args "scope" with
  | some scope => (sanitize (parseResourceScope scope)).map fun _ => ()
  | none => return ()

def checkCapability (value : Value) : Except OutboxError Unit :=
  match value.asStr with
  | none => .error .invalidRequest
  | some text => sanitize (rejectNulBytes text "capability")

def checkPresence (args : Fields) : Except OutboxError Unit := do
  ["status", "session_id"].forM fun field =>
    match textArg args field with
    | some value => sanitize (rejectNulBytes value field)
    | none => return ()
  match (args.get "capabilities").bind Value.asArray with
  | some items => items.forM checkCapability
  | none => return ()

def checkSend (args : Fields) (surface : ClientSurface) : Except OutboxError Unit := do
  match textArg args "topic", textArg args "body" with
  | some topic, some body =>
    let resolved ← sanitize (resolveMessageSchema surface.asStr (textArg args "schema") topic)
    sanitize (validateMessageSchema (autoFitSchema body resolved) resolved)
  | _, _ => .error .invalidRequest

/-- Milliseconds a request lives by its own arguments. -/
def lifetimeMs (r : ReplayRequest) : Except OutboxError Nat :=
  let lifetime (field : String) (default : Nat) : Except OutboxError Nat := do
    let ttl ← match r.arguments.get field with
      | some value => match value.asU64 with
        | some ttl => .ok ttl
        | none => .error .invalidRequest
      | none => .ok default
    if 1 ≤ ttl ∧ ttl ≤ 86400 then return ttl * 1000 else .error .invalidRequest
  match r.operation with
  | .presence => lifetime "ttl_seconds" 180
  | .claimRequest => lifetime "lease_ttl_seconds" 3600
  | .send | .ack => .ok 0


/-- The sequence is positive, and the expiry is set exactly for the operations that age. -/
def timesPlausible (r : ReplayRequest) : Bool :=
  r.sequence ≠ 0 &&
    (if r.operation.ages then r.createdMs < r.expiresMs else r.expiresMs = 0)

def checkLifetime (r : ReplayRequest) : Except OutboxError Unit :=
  if r.operation.ages then do
    if r.expiresMs.toNat - r.createdMs.toNat ≠ (← r.lifetimeMs) then .error .invalidRequest
  else return ()

/-- Refuse unsupported shapes and semantics before any durable write. -/
def validate (r : ReplayRequest) : Except OutboxError Unit := do
  sanitize (validateToolArguments r.operation.toolName r.arguments)
  if !r.timesPlausible then .error .invalidRequest
  (requiredTexts r.operation).forM (checkRequiredText r.arguments)
  if r.operation = .claimRequest then checkClaim r.arguments
  if r.operation = .presence then checkPresence r.arguments
  if r.operation = .send then checkSend r.arguments r.surface
  r.checkLifetime
  if encodedLen r.serialize > recordLimit then .error .capacity

end ReplayRequest

end AgentHub.Outbox
