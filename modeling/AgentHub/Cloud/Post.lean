import AgentHub.Cloud.Worker
import AgentHub.Validation

/-!
# Direct posts to the Worker

`POST /messages`: the shared validator, the schema of the topic with its fitting of the body, and
the fields the caller's token decides.  A token that an agent holds speaks for that agent only; the
tokens of hubs and operators vouch for others.
-/

namespace AgentHub.Cloud

open AgentHub.Json AgentHub.Validation BusLog

/-! ### Identities -/

inductive Role where
  | agent
  | hub
  | operator
  deriving DecidableEq, Repr

/-- What a bearer token stands for.  An entry of the token map without an agent, or of a hub without
its name, is not accepted. -/
structure Identity where
  agent : String
  host : Option String
  role : Role
  hub : Option String
  agent_ne : agent ≠ ""
  host_ne : host ≠ some ""
  hub_iff : role = .hub ↔ hub.isSome
  hub_ne : hub ≠ some ""

/-- A name that is not given is not an empty name. -/
theorem unnamed : (none : Option String) ≠ some "" := nofun

theorem agent_hub_iff : Role.agent = .hub ↔ (none : Option String).isSome := by decide

def bindAgent (identity : Identity) (requested fieldName : String) : Checked String :=
  let trimmed := Js.trim requested
  if identity.role = .agent then do
    require (trimmed.isEmpty || trimmed = identity.agent)
      (s!"{fieldName} '{trimmed}' does not match the bearer token's identity " ++
        s!"'{identity.agent}'")
    return identity.agent
  else do
    require (!trimmed.isEmpty) s!"{fieldName} must not be empty"
    return trimmed

/-- An agent whose token names no host has none, whatever it sends. -/
def bindOriginHost (identity : Identity) (requested : Option String) : Checked (Option String) :=
  match identity.role, identity.host with
  | .agent, none => .ok none
  | .agent, some host => do
    let sent := requested.getD ""
    require (sent.isEmpty || sent = host)
      s!"origin_host '{sent}' does not match the bearer token's host '{host}'"
    return some host
  | _, _ => .ok requested

def bindOriginHubForDirectWrite (identity : Identity) (requested : Option String)
    (cloudIdentity : String) : Checked String :=
  let sent := requested.getD ""
  match identity.hub with
  | some hub => do
    require (sent.isEmpty || sent = hub)
      s!"origin_hub '{sent}' does not match the bearer token's hub '{hub}'"
    return hub
  | none => do
    require (sent.isEmpty || sent = cloudIdentity)
      "origin_hub may only be asserted by a hub-role token"
    return cloudIdentity

/-! ### Schemas -/

/-- The lower case of a character, as far as a comparison with an ASCII word can tell. -/
def lowerChar (c : Char) : List Char :=
  match c.toNat with
  | 0x130 => ['i', Char.ofNat 0x307]
  | 0x212A => ['k']
  | _ => [c.toLower]

/-- `String.prototype.toLowerCase`, read by comparisons with ASCII words only. -/
def toLowerCase (s : String) : String := String.ofList (s.toList.flatMap lowerChar)

/-- The schema in force: an explicit name that is known, else that of the topic. -/
def enforceSchemaForTransport (explicitSchema : Option Value) (topic : String) : MessageSchema :=
  match explicitSchema with
  | some (.str "finding") => .finding
  | some (.str "status") => .status
  | some (.str "benchmark") => .benchmark
  | _ => (topicSchema (toLowerCase topic)).getD .status

def autoFitSchema (body : String) (schema : MessageSchema) : String :=
  Validation.autoFitSchema body (some schema)

def validateMessageSchema (body : String) : MessageSchema → Checked Unit
  | .finding => do
    require (Text.contains body "FINDING:" || Text.contains body "FIX" ||
        Text.contains body "TAGGED:" || Text.contains body "COMPLETE")
      "Schema 'finding' requires FINDING:, FIX, TAGGED:, or COMPLETE in body"
    require (!Text.contains body "FINDING:" || Text.contains body "SEVERITY:")
      "Schema 'finding' requires SEVERITY: when FINDING: is present"
  | .status =>
    require (!(Js.trim body).isEmpty) "Schema 'status' requires non-empty body"
  | .benchmark =>
    require (Text.contains body "=") "Schema 'benchmark' requires key=value metrics in body"

/-! ### The route -/

def buildValidatedMessage (req : Value) (identity : Identity) (cloudIdentity : String)
    (moment : Moment) : Checked InsertMessageInput := do
  let core ← validateMessageCore req
  let schema := enforceSchemaForTransport (req.field? "schema") core.topic
  let fittedBody := autoFitSchema core.body schema
  validateMessageSchema fittedBody schema
  -- the fitted body is screened again
  assertNoPhi [some fittedBody]
  let sender ← bindAgent identity core.sender "sender"
  let cappedOriginHost ←
    validateOptionalString (req.field? "origin_host") "origin_host" maxOriginHostLen
  let cappedOriginHub ← validateOptionalString (req.field? "origin_hub") "origin_hub" maxOriginHubLen
  let originHost ← bindOriginHost identity cappedOriginHost
  let originHub ← bindOriginHubForDirectWrite identity cappedOriginHub cloudIdentity
  return {
    id := moment.uuidv7 0
    timestampUtc := formatTimestampUtc moment.now
    protocolVersion
    fromAgent := sender
    toAgent := core.recipient
    topic := core.topic
    body := fittedBody
    threadId := core.threadId
    tags := core.tags
    priority := core.priority
    requestAck := Js.truthy (req.field? "request_ack")
    replyTo := core.replyTo
    metadata := core.metadata
    clientMsgId := core.clientMsgId
    originHost := originHost.filter fun host => !host.isEmpty
    originSeq := none
    originHub := some originHub
    hlc := core.hlc
    sensitivity := none }

/-- `POST /messages`: the log after it, and the row that is new in it. -/
def postMessages (worker : Worker) (cloudIdentity : String) (log : BusLog) (identity : Identity)
    (body : Value) (moment : Moment) : BusLog × Option Row :=
  match buildValidatedMessage body identity cloudIdentity moment with
  | .error _ => (log, none)
  | .ok input =>
    match input.originHub.filter fun hub => !hub.isEmpty with
    | none => (log, none)
    | some originHub =>
      match insertMessage worker.choose log input.toMessageFields originHub moment.storedAt
          (moment.fault 0) with
      | .inserted log row => (log, some row)
      | .existing _ _ | .failed _ => (log, none)

end AgentHub.Cloud
