import AgentHub.Framing
import AgentHub.Outbox.Record

/-!
# Identifiers of the history catalog

A source, a session, an event and an artifact each have an identifier that is the SHA-256 of a domain
name and of the parts of the record, every one behind its length.  The hasher is the bytes it was
given so far.
-/

namespace AgentHub.Catalog

open AgentHub.Json AgentHub.Outbox AgentHub.Framing

/-- `u64::to_be_bytes` of a length. -/
def lengthCode : LengthCode UInt8 := big 8 (Nat.succ_pos 7)

/-- `update_length_prefixed`. -/
def updateLengthPrefixed (hasher value : List UInt8) : List UInt8 :=
  (hasher ++ lengthCode.write value.length) ++ value

/-- What `deterministic_id` hashes. -/
def idBytes (domain : List UInt8) (components : List (List UInt8)) : List UInt8 :=
  components.foldl updateLengthPrefixed (updateLengthPrefixed [] domain)

/-- `str::as_bytes`. -/
def asBytes (s : String) : List UInt8 := utf8 s.toList

section Identifiers

variable (sha256 : List UInt8 → Digest)

def deterministicId (domain : List UInt8) (components : List (List UInt8)) : Digest :=
  sha256 (idBytes domain components)

/-! ### The parts of a record -/

def sourceDomain : List UInt8 := asBytes "agent-history/source/v1"

def sourceComponents (machineId provider sourceKind : String) (pathHash : Digest) :
    List (List UInt8) :=
  [asBytes machineId, asBytes provider, asBytes sourceKind, pathHash.bytes]

def sessionDomain : List UInt8 := asBytes "agent-history/session/v1"

def sessionComponents (sourceId : Digest) (providerSessionId parserVersion policyVersion : String) :
    List (List UInt8) :=
  [sourceId.bytes, asBytes providerSessionId, asBytes parserVersion, asBytes policyVersion]

def eventDomain : List UInt8 := asBytes "agent-history/event/v1"

def eventComponents (sessionId : Digest) (providerEventId : String) : List (List UInt8) :=
  [sessionId.bytes, asBytes providerEventId]

def artifactDomain : List UInt8 := asBytes "agent-history/artifact/v1"

/-- An optional part: a byte that says whether it is there, and its bytes. -/
def presence : Option (List UInt8) → List UInt8 × List UInt8
  | some value => ([1], value)
  | none => ([0], [])

def artifactComponents (sessionId : Option Digest) (kind : String) (locatorRedacted : Option String)
    (sha256 : Digest) (policyVersion : String) : List (List UInt8) :=
  let session := presence (sessionId.map Digest.bytes)
  let locator := presence (locatorRedacted.map asBytes)
  [session.1, session.2, asBytes kind, locator.1, locator.2, sha256.bytes, asBytes policyVersion]

/-! ### The four identifiers -/

def deterministicSourceId (machineId provider sourceKind : String) (pathHash : Digest) : Digest :=
  deterministicId sha256 sourceDomain (sourceComponents machineId provider sourceKind pathHash)

def deterministicSessionId (sourceId : Digest)
    (providerSessionId parserVersion policyVersion : String) : Digest :=
  deterministicId sha256 sessionDomain
    (sessionComponents sourceId providerSessionId parserVersion policyVersion)

def deterministicEventId (sessionId : Digest) (providerEventId : String) : Digest :=
  deterministicId sha256 eventDomain (eventComponents sessionId providerEventId)

def deterministicArtifactId (sessionId : Option Digest) (kind : String)
    (locatorRedacted : Option String) (artifactSha256 : Digest) (policyVersion : String) : Digest :=
  deterministicId sha256 artifactDomain
    (artifactComponents sessionId kind locatorRedacted artifactSha256 policyVersion)

/-- A call of one of the four functions. -/
inductive IdCall where
  | source (machineId provider sourceKind : String) (pathHash : Digest)
  | session (sourceId : Digest) (providerSessionId parserVersion policyVersion : String)
  | event (sessionId : Digest) (providerEventId : String)
  | artifact (sessionId : Option Digest) (kind : String) (locatorRedacted : Option String)
      (sha256 : Digest) (policyVersion : String)

namespace IdCall

def domain : IdCall → List UInt8
  | .source .. => sourceDomain
  | .session .. => sessionDomain
  | .event .. => eventDomain
  | .artifact .. => artifactDomain

def components : IdCall → List (List UInt8)
  | .source machineId provider sourceKind pathHash =>
    sourceComponents machineId provider sourceKind pathHash
  | .session sourceId providerSessionId parserVersion policyVersion =>
    sessionComponents sourceId providerSessionId parserVersion policyVersion
  | .event sessionId providerEventId => eventComponents sessionId providerEventId
  | .artifact sessionId kind locatorRedacted sha256 policyVersion =>
    artifactComponents sessionId kind locatorRedacted sha256 policyVersion

/-- The bytes that are hashed. -/
def bytes (call : IdCall) : List UInt8 := idBytes call.domain call.components

/-- The identifier that is returned. -/
def run : IdCall → Digest
  | .source machineId provider sourceKind pathHash =>
    deterministicSourceId sha256 machineId provider sourceKind pathHash
  | .session sourceId providerSessionId parserVersion policyVersion =>
    deterministicSessionId sha256 sourceId providerSessionId parserVersion policyVersion
  | .event sessionId providerEventId => deterministicEventId sha256 sessionId providerEventId
  | .artifact sessionId kind locatorRedacted artifactSha256 policyVersion =>
    deterministicArtifactId sha256 sessionId kind locatorRedacted artifactSha256 policyVersion

theorem run_eq (call : IdCall) : call.run sha256 = sha256 call.bytes := by
  cases call <;> rfl

end IdCall

end Identifiers

end AgentHub.Catalog
