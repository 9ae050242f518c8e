import AgentHub.Framing
import AgentHub.Outbox.Record
import AgentHub.Routes.Candidates

/-!
# The key of the route cache

A route that was good is tried first again only with the same candidates, at the same locations and on
the same network.  The key of the cache is a hash of the candidates followed by the sorted names of
the locations, where they are known, and the fingerprint of the network.
-/

namespace AgentHub.Routes

open AgentHub.Json AgentHub.Outbox AgentHub.Framing

/-- `HubRole::as_str`. -/
def HubRole.asStr : HubRole → String
  | .authoritative => "authoritative"
  | .fallback => "fallback"
  | .cloud => "cloud"

/-- The fields of a credential source. -/
def CandidateAuth.fields : CandidateAuth → List String
  | .global => ["global"]
  | .tokenFile path => ["file", path]
  | .tokenEnv name => ["env", name]

/-- The fields of one candidate.  A missing hub is an empty field. -/
def HubCandidate.fields (c : HubCandidate) : List String :=
  c.url :: c.role.asStr :: (c.auth.fields ++ "sites" :: (c.sites ++ [c.hub.getD ""]))

def fingerprintFields (candidates : List HubCandidate) : List String :=
  "agent-bus-hub-candidates-v1" :: candidates.flatMap HubCandidate.fields

/-- `field`: the length in eight bytes, then the text. -/
def fieldCode : LengthCode UInt8 := little 8 (by decide)

/-- The bytes `candidates_fingerprint` hashes. -/
def fingerprintBytes (candidates : List HubCandidate) : List UInt8 :=
  fieldCode.frame ((fingerprintFields candidates).map fun field => utf8 field.toList)

section Key

variable (sha256 : List UInt8 → Digest)

/-- `candidates_fingerprint`. -/
def candidatesFingerprint (candidates : List HubCandidate) : String :=
  digestHex sha256 (fingerprintBytes candidates)

/-- `routing_fingerprint`. -/
def routingFingerprint (candidates : List HubCandidate) (locations : Option (List String))
    (network : String) : String :=
  let base := candidatesFingerprint sha256 candidates
  let located := match locations with
    | none => base
    | some names => base ++ "@" ++ Text.join "," (Text.sorted names)
  located ++ "#" ++ network

end Key

end AgentHub.Routes
