import AgentHub.Cloud.Dates
import AgentHub.Hub.Accept

/-!
# Ownership claims

The pure part of the claim operations: the keys of a resource, the timestamps of a lease, which
claims conflict, and how long a hash of claims is kept.  Times are nanoseconds since the epoch.
-/

namespace AgentHub.Channels

open AgentHub.Text AgentHub.Validation AgentHub.Outbox AgentHub.Hub

/-- `serde_json::to_string` of a claim. -/
def claimText (claim : OwnershipClaim) : String := jsonText claim.value

/-- The library functions the claim operations call. -/
structure Library where
  /-- The nanoseconds of an RFC 3339 text. -/
  parseRfc3339 : String → Option Int
  /-- `str::to_lowercase`. -/
  toLowercase : String → String
  /-- `serde_json::from_str::<OwnershipClaim>`, which reads back what `to_string` writes. -/
  readClaim : String → Option OwnershipClaim
  readClaim_text : ∀ claim : OwnershipClaim, readClaim (claimText claim) = some claim

/-! ### Keys -/

def claimsPrefix : String := "bus:claims:"

/-- `claims_key`. -/
def claimsRedisKey (resource : String) : String := claimsPrefix ++ claimsKey resource

def claimResolutionKey (resourceKey : String) : String := resourceKey ++ ":resolution"

/-! ### Timestamps -/

def nanosPerSecond : Nat := 1000000000

/-- `%Y`: four digits, or a sign before more. -/
def yearDigits (year : Nat) : List Char :=
  if year ≤ 9999 then Cloud.padded 4 year else '+' :: Nat.toDigits 10 year

/-- `format_timestamp`: `%Y-%m-%dT%H:%M:%S%.6fZ`. -/
def formatTimestamp (t : Nat) : String :=
  let date := Cloud.civilFromDays (t / nanosPerSecond / 86400 : Nat)
  let second := t / nanosPerSecond % 86400
  String.ofList
    (yearDigits date.year.toNat ++ '-' :: (Cloud.padded 2 date.month ++ '-' ::
      (Cloud.padded 2 date.day ++ 'T' :: (Cloud.padded 2 (second / 3600) ++ ':' ::
      (Cloud.padded 2 (second / 60 % 60) ++ ':' :: (Cloud.padded 2 (second % 60) ++ '.' ::
      (Cloud.padded 6 (t / 1000 % 1000000) ++ ['Z'])))))))

/-- The first second the calendar of `chrono` does not reach. -/
def calendarEnd : Nat := 8210266876800

inductive ClaimError where
  | bus (error : AgentBusError)
  /-- The addition of a lifetime left the calendar. -/
  | panicked
  deriving DecidableEq

/-- `compute_expiry`. -/
def computeExpiry (now : Nat) (ttlSeconds : UInt64) : Except ClaimError String :=
  let expiry := now + max ttlSeconds.toNat 1 * nanosPerSecond
  if expiry < calendarEnd * nanosPerSecond then .ok (formatTimestamp expiry) else .error .panicked

def claimTtlSecs : Nat := 3600

/-! ### Claims -/

/-- The lease options of a claim. -/
structure ClaimOptions where
  mode : ResourceLeaseMode
  leaseNamespace : Option String
  scopeKind : Option String
  scopePath : Option String
  repoScopes : List String
  threadId : Option String
  leaseTtlSeconds : UInt64
  scope : Option ResourceScope

structure ArbitrationState where
  resource : String
  claims : List OwnershipClaim
  winner : Option String
  resolutionReason : Option String
  deriving DecidableEq

section Claims

variable (lib : Library)

/-- The time a claim expires at, where its text reads as one. -/
def expiry (claim : OwnershipClaim) : Option Int := claim.expiresAt.bind lib.parseRfc3339

def claimExpired (claim : OwnershipClaim) (now : Nat) : Bool :=
  (expiry lib claim).any fun expiry => decide (expiry ≤ (now : Int))

/-- The namespace of a lease, unless it is blank. -/
def namespaceOf (claim : OwnershipClaim) : Option String :=
  (claim.leaseNamespace.map trim).filter (· ≠ "")

def claimConflicts (left right : OwnershipClaim) : Bool :=
  match left.mode, right.mode with
  | .exclusive, _ | _, .exclusive => true
  | .shared, .shared | .sharedNamespaced, .shared | .shared, .sharedNamespaced => false
  | .sharedNamespaced, .sharedNamespaced =>
    match namespaceOf left, namespaceOf right with
    | some a, some b => a = b
    | _, _ => true

/-- A claim conflicts with one at another place of the list. -/
def conflicted (claims : List OwnershipClaim) (claim : OwnershipClaim) (idx : Nat) : Bool :=
  claims.zipIdx.any fun other => decide (idx ≠ other.2) && claimConflicts claim other.1

def recomputeClaimStatuses (claims : List OwnershipClaim) : List OwnershipClaim :=
  claims.zipIdx.map fun entry =>
    { entry.1 with
      status := if conflicted claims entry.1 entry.2 then .contested else .granted }

/-- `claims_hash_ttl_seconds`: the whole seconds the longest lease has left. -/
def claimsHashTtlSeconds (claims : List OwnershipClaim) (now : Nat) : Nat :=
  let left := (claims.filterMap (expiry lib)).filter fun expiry => decide ((now : Int) < expiry)
  ((left.map fun expiry => ((expiry - (now : Int)) / (nanosPerSecond : Int)).toNat).max?).getD 1

/-- `claims.sort_by`. -/
def sortClaims (claims : List OwnershipClaim) : List OwnershipClaim :=
  claims.mergeSort fun a b => decide (a.timestamp ≤ b.timestamp)

def validateClaimNulFields (claim : OwnershipClaim) : Except AgentBusError Unit := do
  rejectNulInFields
    [(claim.resource, "resource"), (claim.agent, "agent"),
     (claim.priorityArgument, "priority_argument"), (claim.timestamp, "timestamp")]
  rejectNulInFields (claim.leaseNamespace.toList.map (·, "namespace"))
  rejectNulInFields (claim.scopeKind.toList.map (·, "scope_kind"))
  rejectNulInFields (claim.scopePath.toList.map (·, "scope_path"))
  rejectNulInFields (claim.repoScopes.map (·, "repo_scope"))
  rejectNulInFields (claim.threadId.toList.map (·, "thread_id"))
  rejectNulInFields (claim.expiresAt.toList.map (·, "expires_at"))

/-! ### Scopes and suggestions -/

def machineGlobalResources : List String :=
  ["~/bin", "bin-install", "cargo-target", "target-dir", "port:8400", "port:8401",
   "agent-bus-service", "sccache", "rustup"]

def isMachineGlobalResource (resource : String) : Bool :=
  machineGlobalResources.any fun pattern => contains (lib.toLowercase resource) pattern

def effectiveScope (resource : String) (explicit : Option ResourceScope) : ResourceScope :=
  explicit.getD (if isMachineGlobalResource lib resource then .machine else .repo)

/-- A pattern, the suggested resource and the hint, each with the agent's name to be put in. -/
structure RerouteRule where
  pattern : String
  suggested : String → String
  hint : String → String

def rerouteRules : List RerouteRule :=
  [⟨"cargo-target", fun agent => s!"cargo-target:{agent}",
    fun agent => s!"use --target-dir T:\\RustCache\\cargo-target-{agent}"⟩,
   ⟨"target-dir", fun agent => s!"target-dir:{agent}",
    fun agent => s!"use --target-dir T:\\RustCache\\cargo-target-{agent}"⟩,
   ⟨"coverage-output", fun agent => s!"coverage-output:{agent}",
    fun agent => s!"use --output-dir coverage-{agent}"⟩,
   ⟨"coverage", fun agent => s!"coverage:{agent}",
    fun agent => s!"use --output-dir coverage-{agent}"⟩,
   ⟨"bench-output", fun agent => s!"bench-output:{agent}",
    fun agent => s!"write benchmark results to bench-output-{agent}/"⟩,
   ⟨"bin-install", fun agent => s!"bin-install:{agent}",
    fun agent => s!"install to ~/.local/bin-{agent}"⟩,
   ⟨"~/bin", fun agent => s!"bin-install:{agent}",
    fun agent => s!"install to ~/.local/bin-{agent}"⟩]

def suggestReroute (resource agent : String) (contestedBy : List String) :
    Option RerouteSuggestion :=
  if resource = "" ∨ agent = "" then none
  else
    let others := if contestedBy = [] then "another agent" else join ", " contestedBy
    let reason := s!"resource contested by {others}"
    match rerouteRules.find? fun rule => contains (lib.toLowercase resource) rule.pattern with
    | some rule => some ⟨resource, rule.suggested agent, rule.hint agent, reason⟩
    | none =>
      some
        ⟨resource, s!"{resource}:{agent}",
         s!"use namespaced resource '{resource}:{agent}' for isolation", reason⟩

end Claims

end AgentHub.Channels
