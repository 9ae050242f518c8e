import AgentHub.Channels.Claims
import AgentHub.Program
import AgentHub.Table

/-!
# The claim operations on Redis

Each operation is a program of Redis commands.  The store keeps the hashes under the keys of the
claims and of their resolutions; the escalations, direct messages and resource events an operation
sends on the side are calls without an effect on them.
-/

namespace AgentHub.Channels

open AgentHub.Validation AgentHub.Outbox AgentHub.Hub Program

/-! ### Commands -/

/-- A message an operation sends without waiting for what becomes of it. -/
inductive Notice where
  | escalation (sender body tag : String)
  | arbitrationResult (sender recipient body tag : String)
  | resourceEvent (eventType agent resource : String)

inductive RedisCall where
  /-- `Utc::now()`. -/
  | now
  | hgetall (key : String)
  | hget (key field : String)
  | hset (key : String) (fields : List (String × String))
  | hdel (key : String) (fields : List String)
  | del (key : String)
  | expire (key : String) (seconds : Nat)
  /-- `EXPIRE` with `claims_hash_ttl_seconds` of these claims. -/
  | expireClaims (key : String) (claims : List OwnershipClaim) (now : Nat)
  /-- The whole `SCAN` loop over the keys of claims. -/
  | scan
  | notify (notice : Notice)

abbrev RedisCall.Reply : RedisCall → Type
  | .now => Nat
  | .hgetall _ => List (String × String)
  | .hget _ _ => Option String
  | .scan => List String
  | .hset _ _ | .hdel _ _ | .del _ | .expire _ _ | .expireClaims _ _ _ | .notify _ => Unit

/-! ### Store -/

/-- The fields of a hash. -/
abbrev Hash := Table (String × String) String Prod.fst

/-- Deadlines are milliseconds. -/
structure Store where
  hashes : String → Option (Expiring Hash) := fun _ => none
  clock : Nat := 0

/-- The surroundings of a command: the time that passes before it, and the keys `SCAN` comes by. -/
structure CallEnv where
  delay : Nat
  scanned : List String

namespace Store

def wait (s : Store) (delay : Nat) : Store := { s with clock := s.clock + delay }

def nowMs (s : Store) : Nat := s.clock / 1000000

/-- The hash a command finds under a key. -/
def visible (s : Store) (key : String) : Option Hash := readKey (s.hashes key) s.nowMs

def setKey (s : Store) (key : String) (slot : Option (Expiring Hash)) : Store :=
  { s with hashes := Function.update s.hashes key slot }

/-- The deadline of a key that is there. -/
def deadline (s : Store) (key : String) : Option Nat := (s.hashes key).bind Expiring.deadline

def hset (s : Store) (key : String) (fields : List (String × String)) : Store :=
  match s.visible key with
  | some h =>
    s.setKey key (some ⟨fields.foldl Table.put h, s.deadline key⟩)
  | none => s.setKey key (some ⟨fields.foldl Table.put Table.empty, none⟩)

/-- A hash without fields is no longer there. -/
def hdel (s : Store) (key : String) (fields : List String) : Store :=
  match s.visible key with
  | some h =>
    let rest := fields.foldl Table.delete h
    s.setKey key (if rest.rows = [] then none else some ⟨rest, s.deadline key⟩)
  | none => s

def del (s : Store) (key : String) : Store := s.setKey key none

/-- No time at all deletes the key. -/
def expire (s : Store) (key : String) (seconds : Nat) : Store :=
  match s.visible key with
  | some h =>
    s.setKey key (if seconds = 0 then none else some ⟨h, some (s.nowMs + seconds * 1000)⟩)
  | none => s

/-- One command, after the time before it has passed. -/
def execute (lib : Library) (s : Store) (scanned : List String) :
    (c : RedisCall) → Store × c.Reply
  | .now => (s, s.clock)
  | .hgetall key => (s, ((s.visible key).map Table.rows).getD [])
  | .hget key field => (s, (s.visible key).bind fun h => (h.get? field).map Prod.snd)
  | .hset key fields => (s.hset key fields, ())
  | .hdel key fields => (s.hdel key fields, ())
  | .del key => (s.del key, ())
  | .expire key seconds => (s.expire key seconds, ())
  | .expireClaims key claims now => (s.expire key (claimsHashTtlSeconds lib claims now), ())
  | .scan => (s, scanned.filter fun key => Text.startsWith key claimsPrefix)
  | .notify _ => (s, ())

/-- The server answers every command. -/
def serve (lib : Library) (c : RedisCall) (env : CallEnv) (s : Store) : Store × Option c.Reply :=
  let served := (s.wait env.delay).execute lib env.scanned c
  (served.1, some served.2)

end Store

/-! ### Operations -/

abbrev Claiming (α : Type) := Program RedisCall RedisCall.Reply ClaimError α

abbrev command (c : RedisCall) : Claiming c.Reply := perform c

/-- A check of the arguments. -/
def checked {α : Type} (result : Except AgentBusError α) : Claiming α :=
  check (result.mapError .bus)

def invalid {α : Type} (message : String) : Claiming α := fail (.bus (.invalidParams message))

/-- Delete the claims of a resource and its resolution. -/
def delClaims (key : String) : Claiming Unit := do
  command (.del key)
  command (.del (claimResolutionKey key))

/-- The loop of `persist_claims`. -/
def writeClaims (key : String) : List OwnershipClaim → Claiming Unit
  | [] => done ()
  | claim :: claims => do
    checked (validateClaimNulFields claim)
    command (.hset key [(claim.agent, claimText claim)])
    writeClaims key claims

def persistClaims (key : String) (claims : List OwnershipClaim) (now : Nat) : Claiming Unit := do
  checked (rejectNulBytes key "claim_key")
  if claims = [] then delClaims key
  else
    command (.del key)
    writeClaims key claims
    command (.expireClaims key claims now)

section Operations

variable (lib : Library)

/-- The entries of a hash that read as claims. -/
def readEntries (all : List (String × String)) : List (String × OwnershipClaim) :=
  all.filterMap fun entry => (lib.readClaim entry.2).map (entry.1, ·)

def activeClaims (all : List (String × String)) (now : Nat) : List OwnershipClaim :=
  ((readEntries lib all).filter fun entry => !claimExpired lib entry.2 now).map Prod.snd

def expiredAgents (all : List (String × String)) (now : Nat) : List String :=
  ((readEntries lib all).filter fun entry => claimExpired lib entry.2 now).map Prod.fst

def hdelExpired (key : String) (agents : List String) : Claiming Unit :=
  if agents = [] then done () else command (.hdel key agents)

/-- What `load_active_claims` does with the claims that are left. -/
def refreshClaims (key : String) (active : List OwnershipClaim) (now : Nat) :
    Claiming (List OwnershipClaim) :=
  if active = [] then do
    delClaims key
    return []
  else do
    let claims := sortClaims active
    command (.expireClaims key claims now)
    return claims

def loadActiveClaims (key : String) : Claiming (List OwnershipClaim) := do
  let now ← command .now
  let all ← command (.hgetall key)
  if all = [] then return []
  else
    hdelExpired key (expiredAgents lib all now)
    refreshClaims key (activeClaims lib all now) now

def modeDebug : ResourceLeaseMode → String
  | .shared => "Shared"
  | .sharedNamespaced => "SharedNamespaced"
  | .exclusive => "Exclusive"

/-- The arguments of a claim. -/
def checkClaim (resource agent : String) (options : ClaimOptions) : Except AgentBusError Unit :=
  if resource = "" then .error (.invalidParams "resource must not be empty")
  else if agent = "" then .error (.invalidParams "agent must not be empty")
  else if options.mode = .sharedNamespaced ∧
      (options.leaseNamespace.map Text.trim).getD "" = "" then
    .error (.invalidParams "shared_namespaced claims require --namespace")
  else .ok ()

/-- The claim of an agent as it is added to the others. -/
def newClaim (resource agent priorityArgument : String) (options : ClaimOptions) (now : Nat)
    (expiresAt : String) : OwnershipClaim where
  resource
  agent
  priorityArgument
  timestamp := formatTimestamp now
  status := .pending
  mode := options.mode
  leaseNamespace := options.leaseNamespace
  scopeKind := options.scopeKind
  scopePath := options.scopePath
  repoScopes := options.repoScopes
  threadId := options.threadId
  leaseTtlSeconds := max options.leaseTtlSeconds 1
  expiresAt := some expiresAt
  scope := effectiveScope lib resource options.scope
  rerouteSuggestion := none

/-- The escalation of a contested claim. -/
def escalate (resource agent priorityArgument : String) (claim : OwnershipClaim)
    (others : List String) : Claiming Unit :=
  let mode := modeDebug claim.mode
  let names := Text.join ", " others
  if claim.status = .contested ∧ others ≠ [] then
    command (.notify (.escalation agent
      (s!"CLAIM CONTESTED: {resource}\nClaimant: {agent}\nArgument: {priorityArgument}\n" ++
        s!"Mode: {mode}\nOther claimants: {names}\n" ++
        s!"Use 'agent-bus resolve {resource} --winner <agent>' to resolve.")
      s!"arbitration:{resource}"))
  else done ()

/-- What a claim sends on the side. -/
def claimNotices (resource agent priorityArgument : String) (claim : OwnershipClaim)
    (others : List String) : Claiming Unit := do
  escalate resource agent priorityArgument claim others
  command (.notify (.resourceEvent
    (if claim.status = .contested then "contested" else "claimed") agent resource))

def claimResourceWithOptions (resource agent priorityArgument : String) (options : ClaimOptions) :
    Claiming OwnershipClaim := do
  checked (checkClaim resource agent options)
  let key := claimsRedisKey resource
  let now ← command .now
  let expiresAt ← check (computeExpiry now options.leaseTtlSeconds)
  let loaded ← loadActiveClaims lib key
  let claims := recomputeClaimStatuses
    (loaded.filter (fun claim => claim.agent ≠ agent) ++
      [newClaim lib resource agent priorityArgument options now expiresAt])
  persistClaims key claims now
  match claims.find? fun claim => claim.agent = agent with
  | none => fail (.bus (.internal "claimed resource not found after persist"))
  | some claim =>
    let others := (claims.filter fun claim => claim.agent ≠ agent).map OwnershipClaim.agent
    let claim :=
      if claim.status = .contested then
        { claim with rerouteSuggestion := suggestReroute lib resource agent others }
      else claim
    claimNotices resource agent priorityArgument claim others
    return claim

/-- The claims under each key in turn. -/
def loadAll (wanted : OwnershipClaim → Bool) : List String → Claiming (List OwnershipClaim)
  | [] => done []
  | key :: keys => do
    let claims ← loadActiveClaims lib key
    let rest ← loadAll wanted keys
    return claims.filter wanted ++ rest

def listClaims (resourceFilter : Option String) (statusFilter : Option ClaimStatus) :
    Claiming (List OwnershipClaim) := do
  let keys ← command .scan
  let claims ← loadAll lib
    (fun claim => resourceFilter.all (· = claim.resource) && statusFilter.all (· = claim.status))
    keys
  return sortClaims claims

def getArbitrationState (resource : String) : Claiming ArbitrationState := do
  let key := claimsRedisKey resource
  let claims ← loadActiveClaims lib key
  let winner ← command (.hget (claimResolutionKey key) "winner")
  let resolutionReason ← command (.hget (claimResolutionKey key) "reason")
  return { resource, claims, winner, resolutionReason }

/-- What the participants of an arbitration are told. -/
def resolveNotices (resource winner reason resolvedBy : String) :
    List OwnershipClaim → Claiming Unit
  | [] => done ()
  | claim :: claims => do
    command (.notify (.arbitrationResult resolvedBy claim.agent
      (if claim.agent = winner then
        s!"You won the arbitration for '{resource}'.\nReason: {reason}\n" ++
          "You may proceed with first-edit."
      else
        s!"Arbitration for '{resource}' awarded to '{winner}'.\nReason: {reason}\n" ++
          "Your role: reviewer (first-edit assigned to winner).")
      s!"arbitration:{resource}"))
    resolveNotices resource winner reason resolvedBy claims

/-- The outcome of an arbitration. -/
def outcome (winner : String) (claim : OwnershipClaim) : OwnershipClaim :=
  { claim with status := if claim.agent = winner then .granted else .reviewAssigned }

def resolveClaim (resource winner reason resolvedBy : String) : Claiming ArbitrationState := do
  let key := claimsRedisKey resource
  let loaded ← loadActiveClaims lib key
  if loaded = [] then invalid s!"no claims found for resource '{resource}'"
  else
    let now ← command .now
    persistClaims key (loaded.map (outcome winner)) now
    let resolvedAt ← command .now
    command (.hset (claimResolutionKey key)
      [("winner", winner), ("reason", reason), ("resolved_by", resolvedBy),
       ("resolved_at", formatTimestamp resolvedAt)])
    command (.expire (claimResolutionKey key) claimTtlSecs)
    let state ← getArbitrationState lib resource
    resolveNotices resource winner reason resolvedBy state.claims
    command (.notify (.resourceEvent "resolved" winner resource))
    return state

/-- The first claim of an agent gives way to its renewal. -/
def renewFirst (renewed : OwnershipClaim) : List OwnershipClaim → List OwnershipClaim
  | [] => []
  | claim :: claims =>
    if claim.agent = renewed.agent then renewed :: claims else claim :: renewFirst renewed claims

def noActiveClaim : String := "no active claim found for agent on resource"

def renewClaim (resource agent : String) (leaseTtlSeconds : Option UInt64) :
    Claiming OwnershipClaim := do
  let key := claimsRedisKey resource
  let loaded ← loadActiveClaims lib key
  let now ← command .now
  let ttl := max (leaseTtlSeconds.getD (UInt64.ofNat claimTtlSecs)) 1
  match loaded.find? fun claim => claim.agent = agent with
  | none => invalid noActiveClaim
  | some claim =>
    let expiresAt ← check (computeExpiry now ttl)
    let renewed : OwnershipClaim :=
      { claim with
        leaseTtlSeconds := ttl
        timestamp := formatTimestamp now
        expiresAt := some expiresAt }
    let claims := recomputeClaimStatuses (renewFirst renewed loaded)
    persistClaims key claims now
    command (.notify (.resourceEvent "renewed" agent resource))
    return (claims.find? fun claim => claim.agent = agent).getD renewed

def releaseClaim (resource agent : String) : Claiming ArbitrationState := do
  let key := claimsRedisKey resource
  let loaded ← loadActiveClaims lib key
  let claims := loaded.filter fun claim => claim.agent ≠ agent
  if claims.length = loaded.length then invalid noActiveClaim
  else
    let now ← command .now
    persistClaims key (recomputeClaimStatuses claims) now
    command (.notify (.resourceEvent "released" agent resource))
    getArbitrationState lib resource

/-! ### Runs -/

inductive ClaimOp where
  | claim (resource agent priorityArgument : String) (options : ClaimOptions)
  | renew (resource agent : String) (leaseTtlSeconds : Option UInt64)
  | release (resource agent : String)
  | resolve (resource winner reason resolvedBy : String)
  | state (resource : String)
  | list (resourceFilter : Option String) (statusFilter : Option ClaimStatus)

inductive ClaimReply where
  | claim (claim : OwnershipClaim)
  | state (state : ArbitrationState)
  | claims (claims : List OwnershipClaim)

def ClaimOp.program : ClaimOp → Claiming ClaimReply
  | .claim resource agent priorityArgument options => do
    let claim ← claimResourceWithOptions lib resource agent priorityArgument options
    return .claim claim
  | .renew resource agent leaseTtlSeconds => do
    let claim ← renewClaim lib resource agent leaseTtlSeconds
    return .claim claim
  | .release resource agent => do
    let state ← releaseClaim lib resource agent
    return .state state
  | .resolve resource winner reason resolvedBy => do
    let state ← resolveClaim lib resource winner reason resolvedBy
    return .state state
  | .state resource => do
    let state ← getArbitrationState lib resource
    return .state state
  | .list resourceFilter statusFilter => do
    let claims ← listClaims lib resourceFilter statusFilter
    return .claims claims

/-- An operation and what surrounds each of its commands. -/
structure ClaimInput where
  op : ClaimOp
  env : Nat → CallEnv

/-- An operation with nothing of another between its commands. -/
def Store.perform (s : Store) (i : ClaimInput) : Store × Except ClaimError ClaimReply :=
  (i.op.program lib).run (Store.serve lib) .panicked i.env s

/-- The operations one after the other. -/
def claimBus : Machine Store ClaimInput (ClaimOp × Except ClaimError ClaimReply) where
  step s i := ((s.perform lib i).1, [(i.op, (s.perform lib i).2)])

end Operations

end AgentHub.Channels
