import AgentHub.Hub.Message
import AgentHub.Rounding

/-!
# The hub's Redis

The keys the replay route and the claim operations touch, each under its own name space, with the
writes that change them.  A key with a deadline is gone once the clock has passed it.

`same` is the deep comparison both scripts make between a stored claim and a remembered one, on
documents as Lua decodes them: numbers are doubles, and an empty array and an empty object are the
same table.  Times are taken to be below 10^14 milliseconds, where Lua's numbers and the fourteen
digits its encoder prints are exact; the sequence of a marker may be any `u64`, and is stored with
fourteen digits.
-/

namespace AgentHub.Hub

open AgentHub.Json AgentHub.Outbox

/-! ### Claims -/

inductive ClaimStatus where
  | pending
  | granted
  | contested
  | reviewAssigned
  deriving DecidableEq, Repr

def ClaimStatus.asStr : ClaimStatus → String
  | .pending => "pending"
  | .granted => "granted"
  | .contested => "contested"
  | .reviewAssigned => "review_assigned"

def leaseModeStr : ResourceLeaseMode → String
  | .shared => "shared"
  | .sharedNamespaced => "shared_namespaced"
  | .exclusive => "exclusive"

def resourceScopeStr : ResourceScope → String
  | .repo => "repo"
  | .machine => "machine"

structure RerouteSuggestion where
  originalResource : String
  suggestedResource : String
  isolationHint : String
  reason : String
  deriving DecidableEq

def RerouteSuggestion.value (r : RerouteSuggestion) : Value :=
  .obj
    [("original_resource", .str r.originalResource),
     ("suggested_resource", .str r.suggestedResource),
     ("isolation_hint", .str r.isolationHint),
     ("reason", .str r.reason)]

structure OwnershipClaim where
  resource : String
  agent : String
  priorityArgument : String
  timestamp : String
  status : ClaimStatus
  mode : ResourceLeaseMode
  leaseNamespace : Option String
  scopeKind : Option String
  scopePath : Option String
  repoScopes : List String
  threadId : Option String
  leaseTtlSeconds : UInt64
  expiresAt : Option String
  scope : ResourceScope
  rerouteSuggestion : Option RerouteSuggestion
  deriving DecidableEq

/-- The fields of a claim with those that are left out when they are empty. -/
def OwnershipClaim.slots (c : OwnershipClaim) : List (String × Option Value) :=
  [("resource", some (.str c.resource)),
   ("agent", some (.str c.agent)),
   ("priority_argument", some (.str c.priorityArgument)),
   ("timestamp", some (.str c.timestamp)),
   ("status", some (.str c.status.asStr)),
   ("mode", some (.str (leaseModeStr c.mode))),
   ("namespace", c.leaseNamespace.map .str),
   ("scope_kind", c.scopeKind.map .str),
   ("scope_path", c.scopePath.map .str),
   ("repo_scopes", if c.repoScopes = [] then none else some (.arr (c.repoScopes.map .str))),
   ("thread_id", c.threadId.map .str),
   ("lease_ttl_seconds", some (.int c.leaseTtlSeconds.toNat)),
   ("expires_at", c.expiresAt.map .str),
   ("scope", some (.str (resourceScopeStr c.scope))),
   ("reroute_suggestion", c.rerouteSuggestion.map RerouteSuggestion.value)]

/-- The claim as the structure is written. -/
def OwnershipClaim.value (c : OwnershipClaim) : Value := .obj (Fields.compact c.slots)

/-! ### Comparing documents in Lua -/

/-- The double nearest to an integer, ties to even. -/
def luaNumber (n : Int) : Int :=
  let m := n.natAbs
  if m ≤ 2 ^ 53 then n
  else
    let unit := 2 ^ (Nat.log2 m - 52)
    let q := m / unit
    let r := m % unit
    let q := if unit < 2 * r ∨ (unit = 2 * r ∧ q % 2 = 1) then q + 1 else q
    n.sign * (q * unit)

mutual

def same : Value → Value → Bool
  | .null, .null => true
  | .bool a, .bool b => a == b
  | .int a, .int b => luaNumber a == luaNumber b
  | .float a, .float b => a == b
  | .str a, .str b => a == b
  | .arr a, .arr b => sameItems a b
  | .obj a, .obj b => sameFields a b && b.all fun kv => (Fields.get a kv.1).isSome
  | .arr [], .obj [] => true
  | .obj [], .arr [] => true
  | _, _ => false

def sameItems : List Value → List Value → Bool
  | [], [] => true
  | v :: vs, w :: ws => same v w && sameItems vs ws
  | _, _ => false

/-- Every field on the left has an equal on the right. -/
def sameFields : List (String × Value) → List (String × Value) → Bool
  | [], _ => true
  | (k, v) :: vs, ws =>
    (match Fields.get ws k with
      | some w => same v w
      | none => false) && sameFields vs ws

end

/-- `type(value) == 'table'`. -/
def isTable : Value → Bool
  | .arr _ => true
  | .obj _ => true
  | _ => false

/-! ### Keys -/

/-- The value of a key and the time after which it is gone. -/
structure Expiring (α : Type) where
  value : α
  deadline : Option Nat

/-- What a command at the time `now` finds under a key. -/
def readKey {α : Type} (slot : Option (Expiring α)) (now : Nat) : Option α :=
  match slot with
  | none => none
  | some e => if e.deadline.all fun deadline => now ≤ deadline then some e.value else none

/-- The result a replayed request is remembered with, as the JSON text of the memo spells it. -/
inductive Stored where
  | superseded
  | message (message : Message)
  | presence (presence : Presence)
  | claim (claim : OwnershipClaim)
  deriving DecidableEq

/-- `cached.result` of a remembered response. -/
def Stored.result : Stored → Option Value
  | .superseded => none
  | .message m => some (.obj m.fields)
  | .presence p => some (.obj p.fields)
  | .claim c => some c.value

inductive MemoState where
  | pending
  | applied (response : Stored) (claimExpiresMs : Option Nat)
  deriving DecidableEq

structure Memo where
  fingerprint : String
  state : MemoState
  deriving DecidableEq

/-- The newest replayed presence of an agent.  It was created at most five minutes after the hub's
clock, so its time is exact. -/
structure Marker where
  originId : Uuid
  sequence : Nat
  createdMs : Nat

/-- The number that is decoded where `cjson.encode` has printed a double with `%.14g`. -/
def luaReread (n : Nat) : Nat := (luaNumber (Rounding.floating 10 13 (luaNumber n).toNat)).toNat

/-- A marker as it is decoded from its text. -/
def Marker.reread (m : Marker) : Marker := { m with sequence := luaReread m.sequence }

structure StreamEntry where
  streamId : String
  fields : List (String × String)
  deriving DecidableEq

structure NotificationEntry where
  agent : String
  fields : List (String × String)
  message : Message
  deriving DecidableEq

/-- The key of a resource's claims: a hash by agent, each entry the document its text decodes to,
or a value of another type. -/
inductive ClaimsValue where
  | other
  | hash (entries : List (String × Option Value))

/-- The keys of a hub.  The streams and the channel are what was ever added to them. -/
structure Redis where
  memos : Uuid → Option (Expiring Memo) := fun _ => none
  stream : List StreamEntry := []
  published : List BusEvent := []
  notifications : List NotificationEntry := []
  notificationDeadlines : String → Option Nat := fun _ => none
  pendingAcks : String → Option (Expiring PendingAck) := fun _ => none
  ackDeadlines : String → Option (Expiring AckDeadline) := fun _ => none
  presences : String → Option (Expiring Presence) := fun _ => none
  markers : String → Option (Expiring Marker) := fun _ => none
  claims : String → Option (Expiring ClaimsValue) := fun _ => none

/-! ### Writes -/

inductive Write where
  | setMemo (requestId : Uuid) (memo : Memo) (deadline : Option Nat)
  | addEntry (entry : StreamEntry)
  | publish (event : BusEvent)
  | addNotification (entry : NotificationEntry)
  | expireNotifications (agent : String) (deadline : Nat)
  | setPendingAck (id : String) (record : PendingAck) (deadline : Nat)
  | setAckDeadline (id : String) (record : AckDeadline) (deadline : Nat)
  | delAcks (pending deadlines : List String)
  | setPresence (agent : String) (presence : Presence) (deadline : Nat)
  | setMarker (agent : String) (marker : Marker) (deadline : Nat)
  | setClaims (key : String) (slot : Option (Expiring ClaimsValue))

namespace Redis

def write (db : Redis) : Write → Redis
  | .setMemo requestId memo deadline =>
    { db with memos := Function.update db.memos requestId (some ⟨memo, deadline⟩) }
  | .addEntry entry => { db with stream := db.stream ++ [entry] }
  | .publish event => { db with published := db.published ++ [event] }
  | .addNotification entry => { db with notifications := db.notifications ++ [entry] }
  | .expireNotifications agent deadline =>
    { db with
      notificationDeadlines := Function.update db.notificationDeadlines agent (some deadline) }
  | .setPendingAck id record deadline =>
    { db with pendingAcks := Function.update db.pendingAcks id (some ⟨record, some deadline⟩) }
  | .setAckDeadline id record deadline =>
    { db with ackDeadlines := Function.update db.ackDeadlines id (some ⟨record, some deadline⟩) }
  | .delAcks pending deadlines =>
    { db with
      pendingAcks := fun id => if id ∈ pending then none else db.pendingAcks id
      ackDeadlines := fun id => if id ∈ deadlines then none else db.ackDeadlines id }
  | .setPresence agent presence deadline =>
    { db with presences := Function.update db.presences agent (some ⟨presence, some deadline⟩) }
  | .setMarker agent marker deadline =>
    { db with markers := Function.update db.markers agent (some ⟨marker.reread, some deadline⟩) }
  | .setClaims key slot => { db with claims := Function.update db.claims key slot }

def writes (db : Redis) (ws : List Write) : Redis := ws.foldl write db

end Redis

end AgentHub.Hub
