import AgentHub.Glob
import AgentHub.Json.Text
import AgentHub.Machine
import AgentHub.Outbox.Request
import AgentHub.Table
import AgentHub.Validation

/-!
# Subscriptions

A subscription is a record under a key made of its agent and its id, with a time to live where it was
given one.  Listing the subscriptions of an agent scans the keys for a pattern made of the agent's
name, and gets what is under each; cancelling one deletes the key made of the two names given.

The records are held as they are, not as their JSON.  What the server answers, and the keys a scan
returns, are inputs.
-/

namespace AgentHub.Subscriptions

open AgentHub.Validation AgentHub.Json AgentHub.Outbox

structure SubscriptionScopes where
  repos : List String := []
  sessions : List String := []
  threads : List String := []
  tags : List String := []
  topics : List String := []
  priorityMin : Option String := none
  resources : List String := []
  deriving DecidableEq

structure Subscription where
  id : String
  agent : String
  scopes : SubscriptionScopes
  createdAt : String
  ttlSeconds : Option Nat
  expiresAt : Option String
  deriving DecidableEq

def validSubscriptionPriorities : List String := ["low", "normal", "high", "urgent"]

/-! ### Redis -/

/-- A key with its record, and the millisecond it expires at. -/
structure Stored where
  key : String
  sub : Subscription
  deadline : Option Nat
  deriving DecidableEq

abbrev Store := Table Stored String Stored.key

/-- The key has not expired. -/
def Stored.live (now : Nat) (row : Stored) : Bool := row.deadline.all (now < ·)

/-- What came of a command: it was carried out, it was not, or it was and its answer was lost. -/
inductive Outcome where
  | done
  | refused (error : String)
  | lost (error : String)

/-- `GET`. -/
def getLive (store : Store) (now : Nat) (key : String) : Option Stored :=
  (store.get? key).filter (Stored.live now)

def subscriptionKeyPrefix : String := "agent_bus:sub:"

def subscriptionKey (agent id : String) : String := subscriptionKeyPrefix ++ agent ++ ":" ++ id

/-- `validate_subscription_nul_fields`. -/
def validateSubscriptionNulFields (sub : Subscription) : Except AgentBusError Unit := do
  rejectNulInFields [(sub.agent, "agent"), (sub.id, "subscription_id"), (sub.createdAt, "created_at")]
  rejectNulInFields (sub.expiresAt.toList.map (·, "expires_at"))
  rejectNulInFields (sub.scopes.repos.map (·, "scope_repo"))
  rejectNulInFields (sub.scopes.sessions.map (·, "scope_session"))
  rejectNulInFields (sub.scopes.threads.map (·, "scope_thread"))
  rejectNulInFields (sub.scopes.tags.map (·, "scope_tag"))
  rejectNulInFields (sub.scopes.topics.map (·, "scope_topic"))
  rejectNulInFields (sub.scopes.priorityMin.toList.map (·, "scope_priority_min"))
  rejectNulInFields (sub.scopes.resources.map (·, "scope_resource"))

def setFailed (sub : Subscription) (error : String) : AgentBusError :=
  .internal (if sub.ttlSeconds.isSome then s!"SET subscription with TTL failed: {error}"
    else s!"SET subscription failed: {error}")

/-- `save_subscription`. -/
def saveSubscription (store : Store) (now : Nat) (conn : Except AgentBusError Unit)
    (outcome : Outcome) (sub : Subscription) : Except AgentBusError Unit × Store :=
  let saved := store.put
    ⟨subscriptionKey sub.agent sub.id, sub, sub.ttlSeconds.map fun ttl => now + ttl * 1000⟩
  match validateSubscriptionNulFields sub, conn with
  | .error error, _ => (.error error, store)
  | .ok (), .error error => (.error error, store)
  | .ok (), .ok () =>
    match outcome with
    | .done => (.ok (), saved)
    | .refused error => (.error (setFailed sub error), store)
    | .lost error => (.error (setFailed sub error), saved)

/-- The pattern of `list_subscriptions`. -/
def subscriptionPattern (agent : String) : List UInt8 :=
  utf8 (subscriptionKeyPrefix ++ agent ++ ":*").toList

/-- The answers a listing gets: the keys of a scan for a pattern, and which gets fail. -/
structure ListAnswers where
  scan : List UInt8 → Except String (List String)
  getError : String → Option String

/-- The loop of `list_subscriptions` over the keys. -/
def getAll (store : Store) (now : Nat) (getError : String → Option String) :
    List String → Except AgentBusError (List Subscription)
  | [] => .ok []
  | key :: keys =>
    match getError key with
    | some error => .error (.internal s!"GET subscription failed: {error}")
    | none => do
      let subs ← getAll store now getError keys
      return ((getLive store now key).map Stored.sub).toList ++ subs

/-- `redis_bus::list_subscriptions`. -/
def listStored (store : Store) (now : Nat) (conn : Except AgentBusError Unit)
    (answers : ListAnswers) (agent : String) : Except AgentBusError (List Subscription) := do
  conn
  match answers.scan (subscriptionPattern agent) with
  | .error error => throw (.internal s!"SCAN subscriptions failed: {error}")
  | .ok keys =>
    let subs ← getAll store now answers.getError keys
    return subs.mergeSort fun a b => a.createdAt ≤ b.createdAt

/-- `delete_subscription`. -/
def deleteSubscription (store : Store) (now : Nat) (conn : Except AgentBusError Unit)
    (outcome : Outcome) (agent id : String) : Except AgentBusError Bool × Store :=
  let key := subscriptionKey agent id
  match conn with
  | .error error => (.error error, store)
  | .ok () =>
    match outcome with
    | .done => (.ok (getLive store now key).isSome, store.delete key)
    | .refused error => (.error (.internal s!"DEL subscription failed: {error}"), store)
    | .lost error => (.error (.internal s!"DEL subscription failed: {error}"), store.delete key)

/-! ### Operations -/

structure SubscribeRequest where
  agent : String
  scopes : SubscriptionScopes
  ttlSeconds : Option Nat

/-- `Uuid::new_v4`, the time, and the time after some seconds, which need not be a date. -/
structure Surroundings where
  id : Uuid
  createdAt : String
  expiry : Nat → Except AgentBusError String
  now : Nat
  conn : Except AgentBusError Unit
  outcome : Outcome

def checkPriorityMin : Option String → Except AgentBusError Unit
  | none => .ok ()
  | some p =>
    if validSubscriptionPriorities.contains p then .ok ()
    else .error (.invalidParams
      (s!"invalid priority_min '{p}'; must be one of: " ++
        Text.join ", " validSubscriptionPriorities))

/-- The record `subscribe` saves. -/
def newSubscription (w : Surroundings) (request : SubscribeRequest) :
    Except AgentBusError Subscription := do
  let agent ← nonEmpty request.agent "agent"
  checkPriorityMin request.scopes.priorityMin
  let expiresAt ← request.ttlSeconds.mapM w.expiry
  return {
    id := w.id.toString
    agent
    scopes := request.scopes
    createdAt := w.createdAt
    ttlSeconds := request.ttlSeconds
    expiresAt }

/-- `subscribe`. -/
def subscribe (store : Store) (w : Surroundings) (request : SubscribeRequest) :
    Except AgentBusError Subscription × Store :=
  match newSubscription w request with
  | .error error => (.error error, store)
  | .ok sub =>
    match saveSubscription store w.now w.conn w.outcome sub with
    | (.error error, store) => (.error error, store)
    | (.ok (), store) => (.ok sub, store)

/-- The names `unsubscribe` goes by. -/
def unsubscribeNames (agent subscriptionId : String) : Except AgentBusError (String × String) := do
  let agent ← nonEmpty agent "agent"
  let id ← nonEmpty subscriptionId "subscription_id"
  return (agent, id)

/-- `unsubscribe`. -/
def unsubscribe (store : Store) (now : Nat) (conn : Except AgentBusError Unit) (outcome : Outcome)
    (agent subscriptionId : String) : Except AgentBusError Bool × Store :=
  match unsubscribeNames agent subscriptionId with
  | .error error => (.error error, store)
  | .ok (agent, id) => deleteSubscription store now conn outcome agent id

/-- `list_subscriptions`. -/
def listSubscriptions (store : Store) (now : Nat) (conn : Except AgentBusError Unit)
    (answers : ListAnswers) (agent : String) : Except AgentBusError (List Subscription) := do
  let agent ← nonEmpty agent "agent"
  listStored store now conn answers agent

/-! ### Runs -/

inductive Call where
  | subscribe (w : Surroundings) (request : SubscribeRequest)
  | unsubscribe (now : Nat) (conn : Except AgentBusError Unit) (outcome : Outcome)
      (agent subscriptionId : String)
  /-- The server drops keys that have expired. -/
  | expire (now : Nat)

def dropExpired (store : Store) (now : Nat) : Store where
  rows := store.rows.filter (Stored.live now)
  unique := store.unique.filter _

/-- The store as the calls of all agents change it. -/
def machine : Machine Store Call Empty where
  step store
    | .subscribe w request => ((AgentHub.Subscriptions.subscribe store w request).2, [])
    | .unsubscribe now conn outcome agent id =>
      ((AgentHub.Subscriptions.unsubscribe store now conn outcome agent id).2, [])
    | .expire now => (dropExpired store now, [])

end AgentHub.Subscriptions
