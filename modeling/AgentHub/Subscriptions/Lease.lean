import AgentHub.Channels.Chrono
import AgentHub.Subscriptions.Store

/-!
# The expiry of a subscription

`subscribe` with the arithmetic of its dates: the arguments are checked, a lifetime is added to the
time, which may panic, and the record is saved.
-/

namespace AgentHub.Subscriptions

open AgentHub.Validation AgentHub.Outbox AgentHub.Channels

/-- A call of `subscribe`: the time it reads, in nanoseconds, and what the server makes of it. -/
structure Caller where
  id : Uuid
  now : Nat
  serverNow : Nat
  conn : Except AgentBusError Unit
  outcome : Outcome

/-- The record of a subscription to an agent's name that is checked. -/
def Caller.record (w : Caller) (request : SubscribeRequest) (agent : String)
    (expiry : Option Nat) : Subscription where
  id := w.id.toString
  agent
  scopes := request.scopes
  createdAt := toRfc3339 w.now
  ttlSeconds := request.ttlSeconds
  expiresAt := expiry.map toRfc3339

/-- The checks of `subscribe`. -/
def checkSubscriber (request : SubscribeRequest) : Except AgentBusError String := do
  let agent ← nonEmpty request.agent "agent"
  checkPriorityMin request.scopes.priorityMin
  return agent

/-- `subscribe`; no result is a panic. -/
def subscribeAt (store : Store) (w : Caller) (request : SubscribeRequest) :
    Option (Except AgentBusError Subscription × Store) :=
  match checkSubscriber request with
  | .error error => some (.error error, store)
  | .ok agent =>
    match request.ttlSeconds.mapM (addLifetime w.now) with
    | none => none
    | some expiry =>
      let sub := w.record request agent expiry
      match saveSubscription store w.serverNow w.conn w.outcome sub with
      | (.error error, store) => some (.error error, store)
      | (.ok (), store) => some (.ok sub, store)

/-- The surroundings of a call that does not panic. -/
def Caller.surroundings (w : Caller) : Surroundings where
  id := w.id
  createdAt := toRfc3339 w.now
  expiry ttl := .ok (toRfc3339 (w.now + ttl * nanosPerSecond))
  now := w.serverNow
  conn := w.conn
  outcome := w.outcome

end AgentHub.Subscriptions
