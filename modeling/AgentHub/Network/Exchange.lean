import AgentHub.Hub.Accept
import AgentHub.Outbox.Client

/-!
# A client and its hub

`Exchange` puts one client with its journal and one hub with everything that uses it side by side.
What the client has handed to its transport may reach the hub any number of times, or never; what
the hub has answered may reach the client, or be lost.  How a transport turns the hub's replies into
the answers the client sees is a `Transport`.
-/

namespace AgentHub.Network

open AgentHub.Outbox AgentHub.Hub

/-- What a call of `accept` has answered. -/
abbrev Reply := ReplayEnvelope × Except ReplayHubError ReplayResponse

/-- The client's side of a transport.  Whatever else happens to a call, an answer it gives as that
of the hub was given by the hub. -/
structure Transport where
  /-- What can happen to a call. -/
  Event : Type
  /-- The answer of a call for an envelope, from the replies of the hub so far; none while there is
  no such event. -/
  answer : List Reply → ReplayEnvelope → Event → Option Answer
  honest : ∀ replies envelope event response,
    answer replies envelope event = some (.ok response) → (envelope, .ok response) ∈ replies

structure Exchange where
  client : Client := {}
  hub : HubState := {}
  /-- The requests the client has handed to its transport. -/
  sent : List ReplayRequest := []
  /-- Those that have reached the hub. -/
  delivered : List ReplayRequest := []
  replies : List Reply := []

inductive ExchangeInput (Event : Type) where
  /-- A step of the client other than an answer of its transport. -/
  | client (input : ClientInput)
  /-- The call the client is waiting for is answered. -/
  | answer (event : Event)
  /-- A request of the client reaches the hub. -/
  | deliver (task : Nat) (request : ReplayRequest) (hasSseSubscribers : Bool)
  /-- A step of the hub, or a request of another client that reaches it. -/
  | hub (input : HubInput)

inductive ExchangeOutput where
  | client (output : Output)
  | hub (output : HubOutput)

/-- The request the client waits for. -/
def calling (c : Client) : Option ReplayRequest :=
  match c.handle with
  | some ⟨_, .calling _ request⟩ => some request
  | _ => none

/-- The requests handed to the transport in some outputs. -/
def replayedIn (outs : List Output) : List ReplayRequest :=
  outs.filterMap fun
    | .replayed request => some request
    | _ => none

/-- The replies in some outputs of the hub. -/
def repliesIn (outs : List HubOutput) : List Reply :=
  outs.filterMap fun
    | .answered envelope result => some (envelope, result)
    | .dispatched _ => none

namespace Exchange

variable (platform : Platform) (settings : Settings) (destination identity : String)

/-- Step the client. -/
def stepClient (s : Exchange) (input : ClientInput) : Exchange × List ExchangeOutput :=
  let (client, outs) := s.client.step destination input
  ({ s with client, sent := s.sent ++ replayedIn outs }, outs.map .client)

/-- Step the hub. -/
def stepHub (s : Exchange) (input : HubInput) : Exchange × List ExchangeOutput :=
  let (hub, outs) := s.hub.step platform settings input
  ({ s with hub, replies := s.replies ++ repliesIn outs }, outs.map .hub)

/-- The client sends to the hub it takes to be `identity` and keeps its journal for
`destination`. -/
def step (T : Transport) (s : Exchange) :
    ExchangeInput T.Event → Exchange × List ExchangeOutput
  | .client (.call (.answer _)) => (s, [])
  | .client input => s.stepClient destination input
  | .answer event =>
    match calling s.client with
    | none => (s, [])
    | some request =>
      match T.answer s.replies ⟨identity, request⟩ event with
      | none => (s, [])
      | some answer => s.stepClient destination (.call (.answer answer))
  | .deliver task request hasSse =>
    if request ∈ s.sent then
      { s with delivered := s.delivered ++ [request] }.stepHub platform settings
        (.accept task ⟨identity, request⟩ hasSse)
    else (s, [])
  | .hub input => s.stepHub platform settings input

def machine (T : Transport) : Machine Exchange (ExchangeInput T.Event) ExchangeOutput :=
  ⟨step platform settings destination identity T⟩

end Exchange

/-- The steps of the client in a run. -/
def clientInputs {Event : Type} (is : List (ExchangeInput Event)) : List ClientInput :=
  is.filterMap fun
    | .client input => some input
    | _ => none

/-- The outputs of the client in a run. -/
def clientOutputs (outs : List ExchangeOutput) : List Output :=
  outs.filterMap fun
    | .client output => some output
    | .hub _ => none

/-- The identifiers a client draws are distinct, and no other client uses one of them. -/
def DistinctIds {Event : Type} (is : List (ExchangeInput Event)) : Prop :=
  (drawnIds (clientInputs is)).Nodup ∧
    ∀ i envelope sse, ExchangeInput.hub (.accept i envelope sse) ∈ is →
      envelope.request.requestId ∉ drawnIds (clientInputs is)

end AgentHub.Network
