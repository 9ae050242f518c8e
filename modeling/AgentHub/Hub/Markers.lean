import AgentHub.Machine
import AgentHub.Hub.Accept

/-!
# Replayed presences

The runs of the replay script one after the other, with the commands of other programs between
them.  `MarkerState.machine` shows an observer which presences took effect, that is which runs got
to the marker of their agent.
-/

namespace AgentHub.Hub

open AgentHub.Outbox

/-- A replayed presence that took effect. -/
structure Application where
  agent : String
  originId : Uuid
  sequence : Nat
  createdMs : Nat
  deriving DecidableEq

/-- The presence a write puts into force. -/
def Write.application? : Write → Option Application
  | .setMarker agent marker _ =>
    some ⟨agent, marker.originId, marker.sequence, marker.createdMs⟩
  | _ => none

structure MarkerState where
  db : Redis := {}
  now : Nat := 0

inductive MarkerInput where
  /-- A run of the replay script, at a time not before the last one. -/
  | replay (now : Nat) (input : ScriptInput) (streamId : String) (foreign : Bool) (io : ScriptIo)
  | command (now : Nat) (command : Command)

namespace MarkerState

/-- The clock at an input. -/
def clock (s : MarkerState) : MarkerInput → Nat
  | .replay now _ _ _ _ => max s.now now
  | .command now _ => max s.now now

/-- The writes an input makes. -/
def written (s : MarkerState) (i : MarkerInput) : List Write :=
  match i with
  | .replay _ input streamId foreign io =>
    (runScript (replayScript s.db (s.clock i) input streamId foreign) io).2
  | .command _ command => command.writes s.db (s.clock i)

def step (s : MarkerState) (i : MarkerInput) : MarkerState × List Application :=
  ({ db := s.db.writes (s.written i), now := s.clock i },
    (s.written i).filterMap Write.application?)

def machine : Machine MarkerState MarkerInput Application := ⟨step⟩

/-- The marker of an agent. -/
def marker? (s : MarkerState) (agent : String) : Option Marker :=
  (s.db.markers agent).map Expiring.value

end MarkerState

/-! ### When a presence is in order -/

/-- Whether a script makes that many of its writes. -/
def ScriptIo.makes (n : Nat) : ScriptIo → Bool
  | .done => true
  | .unreached => false
  | .aborted writes => n ≤ writes

/-- A request comes for the first time and in time, and the script is not cut off before it would
write the marker. -/
def attempts (db : Redis) (now : Nat) (input : ScriptInput) (foreign : Bool) (io : ScriptIo) :
    Bool :=
  (readKey (db.memos input.requestId) now).isNone && !(input.expiresMs ≠ 0 && input.expiresMs ≤ now) &&
    input.createdMs ≤ now + 300000 && !preflightFails db now input foreign && io.makes 3

/-- The marker in force is of the request's own origin. -/
def ownMarker (db : Redis) (now : Nat) (input : ScriptInput) (presence : Presence) : Bool :=
  (readKey (db.markers presence.agent) now).any fun marker => marker.originId = input.originId

/-- The marker in force was created after the request, or the live presence is newer than the
request. -/
def outdated (db : Redis) (now : Nat) (input : ScriptInput) (presence : Presence) : Bool :=
  ((readKey (db.markers presence.agent) now).any fun marker =>
    input.createdMs < marker.createdMs) ||
  ((readKey (db.presences presence.agent) now).any fun live =>
    presence.timestampUtc < live.timestampUtc)

/-- An equal or later presence of the request's origin has taken effect. -/
def Stale (past : List Application) (input : ScriptInput) (presence : Presence) : Prop :=
  ∃ a ∈ past, a.agent = presence.agent ∧ a.originId = input.originId ∧ input.sequence ≤ a.sequence

/-- A presence of the request's origin has taken effect whose sequence, as a marker keeps it, is not
below the request's as Lua reads it. -/
def Told (past : List Application) (input : ScriptInput) (presence : Presence) : Prop :=
  ∃ a ∈ past, a.agent = presence.agent ∧ a.originId = input.originId ∧
    luaNumber input.sequence ≤ luaReread a.sequence

/-- **In order**: a presence that is stale comes while the marker in force still tells. -/
def InOrder (past : List Application) (s : MarkerState) (i : MarkerInput) : Prop :=
  match i with
  | .replay _ input _ foreign io =>
    ∀ presence, input.effect = .presence presence →
      attempts s.db (s.clock i) input foreign io = true → Stale past input presence →
      (ownMarker s.db (s.clock i) input presence = true ∧ Told past input presence) ∨
        outdated s.db (s.clock i) input presence = true
  | .command _ _ => True

/-- The presences of one origin take effect in the order of their sequences. -/
def Ascending (as : List Application) : Prop :=
  ∀ agent originId, (as.filter fun a => a.agent = agent ∧ a.originId = originId).Pairwise
    fun a b => a.sequence < b.sequence

end AgentHub.Hub
