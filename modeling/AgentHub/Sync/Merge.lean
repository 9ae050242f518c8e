import AgentHub.Hub.History
import AgentHub.Hub.Redis
import AgentHub.Program

/-!
# Merging pulled presence

`apply_synced_presence` takes a snapshot of the row of an agent, decides on it whether and for how
long the pulled row is to be stored, and has a script store it if the row is still the same.  Its
two commands are the calls of a `Program`, so that local announcements, or other pulls, may come
between them.  Times of rows are nanoseconds since the epoch; the clock of Redis counts
milliseconds.
-/

namespace AgentHub.Sync

open AgentHub.Json AgentHub.Hub
open AgentHub.Validation (AgentBusError)

/-- `serde_json::to_value` of a presence. -/
def presenceValue (presence : Presence) : Value := .obj presence.fields

/-- `serde_json::to_string` of a presence. -/
def presenceText (presence : Presence) : String := jsonText (presenceValue presence)

/-- The library functions a merge calls. -/
structure PresenceLibrary where
  /-- `DateTime::parse_from_rfc3339`: the nanoseconds, or what is wrong with the text. -/
  parseRfc3339 : String → Except String Int
  /-- `serde_json::from_str::<Presence>`. -/
  readPresence : String → Option Presence
  /-- A text `to_string` wrote gives the timestamp back, as far as the reader goes into it. -/
  readPresence_text : ∀ presence : Presence, (presenceValue presence).depth ≤ maxDepth →
    presence.ttlSeconds < 2 ^ 64 →
    (readPresence (presenceText presence)).map (·.timestampUtc) = some presence.timestampUtc

/-- A call of `apply_synced_presence`.  The row came in an answer that was read before. -/
structure PresencePull where
  presence : Presence
  depth_le : (presenceValue presence).depth ≤ maxDepth
  ttl_lt : presence.ttlSeconds < 2 ^ 64
  presencePrefix : String
  localHub : String
  now : Int

variable (lib : PresenceLibrary)

/-! ### The decision -/

/-- `parse_timestamp_utc`. -/
def parseTimestampUtc (timestampUtc : String) : Except AgentBusError Int :=
  match lib.parseRfc3339 (replaceZ timestampUtc) with
  | .ok t => .ok t
  | .error e => .error (.internal s!"invalid timestamp_utc {timestampUtc}: {e}")

/-- The hub a row names as its origin. -/
def presenceOrigin (presence : Presence) : Option String :=
  (presence.metadata.field? "origin_hub").bind Value.asStr

/-- `num_seconds`: the whole seconds of a duration, towards zero. -/
def numSeconds (nanos : Int) : Int := nanos.tdiv 1000000000

/-- `i64::try_from(n).unwrap_or(i64::MAX)`. -/
def clampI64 (n : Nat) : Int := min n (2 ^ 63 - 1)

/-- `synced_presence_ttl`. -/
def syncedPresenceTtl (incoming : Presence) (stored : Option Presence) (localHub : String)
    (now : Int) : Except AgentBusError (Option Nat) :=
  if presenceOrigin incoming = some localHub then .ok none
  else do
    let incomingTs ← parseTimestampUtc lib incoming.timestampUtc
    let age := max (numSeconds (now - incomingTs)) 0
    let remaining := clampI64 incoming.ttlSeconds - age
    if remaining ≤ 0 then return none
    -- a row with an unreadable timestamp does not count
    else if stored.any fun row =>
        (parseTimestampUtc lib row.timestampUtc).toOption.any fun ts => incomingTs ≤ ts then
      return none
    else return some remaining.toNat

/-! ### The commands -/

/-- The values of Redis and its clock. -/
structure PresenceStore where
  rows : String → Option (Expiring String)
  clock : Nat

inductive PresenceCommand where
  /-- `GET`. -/
  | get (key : String)
  /-- `PRESENCE_CAS_SCRIPT`. -/
  | compareAndSet (key : String) (expected : Option String) (json : String) (ttl : Nat)

def PresenceCommand.Reply : PresenceCommand → Type
  | .get _ => Option String
  | .compareAndSet _ _ _ _ => Bool

namespace PresenceStore

/-- What a command finds under a key. -/
def find (store : PresenceStore) (key : String) : Option String :=
  readKey (store.rows key) store.clock

/-- `SET` with `EX`. -/
def setEx (store : PresenceStore) (key text : String) (ttl : Nat) : PresenceStore :=
  { store with
    rows := Function.update store.rows key (some ⟨text, some (store.clock + ttl * 1000)⟩) }

/-- Redis refuses an expiry that leaves the range of its clock. -/
def accepts (store : PresenceStore) (ttl : Nat) : Bool :=
  decide (0 < ttl) && decide (store.clock + ttl * 1000 < 2 ^ 63)

def execute (store : PresenceStore) :
    (c : PresenceCommand) → PresenceStore × Option c.Reply
  | .get key => (store, some (store.find key))
  | .compareAndSet key expected json ttl =>
    if store.find key ≠ expected then (store, some false)
    else if store.accepts ttl then (store.setEx key json ttl, some true)
    else (store, none)

/-- What becomes of a command. -/
inductive Fate where
  | served
  /-- Redis does not carry it out. -/
  | refused
  /-- Its reply does not reach the caller. -/
  | replyLost

def serve (c : PresenceCommand) (fate : Fate) (store : PresenceStore) :
    PresenceStore × Option c.Reply :=
  match fate with
  | .served => store.execute c
  | .refused => (store, none)
  | .replyLost => ((store.execute c).1, none)

/-- What else happens to the rows. -/
inductive Change where
  /-- A local announcement: `SET` with `EX` of any text. -/
  | announce (key text : String) (ttl : Nat)
  | delete (key : String)
  | wait (milliseconds : Nat)

def change : Change → PresenceStore → PresenceStore
  | .announce key text ttl, store => store.setEx key text ttl
  | .delete key, store => { store with rows := Function.update store.rows key none }
  | .wait milliseconds, store => { store with clock := store.clock + milliseconds }

end PresenceStore

/-! ### The program -/

abbrev Merging : Type → Type := Program PresenceCommand PresenceCommand.Reply AgentBusError

def presenceCasMaxAttempts : Nat := 8

def PresencePull.key (pull : PresencePull) : String := pull.presencePrefix ++ pull.presence.agent

open Program

/-- The loop of `apply_synced_presence`. -/
def mergeAttempts (pull : PresencePull) : Nat → Merging Bool
  | 0 => fail (.internal
      "presence changed during every sync update attempt; retry on the next pull")
  | attempts + 1 => do
    let existing ← perform (PresenceCommand.get pull.key)
    let stored := existing.bind lib.readPresence
    match ← check (syncedPresenceTtl lib pull.presence stored pull.localHub pull.now) with
    | none => return false
    | some ttl => do
      let written : Bool ← perform
        (PresenceCommand.compareAndSet pull.key existing (presenceText pull.presence) ttl)
      if written then return true else mergeAttempts pull attempts

/-- `apply_synced_presence`. -/
def applySyncedPresence (pull : PresencePull) : Merging Bool :=
  mergeAttempts lib pull presenceCasMaxAttempts

/-- Pulls whose commands interleave with each other and with local announcements. -/
def merges : Pool.Runtime PresenceCommand PresenceCommand.Reply AgentBusError Bool PresencePull
    PresenceStore PresenceStore.Fate PresenceStore.Change where
  route := applySyncedPresence lib
  serve := PresenceStore.serve
  lost := .internal "atomic presence update failed"
  outside := PresenceStore.change

end AgentHub.Sync
