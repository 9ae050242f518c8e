import AgentHub.Cloud.Worker
import AgentHub.Network.Location
import AgentHub.Sync.Engine

/-!
# Hubs that replicate through the cloud

A `Fleet` is any number of hubs with distinct names, each with its sync engine, and the one log of
the cloud.  A request of a hub is served at any later time, or never, and again after its sender has
given up on it; its answer reaches the hub if the hub still waits for it.  Other writers insert into
the log directly, and retention deletes from it.

The events of a run are what its history is told by: local writes, pushed batches, rows, pages, and
messages that were ingested.
-/

namespace AgentHub.Network

open AgentHub.Json AgentHub.Cloud AgentHub.Cloud.BusLog AgentHub.Sync

/-- The identity of a hub, which is also the hub its token speaks for. -/
structure HubName where
  text : String
  valid : validSiteName text = true
  deriving DecidableEq

/-- The Worker and the hubs as they are set up. -/
structure Deployment where
  worker : Worker
  codec : HubName → Codec
  config : HubName → Config
  /-- How many rows a hub asks for at a time; the engine asks for `pullPageSize`. -/
  pageSize : HubName → Nat
  hub_eq : ∀ name, (config name).hub = name.text

inductive SyncRequest where
  | push (batch : List (StreamId × Message))
  | pull (since : Nat)
  deriving DecidableEq

/-- An answer of the Worker; a page is kept as its rows. -/
inductive SyncAnswer where
  | plain (response : Response)
  | page (result : SyncPullResult)

def SyncAnswer.response : SyncAnswer → Response
  | .plain response => response
  | .page result => .ok result.value

structure Fleet where
  log : BusLog := BusLog.empty
  sites : HubName → Site := fun _ => Site.fresh none
  /-- Every request that was sent. -/
  sent : List (HubName × SyncRequest) := []
  /-- The request a hub waits for. -/
  pending : HubName → Option SyncRequest := fun _ => none
  /-- The answer to it, on its way to the hub. -/
  answers : HubName → Option SyncAnswer := fun _ => none

inductive FleetInput where
  /-- A step of a hub that is not an answer of the log. -/
  | site (name : HubName) (input : SiteInput)
  /-- The Worker serves the request a hub waits for. -/
  | serve (name : HubName) (moment : Moment)
  /-- The Worker serves a request whose sender may no longer wait for it. -/
  | serveLate (k : Nat) (moment : Moment)
  /-- The answer reaches the hub. -/
  | deliver (name : HubName) (save : SaveResult)
  /-- A writer other than the engines inserts a message. -/
  | insert (fields : MessageFields) (originHub : String) (now : Int) (fault : Fault)
  /-- The alarm deletes what came in before a time. -/
  | retention (cutoffIso : String)

inductive FleetEvent where
  /-- A local write at a hub. -/
  | appended (name : HubName) (id : StreamId)
  /-- A batch a hub sent. -/
  | pushed (name : HubName) (batch : List (StreamId × Message))
  /-- A message a hub added to its stream. -/
  | ingested (name : HubName) (id : StreamId) (message : Message)
  | inserted (row : Row)
  /-- The row of the entry of a hub. -/
  | stored (name : HubName) (id : StreamId) (row : Row)
  /-- A page that was served to a hub. -/
  | page (name : HubName) (since : Nat) (result : SyncPullResult)
  deriving DecidableEq

namespace Fleet

variable (d : Deployment)

/-- A request goes out. -/
def ask (s : Fleet) (name : HubName) : SiteOutput → Fleet
  | .push batch =>
    { s with
      sent := s.sent ++ [(name, .push batch)]
      pending := Function.update s.pending name (some (.push batch))
      answers := Function.update s.answers name none }
  | .pull since =>
    { s with
      sent := s.sent ++ [(name, .pull since)]
      pending := Function.update s.pending name (some (.pull since))
      answers := Function.update s.answers name none }
  | .pushPresence _ =>
    { s with
      pending := Function.update s.pending name none
      answers := Function.update s.answers name none }
  | _ => s

def outputEvent (name : HubName) : SiteOutput → Option FleetEvent
  | .push batch => some (.pushed name batch)
  | .ingested id m => some (.ingested name id m)
  | _ => none

/-- A local write that takes place. -/
def appendEvent (site : Site) (name : HubName) : SiteInput → List FleetEvent
  | .append id _ => if site.streamTail < id then [.appended name id] else []
  | _ => []

/-- A hub takes a step, and what it asks for goes out. -/
def stepSite (s : Fleet) (name : HubName) (i : SiteInput) : Fleet × List FleetEvent :=
  let site := s.sites name
  let (site', outs) := site.step (d.codec name) (d.config name) i
  let s := outs.foldl (fun s o => s.ask name o) { s with sites := Function.update s.sites name site' }
  (s, appendEvent site name i ++ outs.filterMap (outputEvent name))

/-- The rows a push stored, with the entries they are of. -/
def storedEvents (name : HubName) (batch : List (StreamId × Message))
    (built : List (Value × Checked InsertMessageInput)) (results : List ItemResult) :
    List FleetEvent :=
  ((((batch.map Prod.fst).zip built).filter fun x => x.2.2.isOk).zip results).flatMap fun x =>
    match x.2 with
    | .accepted row => [.inserted row, .stored name x.1.1 row]
    | _ => []

/-- What the Worker does with the push of a hub. -/
def servePush (s : Fleet) (name : HubName) (batch : List (StreamId × Message)) (moment : Moment) :
    Fleet × Response × List FleetEvent :=
  let messages := batch.map Prod.snd
  let (log, response) :=
    postSyncPush d.worker s.log name.text (pushBody d.worker messages) moment
  let built := buildItems d.worker moment 0 (messages.map fun m =>
    Js.parse d.worker.numbers (pushMessage m))
  let stored := storeItems d.worker s.log name.text (built.filterMap fun x => x.2.toOption) moment
  ({ s with log }, response,
    if messages.length ≤ 500 then storedEvents name batch built stored.2.1 else [])

/-- The request a hub waits for is served. -/
def serve (s : Fleet) (name : HubName) (moment : Moment) : Fleet × List FleetEvent :=
  match s.pending name with
  | none => (s, [])
  | some (.push batch) =>
    let (s, response, events) := s.servePush d name batch moment
    ({ s with answers := Function.update s.answers name (some (.plain response)) }, events)
  | some (.pull since) =>
    let result := s.log.syncPull since (some name.text) (pullLimit (d.pageSize name))
    match getSyncPull s.log since name.text (d.pageSize name) with
    | .ok _ =>
      ({ s with answers := Function.update s.answers name (some (.page result)) },
        [.page name since result])
    | .error status =>
      ({ s with answers := Function.update s.answers name (some (.plain (.error status))) }, [])

/-- A push arrives, or arrives again, late. -/
def serveLate (s : Fleet) (k : Nat) (moment : Moment) : Fleet × List FleetEvent :=
  match s.sent[k]? with
  | some (name, .push batch) =>
    let (s, _, events) := s.servePush d name batch moment
    (s, events)
  | _ => (s, [])

/-- Another writer's message.  It is internal, since the validator lets nothing else through. -/
def insert (s : Fleet) (fields : MessageFields) (originHub : String) (now : Int) (fault : Fault) :
    Fleet × List FleetEvent :=
  if originHub.isEmpty then (s, [])
  else
    match insertMessage d.worker.choose s.log { fields with sensitivity := none } originHub now
        fault with
    | .inserted log row => ({ s with log }, [.inserted row])
    | _ => (s, [])

/-- Whether a hub waits for an answer about presence. -/
def awaitsPresence (site : Site) : Bool :=
  match site.engine with
  | some e =>
    match e.phase with
    | .pushingPresence _ _ => true
    | _ => false
  | none => false

def step (s : Fleet) : FleetInput → Fleet × List FleetEvent
  | .site name (.cloud (some body) save) =>
    -- only the answers about presence are not the log's
    if awaitsPresence (s.sites name) then s.stepSite d name (.cloud (some body) save) else (s, [])
  | .site name i => s.stepSite d name i
  | .serve name moment => s.serve d name moment
  | .serveLate k moment => s.serveLate d k moment
  | .deliver name save =>
    match s.answers name with
    | some answer =>
      let s := { s with answers := Function.update s.answers name none }
      s.stepSite d name (.cloud (readAnswer (d.codec name).doubles answer.response) save)
    | none => (s, [])
  | .insert fields originHub now fault => s.insert d fields originHub now fault
  | .retention cutoffIso => ({ s with log := s.log.deleteBefore cutoffIso }, [])

def machine : Machine Fleet FleetInput FleetEvent := ⟨fun s i => s.step d i⟩

end Fleet

end AgentHub.Network
