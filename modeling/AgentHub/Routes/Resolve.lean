import AgentHub.Machine
import AgentHub.Routes.Race

/-!
# Resolving the hub

`resolveSerial` walks the stages of a plan, `resolver` is the machine that races them.  Both open a
stage after the one before it has ended without a winner: first every route to the authority, then
each fallback store, then each cloud store.

`HubBackend` says which of the three states a client is in.  The cache is what `HubCache::load`
returned, and what is done to its file is returned beside the backend.
-/

namespace AgentHub.Routes

structure Settings where
  serverUrls : List String
  hubCandidates : List HubCandidate
  hubConfigError : Option String
  authToken : Option String
  probeStaggerMs : Nat

/-- `build_candidates` without specs. -/
def buildCandidates (urls : List String) : List HubCandidate :=
  urls.zipIdx.map fun p =>
    ⟨p.1, if p.2 = 0 then .authoritative else .fallback, .global, [], none⟩

/-- `Settings::effective_hub_candidates`. -/
def Settings.effectiveHubCandidates (settings : Settings) : List HubCandidate :=
  if settings.hubCandidates.map HubCandidate.url = settings.serverUrls then settings.hubCandidates
  else buildCandidates settings.serverUrls

/-! ### Groups -/

/-- A group of routes, by the indexes of its candidates, that reaches the store of `candidate`. -/
def reaches (candidates : List HubCandidate) (candidate : HubCandidate) (group : List Nat) : Bool :=
  match group.head?.bind (candidates[·]?), candidate.hub.filter (· ≠ "") with
  | some first, some hub => first.role == candidate.role && first.hub == some hub
  | _, _ => false

/-- A candidate joins the first group that reaches its store, or makes its own. -/
def joinGroup (candidates : List HubCandidate) : List (List Nat) → HubCandidate × Nat →
    List (List Nat)
  | [], p => [[p.2]]
  | group :: groups, p =>
    if reaches candidates p.1 group then (group ++ [p.2]) :: groups
    else group :: joinGroup candidates groups p

/-- The candidates of one role with their indexes. -/
def ofRole (candidates : List HubCandidate) (role : HubRole) : List (HubCandidate × Nat) :=
  candidates.zipIdx.filter fun p => p.1.role = role

/-- The groups of `grouped_route_plans`. -/
def groups (candidates : List HubCandidate) (authorityOnly : Bool) : List (List Nat) :=
  let authority := (ofRole candidates .authoritative).foldl (joinGroup candidates) []
  if authorityOnly then authority
  else (ofRole candidates .cloud).foldl (joinGroup candidates)
    ((ofRole candidates .fallback).foldl (joinGroup candidates) authority)

/-- The plan of one group, with indexes of the whole list. -/
def groupPlan (crate : UrlCrate) (candidates : List HubCandidate)
    (locations : Option (List String)) (cached : Option Nat) (authorityOnly : Bool) (stagger : Nat)
    (indexes : List Nat) : RoutePlan :=
  let plan := planRoutes crate {
    candidates := indexes.filterMap (candidates[·]?)
    locations
    cached := cached.bind fun i => indexes.findIdx? (· == i)
    authorityOnly
    stagger }
  let remap (route : PlannedRoute) : PlannedRoute :=
    { route with index := indexes[route.index]?.getD 0 }
  ⟨plan.primary.map remap, plan.deferred.map remap⟩

/-- `grouped_route_plans`. -/
def groupedRoutePlans (crate : UrlCrate) (candidates : List HubCandidate)
    (locations : Option (List String)) (cached : Option Nat) (authorityOnly : Bool)
    (stagger : Nat) : List RoutePlan :=
  (groups candidates authorityOnly).map
    (groupPlan crate candidates locations cached authorityOnly stagger)

/-! ### One resolution -/

inductive HubBackend where
  | remote (url : String) (authoritative : Bool) (hubBuild : Option String) (tried : List String)
      (probes : List ProbeReport)
  | offline (tried : List String) (probes : List ProbeReport)
  | localOnly

/-- What is done to the file of the cache. -/
inductive CacheWrite where
  | untouched
  | store (url : String) (role : HubRole) (rttMs : Option Nat)
  | invalidate

structure CachedHub where
  url : String
  role : HubRole

/-- What a resolution goes by: the surroundings as they are when the credential of the candidate
with an index is read, and the rest as it is at its start. -/
structure Surroundings where
  crate : UrlCrate
  envAt : Nat → CredentialEnv
  locations : Option (List String)
  cache : Option CachedHub

structure Resolution where
  surroundings : Surroundings
  candidates : List HubCandidate
  plans : List RoutePlan
  auth : HubAuth

structure Tally where
  tried : List String := []
  probes : List ProbeReport := []

/-- The configuration is one `Resolution::begin` refuses. -/
def invalidConfig (crate : UrlCrate) (settings : Settings) : Bool :=
  settings.hubConfigError.isSome ||
    match validateCandidates crate settings.effectiveHubCandidates with
    | .ok () => false
    | .error _ => true

/-- The candidate of the cached answer. -/
def cachedIndex (candidates : List HubCandidate) (authorityOnly : Bool) (cache : Option CachedHub) :
    Option Nat :=
  if authorityOnly then none
  else cache.bind fun cached =>
    candidates.findIdx? fun c => c.url == cached.url && c.role == cached.role

/-- `Resolution::begin`. -/
def Resolution.begin (w : Surroundings) (settings : Settings) (authorityOnly : Bool) :
    Except HubBackend Resolution :=
  let candidates := settings.effectiveHubCandidates
  if invalidConfig w.crate settings then .error (.offline settings.serverUrls [])
  else if candidates = [] then .error .localOnly
  else .ok {
    surroundings := w
    candidates
    plans := groupedRoutePlans w.crate candidates w.locations
      (cachedIndex candidates authorityOnly w.cache) authorityOnly
      (settings.probeStaggerMs * 1000000)
    auth := ⟨settings.authToken, candidates⟩ }

namespace Resolution

variable (res : Resolution)

/-- The stages in the order they are opened. -/
def stages : List (List PlannedRoute) :=
  (res.plans.flatMap fun plan => [plan.primary, plan.deferred]).filter (· ≠ [])

def candidate (route : PlannedRoute) : HubCandidate :=
  res.candidates[route.index]?.getD ⟨"", .fallback, .global, [], none⟩

/-- The credential of the candidate can be resolved. -/
def usable (index : Nat) (candidate : HubCandidate) : Bool :=
  match res.auth.credentialFor res.surroundings.crate candidate (res.surroundings.envAt index) with
  | .ok _ => true
  | .error _ => false

/-- `Resolution::slots`. -/
def slots (routes : List PlannedRoute) : List Slot :=
  routes.map fun route => {
    url := (res.candidate route).url
    delay := route.delay
    skip := if res.usable route.index (res.candidate route) then none
      else some .credentialUnavailable }

/-- `identity_matches`. -/
def identityMatches (candidate : HubCandidate) (info : ProbeInfo) : Bool :=
  candidate.hub.all fun expected => info.hubIdentity == some expected

/-- `Resolution::accepts`. -/
def accepts (routes : List PlannedRoute) (slot : Nat) (info : ProbeInfo) : Bool :=
  routes[slot]?.any fun route => identityMatches (res.candidate route) info

/-- `Resolution::record`. -/
def record (tally : Tally) (routes : List PlannedRoute) (outcomes : List SlotOutcome) : Tally :=
  (routes.zip outcomes).foldl (fun tally p =>
    let attempted := match p.2 with
      | .healthy _ => true
      | .failed reason => reason.wasAttempted
    let url := (res.candidate p.1).url
    { tried := if attempted then tally.tried ++ [url] else tally.tried
      probes := tally.probes ++ [ProbeReport.new url p.1.linkClass p.2] }) tally

/-- `Resolution::succeed`. -/
def succeed (route : PlannedRoute) (winner : Winner) (tally : Tally) : HubBackend × CacheWrite :=
  let candidate := res.candidate route
  let rttMs := winner.rtt / 1000000
  (.remote candidate.url (candidate.role = .authoritative) winner.info.buildVersion tally.tried
      tally.probes,
    .store candidate.url candidate.role (if rttMs < 2 ^ 32 then some rttMs else none))

/-- `Resolution::exhausted`. -/
def exhausted (tally : Tally) : HubBackend × CacheWrite :=
  (.offline tally.tried tally.probes, .invalidate)

/-- What is known of a candidate, for the slot of a stage it is known of. -/
inductive Contact where
  | started (index : Nat)
  | failed (index : Nat) (failure : ProbeFailure)
  | accepted (index : Nat) (info : ProbeInfo)
  deriving DecidableEq

/-- A report of a stage, by the candidate the slot is for. -/
def contact (routes : List PlannedRoute) : Report → Contact
  | .started slot => .started ((routes[slot]?.map PlannedRoute.index).getD 0)
  | .failed slot failure => .failed ((routes[slot]?.map PlannedRoute.index).getD 0) failure
  | .accepted slot info => .accepted ((routes[slot]?.map PlannedRoute.index).getD 0) info

/-! ### One stage after the other -/

/-- What a serial resolution returns, with its contacts. -/
structure Serial (σ : Type) where
  state : σ
  answer : HubBackend × CacheWrite
  contacts : List Contact

def walkStages {σ : Type} (probe : SerialProbe σ) (state : σ) (tally : Tally) :
    List (List PlannedRoute) → Serial σ
  | [] => ⟨state, exhausted tally, []⟩
  | routes :: rest =>
    let w := walk (res.accepts routes) probe (res.slots routes) state
    let tally := res.record tally routes w.outcomes
    match w.winner.bind fun winner => routes[winner.slot]?.map fun route => (route, winner) with
    | some (route, winner) =>
      ⟨w.state, res.succeed route winner tally, w.reports.map (contact routes)⟩
    | none =>
      let s := walkStages probe w.state tally rest
      { s with contacts := w.reports.map (contact routes) ++ s.contacts }

/-! ### Racing the stages -/

inductive Phase where
  | racing (routes : List PlannedRoute) (rest : List (List PlannedRoute)) (race : RaceState)
      (tally : Tally)
  | done (answer : HubBackend × CacheWrite)

/-- The next stage, or the end. -/
def openStage (tally : Tally) : List (List PlannedRoute) → Phase
  | [] => .done (exhausted tally)
  | routes :: rest => .racing routes rest (RaceState.begin (res.slots routes)) tally

/-- What follows a race that is dropped. -/
def closeStage (routes : List PlannedRoute) (rest : List (List PlannedRoute)) (race : RaceState)
    (tally : Tally) : Phase :=
  let tally := res.record tally routes race.result.outcomes
  match race.winner.bind fun winner => routes[winner.slot]?.map fun route => (route, winner) with
  | some (route, winner) => .done (res.succeed route winner tally)
  | none => res.openStage tally rest

def step : Phase → RaceEvent → Phase × List Contact
  | .done answer, _ => (.done answer, [])
  | .racing routes rest race tally, event =>
    match event with
    | .drop =>
      if race.over then (res.closeStage routes rest race tally, [])
      else (.racing routes rest race tally, [])
    | event =>
      let (race, reports) := race.step (res.accepts routes) event
      (.racing routes rest race tally, reports.map (contact routes))

/-- The machine of one `resolve_concurrent`. -/
def resolver : Machine Phase RaceEvent Contact := ⟨res.step⟩

/-- The first stage is opened. -/
def start : Phase := res.openStage {} res.stages

end Resolution

open Resolution

/-- `resolve_serial`. -/
def resolveSerial {σ : Type} (w : Surroundings) (settings : Settings) (authorityOnly : Bool)
    (probe : SerialProbe σ) (state : σ) : Serial σ :=
  match Resolution.begin w settings authorityOnly with
  | .error backend => ⟨state, (backend, .untouched), []⟩
  | .ok res => res.walkStages probe state {} res.stages

/-- `resolve_concurrent` after some events of its races: the contacts, and the answer once there is
one. -/
def resolveConcurrent (w : Surroundings) (settings : Settings) (authorityOnly : Bool)
    (events : List RaceEvent) : Phase × List Contact :=
  match Resolution.begin w settings authorityOnly with
  | .error backend => (.done (backend, .untouched), [])
  | .ok res => res.resolver.exec res.start events

end AgentHub.Routes
