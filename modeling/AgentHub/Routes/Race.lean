import AgentHub.Routes.Candidates

/-!
# Planning and racing routes

`planRoutes` orders the candidates of one store by link class, the ones declared for another
location in a second stage.  The routes of a stage are probed: `walk` takes them one after the
other, a race starts each after its delay and takes the first answer that is accepted.

A race is a state with the events of its tasks: a probe starts, a task is joined with what its probe
made of it or with a panic, and the set of tasks is dropped once there is a winner or none is left.
When they happen is the scheduler's and the network's choice.  Durations are in nanoseconds.
-/

namespace AgentHub.Routes

/-! ### Link classes -/

inductive LinkClass where
  | fabric
  | lan
  | tailnet
  | cloud
  deriving DecidableEq, Repr

def LinkClass.rank : LinkClass → Nat
  | .fabric => 0
  | .lan => 1
  | .tailnet => 2
  | .cloud => 3

def fabricWords : List String := ["fabric", "tb", "thunderbolt", "usb4", "p2p"]

def tailnetWords : List String := ["tailnet", "tailscale"]

/-- A word of a list stands in one of the site names, ASCII case aside. -/
def hasWord (candidate : HubCandidate) (words : List String) : Bool :=
  candidate.sites.any fun site =>
    (site.toList.splitOnP fun c => !c.isAlphanum).any fun word =>
      words.any fun wanted => word.map Char.toLower == wanted.toList.map Char.toLower

/-- `tailnet_address`: a name under `.ts.net`, or an address in 100.64.0.0/10. -/
def tailnetAddress (crate : UrlCrate) (url : String) : Bool :=
  match (crate.parse url).bind Url.host with
  | some (.domain name) => ".ts.net".toList.isSuffixOf (name.toList.map Char.toLower)
  | some (.ipv4 address) => (address >>> 22).toNat == 401
  | _ => false

/-- `LinkClass::of`. -/
def LinkClass.of (crate : UrlCrate) (candidate : HubCandidate) : LinkClass :=
  if candidate.role = .cloud then .cloud
  else if hasWord candidate fabricWords then .fabric
  else if hasWord candidate tailnetWords || tailnetAddress crate candidate.url then .tailnet
  else .lan

/-! ### Plans -/

structure PlannedRoute where
  index : Nat
  linkClass : LinkClass
  delay : Nat
  cached : Bool

structure RoutePlan where
  primary : List PlannedRoute
  deferred : List PlannedRoute

structure PlanRequest where
  candidates : List HubCandidate
  locations : Option (List String)
  cached : Option Nat
  authorityOnly : Bool
  stagger : Nat

/-- `site_matches`. -/
def siteMatches (candidate : HubCandidate) (locations : List String) : Bool :=
  candidate.sites.any fun site => locations.contains site

/-- `eligible`. -/
def eligible (candidate : HubCandidate) (linkClass : LinkClass) (locations : Option (List String)) :
    Bool :=
  match locations.filter fun names => !names.isEmpty with
  | none => true
  | some locations =>
    linkClass == .cloud || linkClass == .tailnet || candidate.sites.isEmpty ||
      siteMatches candidate locations

structure RouteEntry where
  index : Nat
  linkClass : LinkClass
  roleRank : Nat
  cached : Bool
  siteMatch : Bool

def RouteEntry.key (e : RouteEntry) : List Nat :=
  [(!e.cached).toNat, e.linkClass.rank, e.roleRank, (!e.siteMatch).toNat, e.index]

/-- `Duration::MAX`. -/
def durationMax : Nat := 2 ^ 64 * 10 ^ 9 - 1

/-- The waves of a stage: one more each time the link class or the role changes. -/
def waves (stagger : Nat) : Nat → Option (Bool × LinkClass × Nat) → List RouteEntry →
    List PlannedRoute
  | _, _, [] => []
  | wave, previous, e :: es =>
    let key := (e.cached, e.linkClass, e.roleRank)
    let wave := if previous.any (· ≠ key) then wave + 1 else wave
    { index := e.index
      linkClass := e.linkClass
      delay := min (stagger * wave) durationMax
      cached := e.cached } :: waves stagger wave (some key) es

/-- `arrange`. -/
def arrange (routes : List RouteEntry) (stagger : Nat) : List PlannedRoute :=
  waves stagger 0 none (routes.mergeSort fun a b => decide (a.key ≤ b.key))

def HubRole.rank : HubRole → Nat
  | .authoritative => 0
  | .fallback => 1
  | .cloud => 2

/-- The candidates a plan places, as entries. -/
def routeEntries (crate : UrlCrate) (request : PlanRequest) : List (HubCandidate × RouteEntry) :=
  (request.candidates.zipIdx.filter fun p =>
      !(request.authorityOnly && p.1.role != .authoritative)).map fun p =>
    (p.1, {
      index := p.2
      linkClass := LinkClass.of crate p.1
      roleRank := p.1.role.rank
      cached := request.cached == some p.2
      siteMatch := request.locations.any (siteMatches p.1) })

/-- `plan_routes`. -/
def planRoutes (crate : UrlCrate) (request : PlanRequest) : RoutePlan :=
  let (primary, deferred) := (routeEntries crate request).partition fun p =>
    eligible p.1 p.2.linkClass request.locations
  { primary := arrange (primary.map Prod.snd) request.stagger
    deferred := arrange (deferred.map Prod.snd) request.stagger }

/-! ### Probing a stage -/

structure ProbeInfo where
  buildVersion : Option String
  hubIdentity : Option String
  deriving DecidableEq

inductive ProbeFailure where
  | credentialUnavailable
  | unhealthy
  | timedOut
  | identityMismatch
  | cancelled
  | skipped
  deriving DecidableEq, Repr

/-- `ProbeFailure::was_attempted`. -/
def ProbeFailure.wasAttempted (failure : ProbeFailure) : Bool := failure != .skipped

inductive SlotOutcome where
  | healthy (rtt : Nat)
  | failed (failure : ProbeFailure)
  deriving DecidableEq

structure Slot where
  url : String
  delay : Nat
  skip : Option ProbeFailure

structure Winner where
  slot : Nat
  info : ProbeInfo
  rtt : Nat

structure RaceResult where
  outcomes : List SlotOutcome
  winner : Option Winner

/-- What becomes known of the slots of a stage while they are probed. -/
inductive Report where
  /-- The URL of the slot is contacted. -/
  | started (slot : Nat)
  | failed (slot : Nat) (failure : ProbeFailure)
  | accepted (slot : Nat) (info : ProbeInfo)
  deriving DecidableEq

/-- What a probe made of its URL within the budget. -/
inductive Probed where
  | healthy (info : ProbeInfo)
  | unhealthy
  | timedOut

/-- An answer that came within the budget. -/
def Probed.ofAnswer : Option ProbeInfo → Probed
  | some info => .healthy info
  | none => .unhealthy

/-- The outcome of a joined probe, what it reports, and whether it wins. -/
def judge (accept : Nat → ProbeInfo → Bool) (slot rtt : Nat) :
    Probed → SlotOutcome × Report × Option Winner
  | .healthy info =>
    if accept slot info then (.healthy rtt, .accepted slot info, some ⟨slot, info, rtt⟩)
    else (.failed .identityMismatch, .failed slot .identityMismatch, none)
  | .unhealthy => (.failed .unhealthy, .failed slot .unhealthy, none)
  | .timedOut => (.failed .timedOut, .failed slot .timedOut, none)

/-! ### Walking -/

/-- A synchronous probe, which may keep a state: its answer, and how long it took. -/
abbrev SerialProbe (σ : Type) := σ → String → (Option ProbeInfo × Nat) × σ

structure Walk (σ : Type) where
  state : σ
  outcomes : List SlotOutcome := []
  winner : Option Winner := none
  reports : List Report := []

/-- One slot of a walk. -/
def Walk.slot {σ : Type} (accept : Nat → ProbeInfo → Bool) (probe : SerialProbe σ) (w : Walk σ)
    (p : Slot × Nat) : Walk σ :=
  if w.winner.isSome then { w with outcomes := w.outcomes ++ [.failed .skipped] }
  else match p.1.skip with
    | some reason => { w with outcomes := w.outcomes ++ [.failed reason] }
    | none =>
      let ((answer, rtt), state) := probe w.state p.1.url
      let (outcome, report, winner) := judge accept p.2 rtt (.ofAnswer answer)
      { state
        outcomes := w.outcomes ++ [outcome]
        winner
        reports := w.reports ++ [.started p.2, report] }

/-- `walk`. -/
def walk {σ : Type} (accept : Nat → ProbeInfo → Bool) (probe : SerialProbe σ) (slots : List Slot)
    (state : σ) : Walk σ :=
  slots.zipIdx.foldl (Walk.slot accept probe) { state }

/-! ### Racing -/

structure RaceState where
  slots : List Slot
  /-- The tasks that are not joined. -/
  pending : List Nat
  started : List Nat
  outcomes : Nat → Option SlotOutcome
  winner : Option Winner

/-- The tasks of a race, one for each slot that may be contacted. -/
def RaceState.begin (slots : List Slot) : RaceState where
  slots
  pending := (slots.zipIdx.filter fun p => p.1.skip.isNone).map Prod.snd
  started := []
  outcomes i := (slots[i]?.bind Slot.skip).map .failed
  winner := none

inductive RaceEvent where
  /-- The delay of a task is over and its probe begins. -/
  | start (slot : Nat)
  | join (slot : Nat) (probed : Probed) (rtt : Nat)
  /-- A task that panicked is joined. -/
  | broke (slot : Nat)
  /-- The set of tasks is dropped. -/
  | drop

/-- There is a winner, or no task is left. -/
def RaceState.over (r : RaceState) : Bool := r.winner.isSome || r.pending.isEmpty

/-- An event of a race.  One that does not fit its state changes nothing. -/
def RaceState.step (accept : Nat → ProbeInfo → Bool) (r : RaceState) :
    RaceEvent → RaceState × List Report
  | .start slot =>
    if slot ∈ r.pending ∧ slot ∉ r.started then
      ({ r with started := slot :: r.started }, [.started slot])
    else (r, [])
  | .join slot probed rtt =>
    if r.winner = none ∧ slot ∈ r.pending ∧ slot ∈ r.started then
      let (outcome, report, winner) := judge accept slot rtt probed
      ({ r with
          pending := r.pending.erase slot
          outcomes := Function.update r.outcomes slot (some outcome)
          winner },
        [report])
    else (r, [])
  | .broke slot =>
    if r.winner = none ∧ slot ∈ r.pending ∧ slot ∈ r.started then
      ({ r with pending := r.pending.erase slot }, [.failed slot .unhealthy])
    else (r, [])
  | .drop => (r, [])

/-- The result of a race whose tasks are dropped. -/
def RaceState.result (r : RaceState) : RaceResult where
  outcomes := (List.range r.slots.length).map fun i =>
    (r.outcomes i).getD
      (.failed (if i ∉ r.started then .skipped
        else if r.winner.isSome then .cancelled else .unhealthy))
  winner := r.winner

/-! ### Reports -/

/-- `settings::redact_url`. -/
def redactUrl (value : String) : String :=
  let rec authority : List Char → List Char × List Char
    | ':' :: '/' :: '/' :: cs => ([':', '/', '/'], cs)
    | c :: cs => let (front, rest) := authority cs; (c :: front, rest)
    | [] => ([], [])
  let (front, rest) := authority value.toList
  let span := rest.takeWhile fun c => c != '/' && c != '?' && c != '#'
  let host := (span.reverse.takeWhile (· != '@')).reverse
  let user := span.take (span.length - host.length - 1)
  if ¬Text.contains value "://" ∨ '@' ∉ span then value
  else
    String.ofList (front ++ (if ':' ∈ user then "***:***@".toList else "***@".toList) ++ host ++
      rest.drop span.length)

structure ProbeReport where
  url : String
  linkClass : LinkClass
  rttMs : Option Nat
  error : Option ProbeFailure

/-- `ProbeReport::new`. -/
def ProbeReport.new (url : String) (linkClass : LinkClass) (outcome : SlotOutcome) : ProbeReport :=
  match outcome with
  | .healthy rtt => ⟨redactUrl url, linkClass, some (min (rtt / 1000000) (2 ^ 64 - 1)), none⟩
  | .failed reason => ⟨redactUrl url, linkClass, none, some reason⟩

end AgentHub.Routes
