import AgentHub.Cloud.Equiv.Chronology
import AgentHub.Cloud.Equiv.Push
import AgentHub.Cloud.Serve
import AgentHub.Latest
import Mathlib.Data.List.TakeWhile
import Mathlib.Data.String.Basic

/-!
# The presence a hub pushes

A push files each event once in the history, and the current row of an agent is a register that
keeps the greatest timestamp as a text (`mirrors_deliver`).  So the rows depend on the events alone,
and the current row is that of the latest event where the greatest text is the latest time
(`syncPushPresence_converges_iff`).
-/

namespace AgentHub.Cloud

open AgentHub.Json AgentHub.Outbox

/-! ### Events -/

/-- The milliseconds of a canonical timestamp. -/
def PresenceEvent.sentMs (ev : PresenceEvent) : Int :=
  (isoDates.parseTimestampUtcMs ev.timestampUtc).getD 0

/-- An event as the route passes it on. -/
structure PresenceEvent.Canonical (ev : PresenceEvent) : Prop where
  agent : (Js.trim ev.agent).isEmpty = false
  status : (Js.trim ev.status).isEmpty = false
  timestamp : ∃ ms : Int, ms.natAbs ≤ maxTime ∧ ev.timestampUtc = formatTimestampUtc ms

theorem Dates.parse_formatTimestampUtc (dates : Dates) {ms : Int} (h : ms.natAbs ≤ maxTime) :
    dates.parseTimestampUtcMs (formatTimestampUtc ms) = some ms := by
  have hms : ms * 1000 / 1000 = ms := by omega
  rw [formatTimestampUtc_eq, dates.parse_microsecondText (by rwa [hms]), hms]

namespace PresenceEvent

variable {ev : PresenceEvent}

theorem Canonical.sentMs_spec (h : ev.Canonical) (dates : Dates) :
    ev.sentMs.natAbs ≤ maxTime ∧ ev.timestampUtc = formatTimestampUtc ev.sentMs ∧
      dates.parseTimestampUtcMs ev.timestampUtc = some ev.sentMs := by
  obtain ⟨ms, hbound, htext⟩ := h.timestamp
  have hsent : ev.sentMs = ms := by
    rw [sentMs, htext, isoDates.parse_formatTimestampUtc hbound, Option.getD_some]
  rw [hsent, htext]
  exact ⟨hbound, rfl, dates.parse_formatTimestampUtc hbound⟩

end PresenceEvent

/-- A text with something else than space is not blank. -/
theorem trim_nonblank {s : String} {c : Char} (hmem : c ∈ s.toList) (hc : Js.isSpace c = false) :
    (Js.trim s).isEmpty = false := by
  have hkeep : ∀ cs : List Char, c ∈ cs → c ∈ cs.dropWhile Js.isSpace := by
    intro cs hcs
    rw [← List.takeWhile_append_dropWhile (p := Js.isSpace) (l := cs)] at hcs
    rcases List.mem_append.1 hcs with htake | hdrop
    · rw [List.mem_takeWhile_imp htake] at hc
      cases hc
    · exact hdrop
  have htrim : c ∈ (Js.trim s).toList := by
    rw [Js.trim, String.toList_ofList, List.mem_reverse]
    exact List.mem_reverse.1 (List.mem_reverse.2 (hkeep _ (List.mem_reverse.2 (hkeep _ hmem))))
  rw [String.isEmpty_eq_false_iff]
  intro hempty
  rw [hempty] at htrim
  cases htrim

theorem formatTimestampUtc_nonblank (ms : Int) :
    (Js.trim (formatTimestampUtc ms)).isEmpty = false := by
  have hmem : 'Z' ∈ (formatTimestampUtc ms).toList := by
    rw [formatTimestampUtc, String.toList_ofList]
    simp
  exact trim_nonblank hmem (by decide)

theorem nonEmpty_nonblank {val name trimmed : String} {maxLen : Nat}
    (h : nonEmpty val name maxLen = .ok trimmed) : (Js.trim trimmed).isEmpty = false := by
  simp only [nonEmpty, check_bind_eq_ok, require_eq_ok] at h
  obtain ⟨hempty, -, -, hpure⟩ := h
  obtain rfl : Js.trim val = trimmed := Except.ok.inj hpure
  rw [Js.trim_trim]
  simpa using hempty

theorem requiredString_nonblank {v : Option Value} {name trimmed : String} {maxLen : Nat}
    (h : requiredString v name maxLen = .ok trimmed) : (Js.trim trimmed).isEmpty = false := by
  unfold requiredString at h
  split at h
  · exact nonEmpty_nonblank h
  · exact nonEmpty_nonblank h
  · cases h

theorem validateOptionalString_nonblank {v : Option Value} {name trimmed : String} {maxLen : Nat}
    (h : validateOptionalString v name maxLen = .ok (some trimmed)) :
    (Js.trim trimmed).isEmpty = false := by
  unfold validateOptionalString at h
  split at h
  · cases h
  · dsimp only at h
    split_ifs at h with hempty
    · cases h
    · simp only [check_bind_eq_ok] at h
      obtain ⟨-, -, hpure⟩ := h
      obtain rfl := Option.some.inj (Except.ok.inj hpure)
      rw [Js.trim_trim]
      simpa using hempty
  · cases h

/-- What the route passes on is canonical, as far as `Date.parse` returns time values. -/
theorem buildPresenceEvent_canonical {env : Env} {draws : Nat → Moment}
    (hdates : ∀ s ms, env.dates.parse s = some ms → ms.natAbs ≤ maxTime)
    (hnow : (draws 0).now.natAbs ≤ maxTime) {raw : Value} {ev : PresenceEvent}
    (h : buildPresenceEvent env draws raw = .ok ev) : ev.Canonical := by
  have hparts : ∃ originId : Value, (do
      let agent ← requiredString (raw.field? "agent") "agent" maxSenderLen
      let core ← validatePresenceCore raw
      let timestampUtc ← syncItemTimestamp env.toWorker (raw.field? "timestamp_utc") (draws 0).now
      let protocolVersion ← syncItemVersion (raw.field? "protocol_version")
      let ttlSeconds ← coerceBoundedInt (raw.field? "ttl_seconds") "ttl_seconds" 1 86400
      return {
        originId, timestampUtc, protocolVersion, agent, ttlSeconds
        status := core.status
        sessionId := some core.sessionId |>.filter fun s => !s.isEmpty
        capabilities := core.capabilities
        metadata := core.metadata : PresenceEvent }) = (Except.ok ev : Checked PresenceEvent) := by
    -- whatever the origin id is, the other fields are checked the same way
    unfold buildPresenceEvent at h
    split at h
    · split_ifs at h
      · exact ⟨_, h⟩
      · cases h
    · cases h
  simp only [bind_eq_ok] at hparts
  obtain ⟨originId, agent, hagent, core, hcore, timestampUtc, htimestamp, _, _, _, _, hpure⟩ :=
    hparts
  obtain rfl := Except.ok.inj hpure
  refine ⟨requiredString_nonblank hagent, ?_, ?_⟩
  · -- the status is the default or a checked text
    simp only [validatePresenceCore, bind_eq_ok] at hcore
    obtain ⟨status, hstatus, _, _, _, _, _, _, _, _, _, _, _, _, hpure⟩ := hcore
    obtain rfl := Except.ok.inj hpure
    cases status with
    | none => exact (by decide : (Js.trim "online").isEmpty = false)
    | some status => exact validateOptionalString_nonblank hstatus
  · -- the stamp is now, or the moment the event's own text reads as
    show ∃ ms : Int, ms.natAbs ≤ maxTime ∧ timestampUtc = formatTimestampUtc ms
    unfold syncItemTimestamp at htimestamp
    split_ifs at htimestamp
    · exact ⟨_, hnow, (Except.ok.inj htimestamp).symm⟩
    · split at htimestamp
      · unfold validateTimestampUtc at htimestamp
        split at htimestamp
        · cases htimestamp
        case h_2 ms hms =>
          simp only [check_bind_eq_ok] at htimestamp
          exact ⟨ms, hdates _ ms hms, (Except.ok.inj htimestamp.2).symm⟩
      · cases htimestamp

/-! ### Pushes as registers -/

/-- Events by their ids, filed by their agents. -/
def presenceFiling : Filing PresenceEvent Value String String where
  id ev := ev.originId
  key ev := ev.agent
  rank ev := ev.timestampUtc

namespace Store

/-- The current row of an event. -/
def currentRow (originHub : String) (ev : PresenceEvent) : PresenceRow :=
  let presence := PresenceEvent.presence ev
  { presence with
    keyOrigin := originHub
    originHub := some originHub
    expiresAtMs := ev.sentMs + presence.ttlSeconds * 1000 }

/-- Nothing of a hub is there. -/
structure Fresh (originHub : String) (store : Store) : Prop where
  presenceSync : ∀ x ∈ store.presenceSync, x.1 ≠ originHub
  history : ∀ row ∈ store.presenceHistory, row.originHub ≠ some originHub
  presence : ∀ row ∈ store.presence.rows, row.keyOrigin ≠ originHub

/-- The rows of a hub in the history. -/
def historyOf (store : Store) (originHub : String) : List PresenceHistoryRow :=
  store.presenceHistory.filter fun row => row.originHub = some originHub

/-- The store holds what the registers do. -/
structure Mirrors (originHub : String) (r : Registers PresenceEvent String) (store : Store) :
    Prop where
  presenceSync : ∀ id, (originHub, id) ∈ store.presenceSync ↔ id ∈ r.taken.map (·.originId)
  history : (store.historyOf originHub).map (fun row => (row.originId, row.toPresence)) =
    r.taken.map fun ev => (some ev.originId, PresenceEvent.presence ev)
  presence : ∀ agent, store.presence.get? (originHub, agent) =
    (r.held agent).map (currentRow originHub)

theorem Fresh.mirrors {originHub : String} {store : Store} (h : store.Fresh originHub) :
    store.Mirrors originHub Registers.empty where
  presenceSync id := iff_of_false (fun hmem => h.presenceSync _ hmem rfl) (by simp [Registers.empty])
  history := by
    have hnone : store.historyOf originHub = [] :=
      List.filter_eq_nil_iff.2 fun row hrow => by simpa using h.history row hrow
    rw [hnone]
    rfl
  presence agent := by
    refine Option.eq_none_iff_forall_ne_some.2 fun row hrow => ?_
    obtain ⟨hmem, hkey⟩ := Table.get?_eq_some.1 hrow
    exact h.presence row hmem (congrArg Prod.fst hkey)

/-- One event is one element for the registers. -/
theorem Mirrors.syncPresenceEvent {originHub : String} {r : Registers PresenceEvent String}
    {store : Store} (h : store.Mirrors originHub r) (dates : Dates) {ev : PresenceEvent}
    (hev : ev.Canonical) (now : Int) :
    ∃ after result, store.syncPresenceEvent dates originHub ev now .none = (after, some result) ∧
      after.Mirrors originHub (r.receive presenceFiling ev) := by
  obtain ⟨-, htext, hparse⟩ := hev.sentMs_spec dates
  -- no check of the insertion refuses a canonical event
  have hblank : ¬ ([ev.agent, ev.status, ev.timestampUtc].any
      fun s => (Js.trim s).isEmpty) = true := by
    simp [hev.agent, hev.status, htext, formatTimestampUtc_nonblank]
  have hcurrent := h.presence ev.agent
  have hany : ((store.presence.get? (originHub, ev.agent)).any
        fun row => ev.timestampUtc < row.timestampUtc) =
      (r.held ev.agent).any fun b => ev.timestampUtc < b.timestampUtc := by
    rw [hcurrent, Option.any_map]
    rfl
  have hcontext : ((store.presence.get? (originHub, ev.agent)).bind
      fun row => row.networkContext) = none := by
    rw [hcurrent]
    cases r.held ev.agent <;> rfl
  unfold Store.syncPresenceEvent
  rw [if_neg hblank]
  -- an origin id met before: the event is a duplicate on both sides
  by_cases hseen : ev.originId ∈ r.taken.map (·.originId)
  · have hreceive : r.receive presenceFiling ev = r := if_pos hseen
    rw [if_pos ((h.presenceSync _).2 hseen), hreceive]
    exact ⟨store, _, rfl, h⟩
  rw [if_neg (mt (h.presenceSync _).1 hseen), if_neg (by decide)]
  dsimp only
  rw [if_neg (by decide), hany, hcontext, hparse]
  have hreceive : r.receive presenceFiling ev = ⟨r.taken ++ [ev],
      if (r.held ev.agent).any fun b => ev.timestampUtc < b.timestampUtc then r.held
      else Function.update r.held ev.agent (some ev)⟩ := if_neg hseen
  -- the register of seen ids grows by the event's
  have hsync : ∀ id, (originHub, id) ∈ store.presenceSync ++ [(originHub, ev.originId)] ↔
      id ∈ (r.taken ++ [ev]).map (·.originId) := by
    intro id
    rw [List.mem_append, h.presenceSync, List.map_append, List.mem_append]
    simp
  let entry : PresenceHistoryRow :=
    { PresenceEvent.presence ev with
      originHub := some originHub
      originId := some ev.originId
      ingestedAtUtc := formatTimestampUtc now }
  -- and so does the history
  have hhistory : ((store.presenceHistory ++ [entry]).filter
        fun row => row.originHub = some originHub).map (fun row => (row.originId, row.toPresence)) =
      (r.taken ++ [ev]).map fun ev => (some ev.originId, PresenceEvent.presence ev) := by
    have hentry : [entry].filter (fun row => row.originHub = some originHub) = [entry] :=
      List.filter_cons_of_pos (by simp [entry])
    rw [List.filter_append, List.map_append, List.map_append, hentry]
    exact congrArg (· ++ _) h.history
  rw [hreceive]
  by_cases hbelow : ((r.held ev.agent).any fun b => ev.timestampUtc < b.timestampUtc) = true
  · -- the current row is of a later event
    rw [if_pos hbelow, if_pos hbelow]
    exact ⟨_, _, rfl, hsync, hhistory, h.presence⟩
  · -- the event becomes the current row of its agent
    rw [if_neg hbelow, if_neg hbelow, if_neg (by decide)]
    refine ⟨_, _, rfl, hsync, hhistory, fun agent => ?_⟩
    show (store.presence.put (currentRow originHub ev)).get? (originHub, agent) =
      (Function.update r.held ev.agent (some ev) agent).map (currentRow originHub)
    rw [Table.get?_put]
    -- the row of that agent alone is new
    by_cases hagent : agent = ev.agent
    · have hkey : (originHub, agent) = PresenceRow.key (currentRow originHub ev) :=
        congrArg (originHub, ·) hagent
      rw [if_pos hkey, hagent, Function.update_self]
      rfl
    · have hkey : (originHub, agent) ≠ PresenceRow.key (currentRow originHub ev) :=
        fun heq => hagent (congrArg Prod.snd heq)
      rw [if_neg hkey, Function.update_of_ne hagent]
      exact h.presence agent

/-- So are the events of one push. -/
theorem Mirrors.syncPresenceEvents {originHub : String} (dates : Dates) {visit : Visit}
    (hclean : ∀ i, visit.presenceFault i = .none) {events : List PresenceEvent}
    (hevents : ∀ ev ∈ events, ev.Canonical) {i : Nat} {result : PresencePushResult} {store : Store}
    {r : Registers PresenceEvent String} (h : store.Mirrors originHub r) :
    (Store.syncPresenceEvents dates originHub visit i result store events).1.Mirrors originHub
      (events.foldl (Registers.receive presenceFiling) r) := by
  induction events generalizing i result store r with
  | nil => exact h
  | cons ev evs ih =>
    obtain ⟨after, answer, hstep, hafter⟩ :=
      h.syncPresenceEvent dates (hevents ev List.mem_cons_self) visit.now
    rw [Store.syncPresenceEvents, hclean, hstep]
    exact ih (fun other hother => hevents other (List.mem_cons_of_mem _ hother)) hafter

/-! ### Deliveries -/

/-- A push that is carried out. -/
structure Delivery where
  events : List PresenceEvent
  visit : Visit

/-- Some pushes of a hub one after the other. -/
def deliver (dates : Dates) (originHub : String) (store : Store) (deliveries : List Delivery) :
    Store :=
  deliveries.foldl (fun store d => (store.syncPushPresence dates originHub d.events d.visit).1) store

/-- Between them the pushes have these events, each of them at least once. -/
structure Covers (deliveries : List Delivery) (events : List PresenceEvent) : Prop where
  complete : ∀ ev, (∃ d ∈ deliveries, ev ∈ d.events) ↔ ev ∈ events
  clean : ∀ d ∈ deliveries, ∀ i, d.visit.presenceFault i = .none

theorem mirrors_deliver {originHub : String} (dates : Dates) {deliveries : List Delivery}
    (hclean : ∀ d ∈ deliveries, ∀ i, d.visit.presenceFault i = .none)
    (hevents : ∀ d ∈ deliveries, ∀ ev ∈ d.events, ev.Canonical) {store : Store}
    {r : Registers PresenceEvent String} (h : store.Mirrors originHub r) :
    (store.deliver dates originHub deliveries).Mirrors originHub
      ((deliveries.flatMap (·.events)).foldl (Registers.receive presenceFiling) r) := by
  induction deliveries generalizing store r with
  | nil => exact h
  | cons d ds ih =>
    have hpush : (store.syncPushPresence dates originHub d.events d.visit).1.Mirrors originHub
        (d.events.foldl (Registers.receive presenceFiling) r) :=
      h.syncPresenceEvents dates (hclean d List.mem_cons_self) (hevents d List.mem_cons_self)
    rw [List.flatMap_cons, List.foldl_append]
    exact ih (fun e he => hclean e (List.mem_cons_of_mem _ he))
      (fun e he => hevents e (List.mem_cons_of_mem _ he)) hpush

/-- The latest of the timestamps of an agent is current, and nothing depends on how they came. -/
structure Converged (dates : Dates) (originHub : String) (store : Store)
    (events : List PresenceEvent) (deliveries : List Delivery) : Prop where
  history : ∀ ev ∈ events,
    (((store.deliver dates originHub deliveries).historyOf originHub).filter
      fun row => row.originId = some ev.originId).map (·.toPresence) = [PresenceEvent.presence ev]
  current : ∀ ev ∈ events, ∃ last ∈ events, last.agent = ev.agent ∧
    (∀ other ∈ events, other.agent = ev.agent → other.sentMs ≤ last.sentMs) ∧
    ((store.deliver dates originHub deliveries).presence.get? (originHub, ev.agent)).map
      (·.timestampUtc) = some last.timestampUtc
  independent : (∀ a ∈ events, ∀ b ∈ events, a.agent = b.agent → a.timestampUtc = b.timestampUtc →
      a = b) →
    ∀ deliveries', Covers deliveries' events → ∀ agent,
      (store.deliver dates originHub deliveries').presence.get? (originHub, agent) =
        (store.deliver dates originHub deliveries).presence.get? (originHub, agent)

/-- The times of the events of an agent. -/
def timesOf (events : List PresenceEvent) (agent : String) : List Int :=
  (events.filter fun ev => ev.agent = agent).map (·.sentMs)

theorem mem_timesOf {events : List PresenceEvent} {agent : String} {ms : Int} :
    ms ∈ timesOf events agent ↔ ∃ ev ∈ events, ev.agent = agent ∧ ev.sentMs = ms := by
  simp [timesOf, and_assoc]

section
variable (dates : Dates) {originHub : String} {store : Store} (hfresh : store.Fresh originHub)
  {events : List PresenceEvent} (hevents : ∀ ev ∈ events, ev.Canonical)
  (hids : ∀ a ∈ events, ∀ b ∈ events, a.originId = b.originId → a = b)
include hfresh hevents hids

/-- After pushes that cover some events the registers hold them. -/
theorem Covers.mirrors {deliveries : List Delivery} (hcovers : Covers deliveries events) :
    ∃ r, (store.deliver dates originHub deliveries).Mirrors originHub r ∧
      r.Holds presenceFiling events := by
  have hmem : ∀ ev, ev ∈ deliveries.flatMap (·.events) ↔ ev ∈ events := by
    intro ev
    rw [List.mem_flatMap, hcovers.complete]
  have hcanonical : ∀ d ∈ deliveries, ∀ ev ∈ d.events, ev.Canonical := fun d hd ev hev =>
    hevents ev ((hcovers.complete ev).1 ⟨d, hd, hev⟩)
  have hholds : Registers.Holds presenceFiling (deliveries.flatMap (·.events))
      ((deliveries.flatMap (·.events)).foldl (Registers.receive presenceFiling) Registers.empty) :=
    Registers.holds_foldl_receive fun a ha b hb => hids a ((hmem a).1 ha) b ((hmem b).1 hb)
  exact ⟨_, mirrors_deliver dates hcovers.clean hcanonical hfresh.mirrors,
    hholds.nodup, fun ev => (hholds.mem_taken ev).trans (hmem ev),
    fun hk => ⟨(hmem _).1 (hholds.mem_of_held hk).1, (hholds.mem_of_held hk).2⟩,
    fun ev hev => hholds.greatest ev ((hmem ev).2 hev)⟩

end

/-- Each event is one row of the history. -/
theorem Mirrors.history_eq {originHub : String} {store : Store} {events : List PresenceEvent}
    {r : Registers PresenceEvent String} (h : store.Mirrors originHub r)
    (hr : r.Holds presenceFiling events) {ev : PresenceEvent} (hev : ev ∈ events) :
    ((store.historyOf originHub).filter fun row => row.originId = some ev.originId).map
      (·.toPresence) = [PresenceEvent.presence ev] := by
  have hone : (r.taken.filter fun other => other.originId = ev.originId) = [ev] :=
    Registers.filter_id_eq hr.nodup ((hr.mem_taken ev).2 hev)
  calc ((store.historyOf originHub).filter fun row => row.originId = some ev.originId).map
        (·.toPresence)
      = (((store.historyOf originHub).map fun row => (row.originId, row.toPresence)).filter
          fun x => x.1 = some ev.originId).map Prod.snd := by
        rw [List.filter_map, List.map_map]
        rfl
    _ = ((r.taken.map fun ev => (some ev.originId, PresenceEvent.presence ev)).filter
          fun x => x.1 = some ev.originId).map Prod.snd := by rw [h.history]
    _ = (r.taken.filter fun other => other.originId = ev.originId).map PresenceEvent.presence := by
        rw [List.filter_map, List.map_map]
        simp [Function.comp_def]
    _ = [PresenceEvent.presence ev] := by rw [hone, List.map_singleton]

/-- The current row is of an event with the greatest timestamp as a text. -/
theorem Mirrors.current_eq {originHub : String} {store : Store} {events : List PresenceEvent}
    {r : Registers PresenceEvent String} (h : store.Mirrors originHub r)
    (hr : r.Holds presenceFiling events) {ev : PresenceEvent} (hev : ev ∈ events) :
    ∃ held ∈ events, held.agent = ev.agent ∧
      (∀ other ∈ events, other.agent = ev.agent → ¬ held.timestampUtc < other.timestampUtc) ∧
      store.presence.get? (originHub, ev.agent) = some (currentRow originHub held) := by
  obtain ⟨held, hheld, -⟩ := hr.greatest ev hev
  obtain ⟨hmem, hagent⟩ := hr.mem_of_held hheld
  refine ⟨held, hmem, hagent, fun other hother hsame => ?_, ?_⟩
  · obtain ⟨b, hb, hle⟩ := hr.greatest other hother
    have hkey : presenceFiling.key other = presenceFiling.key ev := hsame
    rw [hkey, hheld] at hb
    obtain rfl := Option.some.inj hb
    exact not_lt.2 hle
  · rw [h.presence]
    exact congrArg (Option.map (currentRow originHub)) hheld

/-- What a hub pushes converges exactly when, for each agent, the timestamps are in the order of
their times. -/
theorem syncPushPresence_converges_iff (dates : Dates) {originHub : String} {store : Store}
    (hfresh : store.Fresh originHub) {events : List PresenceEvent}
    (hevents : ∀ ev ∈ events, ev.Canonical)
    (hids : ∀ a ∈ events, ∀ b ∈ events, a.originId = b.originId → a = b)
    {deliveries : List Delivery} (hcovers : Covers deliveries events) :
    Converged dates originHub store events deliveries ↔
      ∀ ev ∈ events, SortsAsText (timesOf events ev.agent) := by
  obtain ⟨r, hmirrors, hr⟩ := hcovers.mirrors dates hfresh hevents hids
  -- the row kept is the greatest as text; it is the latest if text and time agree
  have hlatest : ∀ ev ∈ events, ∀ held ∈ events, held.agent = ev.agent →
      (∀ other ∈ events, other.agent = ev.agent → ¬ held.timestampUtc < other.timestampUtc) →
      ((∀ other ∈ events, other.agent = ev.agent → other.sentMs ≤ held.sentMs) ↔
        SortsAsText (timesOf events ev.agent)) := by
    intro ev _ held hheld hagent hgreatest
    -- the stamps lie in the range that the format covers
    have hbound : ∀ t ∈ timesOf events ev.agent, t.natAbs ≤ maxTime := by
      intro t ht
      obtain ⟨other, hother, -, rfl⟩ := mem_timesOf.1 ht
      exact ((hevents other hother).sentMs_spec dates).1
    have htexts : ∀ t ∈ timesOf events ev.agent,
        ¬ formatTimestampUtc held.sentMs < formatTimestampUtc t := by
      intro t ht
      obtain ⟨other, hother, hsame, rfl⟩ := mem_timesOf.1 ht
      rw [← ((hevents other hother).sentMs_spec dates).2.1,
        ← ((hevents held hheld).sentMs_spec dates).2.1]
      exact hgreatest other hother hsame
    have htimes := latest_iff hbound (mem_timesOf.2 ⟨held, hheld, hagent, rfl⟩) htexts
    rw [← htimes]
    constructor
    · intro h t ht
      obtain ⟨other, hother, hsame, rfl⟩ := mem_timesOf.1 ht
      exact h other hother hsame
    · exact fun h other hother hsame => h _ (mem_timesOf.2 ⟨other, hother, hsame, rfl⟩)
  constructor
  · intro hconverged ev hev
    -- the current row is the one kept in the register
    obtain ⟨held, hheld, hagent, hgreatest, hrow⟩ := hmirrors.current_eq hr hev
    obtain ⟨last, hlast, -, hall, htext⟩ := hconverged.current ev hev
    rw [hrow] at htext
    have hsame : held.timestampUtc = last.timestampUtc := Option.some.inj htext
    have hsent : held.sentMs = last.sentMs := by
      rw [PresenceEvent.sentMs, PresenceEvent.sentMs, hsame]
    refine (hlatest ev hev held hheld hagent hgreatest).1 fun other hother hother' => ?_
    rw [hsent]
    exact hall other hother hother'
  · intro hsorts
    refine ⟨fun ev hev => hmirrors.history_eq hr hev, fun ev hev => ?_, ?_⟩
    · obtain ⟨held, hheld, hagent, hgreatest, hrow⟩ := hmirrors.current_eq hr hev
      refine ⟨held, hheld, hagent, (hlatest ev hev held hheld hagent hgreatest).2 (hsorts ev hev), ?_⟩
      rw [hrow]
      rfl
    · intro hdistinct deliveries' hcovers' agent
      -- another delivery fills a register of the same holdings
      obtain ⟨r', hmirrors', hr'⟩ := hcovers'.mirrors dates hfresh hevents hids
      rw [hmirrors.presence, hmirrors'.presence,
        hr'.held_eq hr (fun _ => Iff.rfl) fun a ha b hb hkey hrank => hdistinct a ha b hb hkey hrank]

/-! ### Samples -/

/-- An event at a time. -/
def sampleEvent (id ms : Int) : PresenceEvent where
  originId := .int id
  timestampUtc := formatTimestampUtc ms
  protocolVersion := "1.0"
  agent := "alice"
  status := "online"
  sessionId := none
  capabilities := []
  metadata := .obj []
  ttlSeconds := none

theorem sampleEvent_canonical (id : Int) {ms : Int} (h : ms.natAbs ≤ maxTime) :
    (sampleEvent id ms).Canonical where
  agent := (by decide : (Js.trim "alice").isEmpty = false)
  status := (by decide : (Js.trim "online").isEmpty = false)
  timestamp := ⟨ms, h, rfl⟩

/-- A visit at which nothing fails. -/
def calmVisit : Visit where
  now := 0
  fault _ := .none
  late _ := false
  presenceFault _ := .none
  replyLost := false

theorem empty_fresh (originHub : String) : Store.empty.Fresh originHub where
  presenceSync _ h := by cases h
  history _ h := by cases h
  presence _ h := by cases h

/-- Two events of this century, of which the later comes first and once more. -/
theorem syncPushPresence_converges_sample :
    Converged isoDates "hub" Store.empty [sampleEvent 1 0, sampleEvent 2 1000]
      [⟨[sampleEvent 2 1000], calmVisit⟩, ⟨[sampleEvent 1 0, sampleEvent 2 1000], calmVisit⟩] := by
  refine (syncPushPresence_converges_iff isoDates (empty_fresh "hub") ?_ ?_ ⟨?_, ?_⟩).2 ?_
  · rintro ev (_ | ⟨_, _ | ⟨_, ⟨⟩⟩⟩)
    · exact sampleEvent_canonical 1 (by decide)
    · exact sampleEvent_canonical 2 (by decide)
  · rintro a (_ | ⟨_, _ | ⟨_, ⟨⟩⟩⟩) b (_ | ⟨_, _ | ⟨_, ⟨⟩⟩⟩) hid <;> first | rfl | cases hid
  · intro ev
    simp
    tauto
  · rintro d (_ | ⟨_, _ | ⟨_, ⟨⟩⟩⟩) i <;> rfl
  · have htimes : SortsAsText [0, 1000] := by decide
    rintro ev (_ | ⟨_, _ | ⟨_, ⟨⟩⟩⟩) <;> exact htimes

/-- An event at the start of the year -2 and one at the start of the year -1, which stays out. -/
def earlyEvents : List PresenceEvent :=
  [sampleEvent 1 (-62230291200000), sampleEvent 2 (-62198755200000)]

theorem syncPushPresence_keeps_older :
    ¬ Converged isoDates "hub" Store.empty earlyEvents [⟨earlyEvents, calmVisit⟩] := by
  intro h
  have hrow : ((Store.empty.deliver isoDates "hub" [⟨earlyEvents, calmVisit⟩]).presence.get?
      ("hub", "alice")).map (·.timestampUtc) = some "-000002-01-01T00:00:00.000000Z" := by
    decide +kernel
  obtain ⟨last, hlast, -, hall, htext⟩ :=
    h.current (sampleEvent 2 (-62198755200000)) (List.mem_cons_of_mem _ List.mem_cons_self)
  have hlater := hall (sampleEvent 2 (-62198755200000))
    (List.mem_cons_of_mem _ List.mem_cons_self) rfl
  have holder := Option.some.inj (hrow.symm.trans htext)
  rcases List.mem_cons.1 hlast with rfl | hlast
  · revert hlater
    decide +kernel
  · rw [List.mem_singleton.1 hlast] at holder
    revert holder
    decide +kernel

end Store

end AgentHub.Cloud
