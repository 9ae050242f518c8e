import AgentHub.Cloud.Equiv.Content
import AgentHub.Network.Equiv.Lineage

/-!
# What another hub holds of a message

In every run the row a push stored was made from the message of an entry, by the validator
(`StoredOf`).  With what the validator does to a message this says exactly which messages another
hub holds as they were written (`replication_content`).
-/

namespace AgentHub.Network

open AgentHub.Json AgentHub.Cloud AgentHub.Cloud.BusLog AgentHub.Sync

variable {d : Deployment} {s : Fleet} {tr events : List FleetEvent} {a b name : HubName}
  {id : StreamId}

/-! ### Rows and the entries they were made from -/

/-- The row was made from the message of an entry. -/
def StoredOf (d : Deployment) (moment : Moment) (batch : List (StreamId × Message)) (id : StreamId)
    (row : Row) : Prop :=
  ∃ m k item, (id, m) ∈ batch ∧
    buildSyncPushItem d.worker (hubItem d.worker m) moment.now (moment.uuidv7 k) = .ok item ∧
    row.toMessageFields = item.toMessageFields

namespace Fleet

/-- The entries whose items were built go along with these items. -/
theorem mem_zip_built {ids : List StreamId} {built : List (Value × Checked InsertMessageInput)}
    {results : List ItemResult} (hlen : built.length ≤ ids.length)
    {x : StreamId × Value × Checked InsertMessageInput} {result : ItemResult}
    (h : (x, result) ∈ ((ids.zip built).filter fun x => x.2.2.isOk).zip results) :
    ∃ item, x.2.2 = .ok item ∧
      (item, result) ∈ (built.filterMap fun x => x.2.toOption).zip results := by
  obtain ⟨item, hitem, hmem⟩ := mem_zip_filter_isOk
    (f := fun x : StreamId × Value × Checked InsertMessageInput => x.2.2) h
  have hitems : ((ids.zip built).filterMap fun x => x.2.2.toOption) =
      built.filterMap fun x => x.2.toOption := by
    conv_rhs => rw [← List.map_snd_zip hlen, List.filterMap_map]
    rfl
  rw [hitems] at hmem
  exact ⟨item, hitem, hmem⟩

/-- What stands beside an entry was built from its message. -/
theorem mem_zip_buildItems {batch : List (StreamId × Message)} {moment : Moment} {i : Nat}
    {v : Value} {r : Checked InsertMessageInput}
    (h : (id, v, r) ∈ (batch.map Prod.fst).zip
      (buildItems d.worker moment i ((batch.map Prod.snd).map (hubItem d.worker)))) :
    ∃ m k, (id, m) ∈ batch ∧
      r = buildSyncPushItem d.worker (hubItem d.worker m) moment.now (moment.uuidv7 k) := by
  induction batch generalizing i with
  | nil => cases h
  | cons x batch ih =>
    simp only [List.map_cons, buildItems, List.zip_cons_cons, List.mem_cons] at h
    rcases h with heq | h
    · cases heq
      exact ⟨x.2, i, List.mem_cons_self, rfl⟩
    · obtain ⟨m, k, hm, hr⟩ := ih h
      exact ⟨m, k, List.mem_cons_of_mem _ hm, hr⟩

/-- **A push stores rows made from the messages of its batch.** -/
theorem storedOf_servePush {batch : List (StreamId × Message)} {moment : Moment} {row : Row}
    (h : .stored b id row ∈ (s.servePush d name batch moment).2.2) :
    b = name ∧ StoredOf d moment batch id row := by
  have hevents : (s.servePush d name batch moment).2.2 =
      if (batch.map Prod.snd).length ≤ 500 then
        storedEvents name batch (builtItems d batch moment)
          (storeItems d.worker s.log name.text
            ((builtItems d batch moment).filterMap fun x => x.2.toOption) moment).2.1
      else [] := rfl
  rw [hevents] at h
  split at h
  case isFalse => cases h
  case isTrue =>
    unfold storedEvents at h
    obtain ⟨⟨⟨id', v, r⟩, result⟩, hmem, hev⟩ := List.mem_flatMap.1 h
    -- the results stand in the order of the items
    have hlen : (builtItems d batch moment).length ≤ (batch.map Prod.fst).length := by
      rw [builtItems, length_buildItems, List.length_map, List.length_map, List.length_map]
    obtain ⟨item, rfl, hzip⟩ := mem_zip_built hlen hmem
    have hleft := (List.mem_filter.1 (List.of_mem_zip hmem).1).1
    obtain ⟨m, k, hm, hbuild⟩ := mem_zip_buildItems hleft
    cases result with
    | accepted row' =>
      simp only [List.mem_cons, reduceCtorEq, FleetEvent.stored.injEq, List.not_mem_nil, or_false,
        false_or] at hev
      -- the row that was stored is the one the item has
      obtain ⟨rfl, rfl, rfl⟩ := hev
      obtain ⟨-, -, ⟨-, hfields⟩, -⟩ := (storeItems_pushed rfl).accepted item row hzip
      exact ⟨rfl, m, k, item, hm, hbuild.symm, hfields⟩
    | _ => cases hev

end Fleet

/-! ### Runs -/

/-- The surroundings a request is served in. -/
def FleetInput.moment : FleetInput → Option Moment
  | .serve _ moment | .serveLate _ moment => some moment
  | _ => none

/-- The Worker's new ids are texts without blanks around them. -/
def FleetInput.PlainIds (i : FleetInput) : Prop :=
  ∀ moment, i.moment = some moment →
    ∀ k, moment.uuidv7 k ≠ "" ∧ Js.trim (moment.uuidv7 k) = moment.uuidv7 k

/-- Only the push of a batch stores rows of entries. -/
theorem FleetInv.stored_step (h : FleetInv d s tr) {i : FleetInput} {row : Row}
    (hev : .stored b id row ∈ (s.step d i).2) :
    ∃ moment batch, i.moment = some moment ∧ .pushed b batch ∈ tr ∧
      StoredOf d moment batch id row := by
  cases i with
  | site name i =>
    rcases Fleet.step_site (d := d) s name i with ⟨hstep, -⟩ | hstep
    · rw [hstep] at hev
      cases Fleet.mem_stepSite_snd hev
    · rw [hstep] at hev
      cases hev
  | serve name moment =>
    -- only a push that is served, at once or late, stores rows for a site
    simp only [Fleet.step, Fleet.serve] at hev
    split at hev
    · cases hev
    · rename_i batch hpending
      obtain ⟨rfl, hstored⟩ := Fleet.storedOf_servePush hev
      exact ⟨moment, batch, rfl, h.pending b batch hpending, hstored⟩
    · split at hev
      · simp at hev
      · cases hev
  | serveLate k moment =>
    simp only [Fleet.step, Fleet.serveLate] at hev
    split at hev
    · rename_i name batch hsent
      obtain ⟨rfl, hstored⟩ := Fleet.storedOf_servePush hev
      exact ⟨moment, batch, rfl, h.sent b batch (List.mem_of_getElem? hsent), hstored⟩
    · cases hev
  | deliver name save =>
    simp only [Fleet.step] at hev
    split at hev
    · cases Fleet.mem_stepSite_snd hev
    · cases hev
  | insert fields originHub now fault =>
    -- a row that is posted to the Worker itself is stored for no push
    simp only [Fleet.step, Fleet.insert] at hev
    split at hev
    · cases hev
    · split at hev
      · simp at hev
      · cases hev
  | retention cutoffIso => cases hev

/-- Every row a push stored was made from the message of an entry, under plain ids. -/
def StoredInv (d : Deployment) (tr : List FleetEvent) : Prop :=
  ∀ b id row, .stored b id row ∈ tr → ∃ moment batch, .pushed b batch ∈ tr ∧
    StoredOf d moment batch id row ∧
    ∀ k, moment.uuidv7 k ≠ "" ∧ Js.trim (moment.uuidv7 k) = moment.uuidv7 k

theorem storedInv_exec (d : Deployment) (is : List FleetInput) :
    FleetInv d ((Fleet.machine d).exec {} is).1 ((Fleet.machine d).exec {} is).2 ∧
      ((∀ i ∈ is, i.PlainIds) → StoredInv d ((Fleet.machine d).exec {} is).2) := by
  apply (Fleet.machine d).exec_induction
    (P := fun is s tr => FleetInv d s tr ∧ ((∀ i ∈ is, i.PlainIds) → StoredInv d tr))
  · exact ⟨FleetInv.initial d, fun _ b id row hrow => by cases hrow⟩
  · rintro is s tr i ⟨hinv, hstored⟩
    refine ⟨hinv.step i, ?_⟩
    intro hplain b id row hrow
    rcases List.mem_append.1 hrow with hold | hnew
    · obtain ⟨moment, batch, hbatch, hrest⟩ :=
        hstored (fun j hj => hplain j (List.mem_append_left _ hj)) b id row hold
      exact ⟨moment, batch, List.mem_append_left _ hbatch, hrest⟩
    · obtain ⟨moment, batch, hmoment, hbatch, hof⟩ := hinv.stored_step hnew
      have hi : i.PlainIds := hplain i (List.mem_append_right _ List.mem_cons_self)
      exact ⟨moment, batch, List.mem_append_left _ hbatch, hof, hi moment hmoment⟩

/-! ### Content -/

/-- The entry `copyId` of hub `b` was ingested from the row that the entry `id` of hub `a` was stored
as. -/
def Relayed (tr : List FleetEvent) (a : HubName) (id : StreamId) (b : HubName) (copyId : StreamId) :
    Prop :=
  ∃ row m, .stored a id row ∈ tr ∧ .ingested b copyId m ∈ tr ∧ m.streamId = some row.streamId

/-- The row an ingested message was read from. -/
theorem FleetInv.read_of_relayed (h : FleetInv d s tr) {row : Row} {m : Message} {copyId : StreamId}
    (hstored : .stored a id row ∈ tr) (hin : .ingested b copyId m ∈ tr)
    (hrow : m.streamId = some row.streamId) : row.read (d.codec b).doubles = some m := by
  obtain ⟨-, hinserted, -⟩ := h.stored a id row hstored
  obtain ⟨⟨row', hinserted', hread⟩, -⟩ := h.ingested b copyId m hin
  obtain ⟨-, -, hstream⟩ := Row.read_fields hread
  rw [hrow] at hstream
  have hseq := Row.streamId_injective (Option.some.inj hstream)
  rwa [h.unique row row' hinserted hinserted' hseq]

/-- Where an entry stands in its stream is no content. -/
theorem sameContent_withStreamId (dates : Dates) (original copy : Message)
    (streamId : Option String) :
    SameContent dates original { copy with streamId } ↔ SameContent dates original copy :=
  ⟨fun h => { h with }, fun h => { h with }⟩

/-- **What replication does to the content of a message.**  In every run, an entry of hub `a` that the
Worker accepted and the entry hub `b` ingested for it are there; they have the same content exactly
if the validator changes nothing of the message; and a time in the form hubs write loses its
microseconds. -/
theorem replication_content (d : Deployment) {is : List FleetInput} (hids : ∀ i ∈ is, i.PlainIds)
    {a b : HubName} {id copyId : StreamId}
    (hrelayed : Relayed ((Fleet.machine d).exec {} is).2 a id b copyId) :
    let s := ((Fleet.machine d).exec {} is).1
    (∃ entry ∈ (s.sites a).stream, entry.id = id) ∧ (∃ copy ∈ (s.sites b).stream, copy.id = copyId) ∧
    ∀ entry ∈ (s.sites a).stream, entry.id = id → ∀ copy ∈ (s.sites b).stream, copy.id = copyId →
      pushable (entry.message (d.codec a)) a.text = true ∧
      (SameContent d.worker.dates (entry.message (d.codec a)) (copy.message (d.codec b)) ↔
        Kept d.worker.numbers (d.codec b).doubles (entry.message (d.codec a))) ∧
      ∀ us : Int, (us / 1000).natAbs ≤ maxTime →
        (entry.message (d.codec a)).timestampUtc = microsecondText us →
        (copy.message (d.codec b)).timestampUtc = microsecondText (us / 1000 * 1000) := by
  intro s
  obtain ⟨hinv, hstoredInv⟩ := storedInv_exec d is
  obtain ⟨row, m, hstored, hin, hrow⟩ := hrelayed
  have hread := hinv.read_of_relayed hstored hin hrow
  -- the entry the row was made from
  obtain ⟨moment, batch, hbatch, ⟨original, k, item, hmem, hbuild, hfields⟩, huuid⟩ :=
    hstoredInv hids a id row hstored
  obtain ⟨entry, hentry, heq, hpushable⟩ := hinv.pushed a batch hbatch _ hmem
  obtain ⟨rfl, rfl⟩ := Prod.mk.inj heq
  -- the entry it was ingested as
  obtain ⟨-, -, origin, -, -, hcopy⟩ := hinv.ingested b copyId m hin
  have hitem := itemOf_of_built hbuild
  refine ⟨⟨entry, hentry, rfl⟩, ⟨_, hcopy, rfl⟩, ?_⟩
  intro entry' hentry' hid' copy' hcopy' hcopyId'
  obtain rfl := hinv.entry_unique hentry' hentry hid'
  obtain rfl := hinv.entry_unique hcopy' hcopy hcopyId'
  have hiff : SameContent d.worker.dates (entry'.message (d.codec a))
      (decodeStreamEntry (d.codec b) (syncedFields m origin)) ↔
      Kept d.worker.numbers (d.codec b).doubles (entry'.message (d.codec a)) :=
    sameContent_iff (decoded_entry (d.codec a) entry') (huuid k) hitem hfields hread origin
  refine ⟨hpushable, (sameContent_withStreamId _ _ _ _).trans hiff, ?_⟩
  intro us hus htime
  have hne : (entry'.message (d.codec a)).timestampUtc ≠ "" := by
    rw [htime]
    intro habs
    have hlen := congrArg (fun t => t.toList.length) habs
    simp [microsecondText] at hlen
  obtain ⟨ms, hms, hformat⟩ := syncItemTimestamp_str hne hitem.timestampUtc
  rw [htime, d.worker.dates.parse_microsecondText hus] at hms
  obtain rfl := Option.some.inj hms
  have hpulled : m.timestampUtc = row.timestampUtc := by
    rw [Row.read, Option.map_eq_some_iff] at hread
    obtain ⟨seq, -, rfl⟩ := hread
    rfl
  show (decodeStreamEntry (d.codec b) (syncedFields m origin)).timestampUtc = _
  rw [decode_syncedFields]
  show m.timestampUtc = _
  rw [hpulled, congrArg MessageFields.timestampUtc hfields, hformat, formatTimestampUtc_eq]

/-! ### A message that is kept, and one that is not -/

/-- A moment with a new id. -/
def relayMoment : Moment := { sampleMoment with uuidv7 := fun _ => "u-1" }

/-- A message is written at one hub and pushed, and another hub pulls it. -/
def relayRun (fields : EntryFields) : List FleetInput :=
  [.site hubA (.start .saved), .site hubA (.append (StreamId.mk 5 0) fields), .site hubA .tick,
   .site hubA (.store true StreamId.zero .saved), .serve hubA relayMoment, .deliver hubA .saved,
   .site hubB (.start .saved), .site hubB .tick, .site hubB (.store true StreamId.zero .saved),
   .site hubB (.store true StreamId.zero .saved), .serve hubB relayMoment, .deliver hubB .saved,
   .site hubB (.store true (StreamId.mk 7 0) .saved)]

/-- The entries of a run that were ingested from entries of another hub. -/
def relays (tr : List FleetEvent) : List (HubName × StreamId × HubName × StreamId) :=
  tr.flatMap fun
    | .stored a id row => tr.filterMap fun
      | .ingested b copyId m =>
        if m.streamId = some row.streamId then some (a, id, b, copyId) else none
      | _ => none
    | _ => []

theorem relayed_of_mem {a b : HubName} {id copyId : StreamId} (h : (a, id, b, copyId) ∈ relays tr) :
    Relayed tr a id b copyId := by
  obtain ⟨ev, hev, hmem⟩ := List.mem_flatMap.1 h
  cases ev with
  | stored a' id' row =>
    obtain ⟨ev', hev', heq⟩ := List.mem_filterMap.1 hmem
    cases ev' with
    | ingested b' copyId' m =>
      simp only at heq
      split at heq
      case isTrue hrow =>
        cases heq
        exact ⟨row, m, hev, hev', hrow⟩
      case isFalse => cases heq
    | _ => cases heq
  | _ => cases hmem

theorem plainIds_relayRun (fields : EntryFields) : ∀ i ∈ relayRun fields, i.PlainIds := by
  have hmoment : ∀ k, relayMoment.uuidv7 k ≠ "" ∧
      Js.trim (relayMoment.uuidv7 k) = relayMoment.uuidv7 k := by
    intro k
    show "u-1" ≠ "" ∧ Js.trim "u-1" = "u-1"
    decide
  intro i hi moment hsome k
  simp only [relayRun, List.mem_cons, List.not_mem_nil, or_false] at hi
  rcases hi with rfl | rfl | rfl | rfl | rfl | rfl | rfl | rfl | rfl | rfl | rfl | rfl | rfl
  all_goals first
    | cases hsome
      exact hmoment k
    | cases hsome

/-- A message of plain texts. -/
def plainFields : EntryFields :=
  [("id", "m-1"), ("timestamp_utc", "2026-01-01T00:00:00.123456Z"), ("protocol_version", "1.0"),
   ("from", "alice"), ("to", "bob"), ("topic", "ack"), ("body", "hello"), ("tags", "[\"a b\"]"),
   ("priority", "high"), ("request_ack", "true"), ("reply_to", "carol"),
   ("metadata", "\x7b\"n\":7\x7d"), ("thread_id", "t-1"), ("client_msg_id", "c-1"),
   ("origin_seq", "3"), ("hlc", "1-0")]

theorem replication_content_plain :
    let s := ((Fleet.machine sampleDeployment).exec {} (relayRun plainFields)).1
    ∃ entry ∈ (s.sites hubA).stream, ∃ copy ∈ (s.sites hubB).stream,
      Kept sampleWorker.numbers sampleCodec.doubles (entry.message sampleCodec) ∧
      SameContent sampleWorker.dates (entry.message sampleCodec) (copy.message sampleCodec) := by
  obtain ⟨hrelays, hentry⟩ :
      (hubA, StreamId.mk 5 0, hubB, StreamId.mk 7 0) ∈
          relays ((Fleet.machine sampleDeployment).exec {} (relayRun plainFields)).2 ∧
        (⟨StreamId.mk 5 0, plainFields⟩ : Entry) ∈
          (((Fleet.machine sampleDeployment).exec {} (relayRun plainFields)).1.sites
            hubA).stream := by
    decide +kernel
  have hcontent := replication_content sampleDeployment (plainIds_relayRun plainFields)
    (relayed_of_mem hrelays)
  -- From here on nothing has to look into the run again.
  generalize (Fleet.machine sampleDeployment).exec {} (relayRun plainFields) = run
    at hentry hcontent ⊢
  intro s
  obtain ⟨-, ⟨copy, hcopy, hcopyId⟩, hall⟩ := hcontent
  have hkept : Kept sampleWorker.numbers sampleCodec.doubles
      (Entry.message sampleCodec ⟨StreamId.mk 5 0, plainFields⟩) := by
    have hseq : (Entry.message sampleCodec ⟨StreamId.mk 5 0, plainFields⟩).originSeq = some 3 := by
      decide
    constructor
    case originSeq =>
      intro n hn
      obtain rfl := Option.some.inj (hseq.symm.trans hn)
      decide
    all_goals decide +kernel
  exact ⟨_, hentry, copy, hcopy, hkept, (hall _ hentry rfl copy hcopy hcopyId).2.1.2 hkept⟩

/-- The same message with blanks around its body. -/
def paddedFields : EntryFields :=
  [("id", "m-1"), ("timestamp_utc", "2026-01-01T00:00:00.000000Z"), ("protocol_version", "1.0"),
   ("from", "alice"), ("to", "bob"), ("topic", "ack"), ("body", " hello "), ("tags", "[]"),
   ("priority", "normal"), ("request_ack", "false"), ("reply_to", "alice"), ("metadata", "\x7b\x7d")]

/-- The body arrives without its blanks. -/
theorem replication_trims_body :
    let s := ((Fleet.machine sampleDeployment).exec {} (relayRun paddedFields)).1
    let tr := ((Fleet.machine sampleDeployment).exec {} (relayRun paddedFields)).2
    Relayed tr hubA (StreamId.mk 5 0) hubB (StreamId.mk 7 0) ∧
    ∃ entry ∈ (s.sites hubA).stream, entry.id = StreamId.mk 5 0 ∧
      pushable (entry.message sampleCodec) hubA.text = true ∧
    ∃ copy ∈ (s.sites hubB).stream, copy.id = StreamId.mk 7 0 ∧
      (entry.message sampleCodec).body = " hello " ∧ (copy.message sampleCodec).body = "hello" ∧
      ¬ SameContent sampleWorker.dates (entry.message sampleCodec) (copy.message sampleCodec) := by
  intro s tr
  -- the kernel runs the fleet once; what follows is read off its result
  obtain ⟨hrelays, hentry, copy, hcopy, hcopyId, hcopyBody⟩ :
      (hubA, StreamId.mk 5 0, hubB, StreamId.mk 7 0) ∈ relays tr ∧
        (⟨StreamId.mk 5 0, paddedFields⟩ : Entry) ∈ (s.sites hubA).stream ∧
        ∃ copy ∈ (s.sites hubB).stream, copy.id = StreamId.mk 7 0 ∧
          (copy.message sampleCodec).body = "hello" := by
    decide +kernel
  have hbody : (Entry.message sampleCodec ⟨StreamId.mk 5 0, paddedFields⟩).body = " hello " := by
    decide
  have hpushed : pushable (Entry.message sampleCodec ⟨StreamId.mk 5 0, paddedFields⟩) hubA.text
      = true := by
    decide
  have hrelayed : Relayed tr hubA (StreamId.mk 5 0) hubB (StreamId.mk 7 0) := relayed_of_mem hrelays
  refine ⟨hrelayed, ⟨StreamId.mk 5 0, paddedFields⟩, hentry, rfl, hpushed, copy, hcopy, hcopyId,
    hbody, hcopyBody, ?_⟩
  -- the copy lacks the blanks of the original
  intro hsame
  have heq := hsame.body
  rw [hbody, hcopyBody] at heq
  exact absurd heq (by decide)

end AgentHub.Network
