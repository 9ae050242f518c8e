import AgentHub.Export.Equiv.Union
import AgentHub.Json.Equiv.Document
import AgentHub.Outbox.Equiv.Bytes
import AgentHub.Stores.Equiv.Consistency
import AgentHub.Stores.Reconcile

/-!
# When a run repairs the archive

A run fetches the messages of the ids that the window of the archive lacks and inserts their rows, in
order, each unless it clashes with one that is there (`sync_result`).  So the archive is repaired where
a row is admitted for every such id, and the later comparisons find a row of every id of theirs in their
windows: which fails where the archive has the id at another time, where another row has the stream id
or the client's id, and where the two readers of the stream take a field of an entry differently.

`reconcile_repairs` is the claim with its condition.
-/

namespace AgentHub.Stores

open AgentHub.Export (Row parseUuid parseUuid_toString)
open AgentHub.Hub (MessageStream)
open AgentHub.Outbox (Uuid)
open AgentHub.Sync (Entry StreamId)
open AgentHub.Validation (AgentBusError)

variable {lib : StoreLibrary} {stream : MessageStream} {archive : Archive}

/-! ### Inserting -/

variable (lib) in
/-- The row of a message, if its id, its time and its number can be read. -/
def syncRow (m : Sync.Message) : Option Row :=
  match parseUuid m.id, parseTimestampUtc lib m.timestampUtc, originSeqSql m.originSeq with
  | some id, some t, .ok originSeq => some (rowOf m id t originSeq)
  | _, _, _ => none

/-- Of rows in order, those that clash with none that is there and none that is admitted before. -/
def admitted (seen : List Row) : List Row → List Row
  | [] => []
  | row :: rows =>
    if seen.any fun r => clashes row r then admitted seen rows
    else row :: admitted (seen ++ [row]) rows

theorem admitted_sublist {rows : List Row} : ∀ {seen : List Row}, (admitted seen rows).Sublist rows := by
  induction rows with
  | nil => exact List.Sublist.refl _
  | cons row rows ih =>
    intro seen
    rw [admitted]
    split
    · exact ih.cons row
    · exact ih.cons_cons row

theorem clashes_of_id {r r' : Row} (h : r.id = r'.id) : clashes r r' = true := by
  simp [clashes, h]

/-- The ids of an archive are distinct. -/
theorem Archive.nodup_ids (archive : Archive) : (archive.rows.map Row.id).Nodup := by
  refine List.pairwise_map.2 (archive.distinct.imp fun {r r'} hfalse hid => ?_)
  rw [clashes_of_id hid.symm] at hfalse
  cases hfalse

variable (lib) in
/-- What `syncRedisToPostgres` needs to come to its end. -/
structure Accepted (archive : Archive) (messages : List Sync.Message) : Prop where
  taken : ∀ m ∈ messages, ∃ row, syncRow lib m = some row ∧ lib.takes row = true
  room : ∀ row ∈ admitted archive.rows (messages.filterMap (syncRow lib)), lib.hasRoom row = true

theorem syncMessage_eq {m : Sync.Message} {row : Row} (h : syncRow lib m = some row) :
    syncMessage lib archive m = insertRow lib archive row := by
  rw [syncRow] at h
  split at h
  · next hid ht hseq =>
    obtain rfl := Option.some.inj h
    rw [syncMessage, hid, ht]
    show originSeqSql m.originSeq >>= _ = _
    rw [hseq]
    rfl
  · cases h

/-- A message whose id and time are read and whose row is not made has a number that is too large. -/
theorem syncMessage_eq_error {m : Sync.Message} (hid : (parseUuid m.id).isSome)
    (ht : (parseTimestampUtc lib m.timestampUtc).isSome) (h : syncRow lib m = none) :
    ∃ e, syncMessage lib archive m = .error e := by
  obtain ⟨id, hid⟩ := Option.isSome_iff_exists.1 hid
  obtain ⟨t, ht⟩ := Option.isSome_iff_exists.1 ht
  rw [syncRow, hid, ht] at h
  rw [syncMessage, hid, ht]
  cases hseq : originSeqSql m.originSeq with
  | error e => exact ⟨e, rfl⟩
  | ok originSeq =>
    rw [hseq] at h
    cases h

theorem insertRow_eq_error_of_takes {row : Row} (h : lib.takes row = false) :
    ∃ e, insertRow lib archive row = .error e := by
  rw [insertRow, h]
  exact ⟨_, rfl⟩

theorem insertRow_of_clash {row : Row} (htakes : lib.takes row = true)
    (h : archive.rows.any (fun r => clashes row r) = true) :
    insertRow lib archive row = .ok (archive, false) := by
  rw [insertRow, if_pos htakes, dif_neg (by rw [h]; decide)]

theorem insertRow_eq_error_of_room {row : Row} (htakes : lib.takes row = true)
    (h : archive.rows.any (fun r => clashes row r) = false) (hroom : lib.hasRoom row = false) :
    ∃ e, insertRow lib archive row = .error e := by
  rw [insertRow, if_pos htakes, dif_pos h, if_neg (by rw [hroom]; decide)]
  exact ⟨_, rfl⟩

theorem insertRow_of_new {row : Row} (htakes : lib.takes row = true)
    (h : archive.rows.any (fun r => clashes row r) = false) (hroom : lib.hasRoom row = true) :
    insertRow lib archive row = .ok (⟨archive.rows ++ [row], distinct_concat h⟩, true) := by
  rw [insertRow, if_pos htakes, dif_pos h, if_pos hroom]

theorem sync_of_error {m : Sync.Message} {messages : List Sync.Message} {inserted : Nat}
    (h : ∃ e, syncMessage lib archive m = .error e) :
    ∃ archive' e, syncRedisToPostgres lib archive inserted (m :: messages) = (archive', .error e) := by
  obtain ⟨e, he⟩ := h
  refine ⟨archive, e, ?_⟩
  rw [syncRedisToPostgres, he]

/-- **The inserts**: the rows that are admitted, if the database accepts the messages. -/
theorem sync_result {messages : List Sync.Message} : ∀ {archive : Archive} {inserted : Nat},
    (∀ m ∈ messages, (parseUuid m.id).isSome ∧ (parseTimestampUtc lib m.timestampUtc).isSome) →
    (Accepted lib archive messages ∧ ∃ archive',
      syncRedisToPostgres lib archive inserted messages = (archive', .ok (inserted +
        (admitted archive.rows (messages.filterMap (syncRow lib))).length)) ∧
      archive'.rows = archive.rows ++ admitted archive.rows (messages.filterMap (syncRow lib))) ∨
    (¬Accepted lib archive messages ∧ ∃ archive' e,
      syncRedisToPostgres lib archive inserted messages = (archive', .error e)) := by
  induction messages with
  | nil =>
    intro archive inserted _
    refine Or.inl ⟨⟨fun m hm => ?_, fun row hrow => ?_⟩, archive, rfl, (List.append_nil _).symm⟩
    · cases hm
    · cases hrow
  | cons m messages ih =>
    intro archive inserted hread
    obtain ⟨hid, ht⟩ := hread m List.mem_cons_self
    have hread' : ∀ m ∈ messages,
        (parseUuid m.id).isSome ∧ (parseTimestampUtc lib m.timestampUtc).isSome :=
      fun m hm => hread m (List.mem_cons_of_mem _ hm)
    cases hrow : syncRow lib m with
    | none =>
      refine Or.inr ⟨fun hacc => ?_, sync_of_error (syncMessage_eq_error hid ht hrow)⟩
      obtain ⟨row, hsome, -⟩ := hacc.taken m List.mem_cons_self
      rw [hrow] at hsome
      cases hsome
    | some row =>
      have hmessage : syncMessage lib archive m = insertRow lib archive row := syncMessage_eq hrow
      cases htakes : lib.takes row with
      | false =>
        refine Or.inr ⟨fun hacc => ?_, sync_of_error ?_⟩
        · obtain ⟨row', hsome, htakes'⟩ := hacc.taken m List.mem_cons_self
          rw [hrow] at hsome
          obtain rfl := Option.some.inj hsome
          rw [htakes] at htakes'
          cases htakes'
        · rw [hmessage]
          exact insertRow_eq_error_of_takes htakes
      | true =>
        have htaken : (∀ x ∈ m :: messages, ∃ row, syncRow lib x = some row ∧ lib.takes row = true) ↔
            ∀ x ∈ messages, ∃ row, syncRow lib x = some row ∧ lib.takes row = true := by
          rw [List.forall_mem_cons]
          exact ⟨And.right, fun h => ⟨⟨row, hrow, htakes⟩, h⟩⟩
        cases hany : archive.rows.any (fun r => clashes row r) with
        | true =>
          -- the row clashes, and is left out
          have hadmitted : admitted archive.rows ((m :: messages).filterMap (syncRow lib)) =
              admitted archive.rows (messages.filterMap (syncRow lib)) := by
            rw [List.filterMap_cons_some hrow, admitted, if_pos hany]
          have hiff : Accepted lib archive (m :: messages) ↔ Accepted lib archive messages := by
            constructor
            · intro h
              exact ⟨htaken.1 h.taken, hadmitted ▸ h.room⟩
            · intro h
              exact ⟨htaken.2 h.taken, hadmitted.symm ▸ h.room⟩
          have hsync : syncRedisToPostgres lib archive inserted (m :: messages) =
              syncRedisToPostgres lib archive inserted messages := by
            rw [syncRedisToPostgres, hmessage, insertRow_of_clash htakes hany]
            rfl
          rw [hadmitted, hiff, hsync]
          exact ih hread'
        | false =>
          have hadmitted : admitted archive.rows ((m :: messages).filterMap (syncRow lib)) =
              row :: admitted (archive.rows ++ [row]) (messages.filterMap (syncRow lib)) := by
            rw [List.filterMap_cons_some hrow, admitted, if_neg (by rw [hany]; decide)]
          cases hroom : lib.hasRoom row with
          | false =>
            refine Or.inr ⟨fun hacc => ?_, sync_of_error ?_⟩
            · have htrue := hacc.room row (hadmitted ▸ List.mem_cons_self)
              rw [hroom] at htrue
              cases htrue
            · rw [hmessage]
              exact insertRow_eq_error_of_room htakes hany hroom
          | true =>
            have hsync : syncRedisToPostgres lib archive inserted (m :: messages) =
                syncRedisToPostgres lib ⟨archive.rows ++ [row], distinct_concat hany⟩ (inserted + 1)
                  messages := by
              rw [syncRedisToPostgres, hmessage, insertRow_of_new htakes hany hroom]
              rfl
            have hiff : Accepted lib archive (m :: messages) ↔
                Accepted lib ⟨archive.rows ++ [row], distinct_concat hany⟩ messages := by
              constructor
              · intro h
                refine ⟨htaken.1 h.taken, fun x hx => h.room x ?_⟩
                rw [hadmitted]
                exact List.mem_cons_of_mem _ hx
              · intro h
                refine ⟨htaken.2 h.taken, ?_⟩
                rw [hadmitted, List.forall_mem_cons]
                exact ⟨hroom, h.room⟩
            rw [hiff, hsync, hadmitted]
            rcases @ih ⟨archive.rows ++ [row], distinct_concat hany⟩ (inserted + 1) hread' with
              ⟨hacc, archive', heq, hrows⟩ | hfail
            · refine Or.inl ⟨hacc, archive', ?_, ?_⟩
              · rw [heq, List.length_cons, Nat.add_assoc, Nat.add_comm 1]
              · rw [hrows, List.append_assoc, List.singleton_append]
            · exact Or.inr hfail

theorem insertRow_extends {row : Row} {archive' : Archive} {new : Bool}
    (h : insertRow lib archive row = .ok (archive', new)) :
    ∃ rows, archive'.rows = archive.rows ++ rows := by
  rw [insertRow] at h
  split_ifs at h
  · cases h
    exact ⟨[row], rfl⟩
  · cases h
    exact ⟨[], (List.append_nil _).symm⟩

theorem syncMessage_extends {m : Sync.Message} {archive' : Archive} {new : Bool}
    (h : syncMessage lib archive m = .ok (archive', new)) :
    ∃ rows, archive'.rows = archive.rows ++ rows := by
  rw [syncMessage] at h
  split at h
  · obtain ⟨originSeq, -, hrow⟩ := bind_eq_ok.1 h
    exact insertRow_extends hrow
  · cases h
    exact ⟨[], (List.append_nil _).symm⟩

/-- Whatever becomes of the inserts, the rows that were there stay. -/
theorem sync_extends (lib : StoreLibrary) (archive : Archive) (inserted : Nat)
    (messages : List Sync.Message) :
    ∃ new, (syncRedisToPostgres lib archive inserted messages).1.rows = archive.rows ++ new := by
  induction messages generalizing archive inserted with
  | nil => exact ⟨[], (List.append_nil _).symm⟩
  | cons m messages ih =>
    rw [syncRedisToPostgres]
    cases hm : syncMessage lib archive m with
    | error e => exact ⟨[], (List.append_nil _).symm⟩
    | ok next =>
      obtain ⟨archive', new⟩ := next
      obtain ⟨rows, hrows⟩ := syncMessage_extends hm
      obtain ⟨more, hmore⟩ := ih archive' (if new then inserted + 1 else inserted)
      refine ⟨rows ++ more, ?_⟩
      rw [← List.append_assoc, ← hrows]
      exact hmore

/-! ### The plan -/

section Plan

variable {call : ReconcileCall} {now : Int} {id : Uuid}

variable (lib stream archive call now)

/-- The beginning of the window of a comparison. -/
def lowAt : Int := windowStart lib stream call.scope call.settle now

/-- The end of the window of a comparison. -/
def highAt : Int := windowEnd call.settle now

/-- The ids of the stream that a comparison has. -/
def comparedAt : List Uuid := comparedIds lib stream (lowAt lib stream call now) (highAt call now)

/-- A row lies in the window of a comparison. -/
def InWindowAt (row : Row) : Prop := InWindow (lowAt lib stream call now) (highAt call now) row

/-- The stores can be read for a comparison. -/
def ReadsAt : Prop := Readable stream (lowAt lib stream call now) (highAt call now)

/-- A comparison has an id that is of no row of its window. -/
def Lacks (id : Uuid) : Prop :=
  id ∈ comparedAt lib stream call now ∧
    ¬∃ row ∈ archive.rows, row.id = id ∧ InWindowAt lib stream call now row

/-- What a run plans to insert. -/
def plannedAt : List String :=
  planRedisToPg ((comparedAt lib stream call now).map Uuid.toString)
    (idsBetween archive (lowAt lib stream call now) (highAt call now))

/-- The messages a run fetches. -/
def fetchedAt : List Sync.Message :=
  (entriesFrom stream (startId (lowAt lib stream call now))).filterMap
    (wantedMessage lib (plannedAt lib stream archive call now) (lowAt lib stream call now)
      (highAt call now))

/-- Their rows. -/
def fetchedRows : List Row := (fetchedAt lib stream archive call now).filterMap (syncRow lib)

/-- Those of them that are admitted. -/
def restoredAt : List Row := admitted archive.rows (fetchedRows lib stream archive call now)

variable {lib stream archive call now}

theorem exists_of_mem_plannedAt {text : String} (h : text ∈ plannedAt lib stream archive call now) :
    ∃ id, text = id.toString ∧ Lacks lib stream archive call now id := by
  obtain ⟨hcompared, hlacks⟩ := List.mem_filter.1 (mem_idSet.1 h)
  obtain ⟨id, hid, rfl⟩ := List.mem_map.1 hcompared
  exact ⟨id, rfl, hid, fun hrow => of_decide_eq_true hlacks (mem_idsBetween.2 hrow)⟩

theorem mem_plannedAt : id.toString ∈ plannedAt lib stream archive call now ↔
    Lacks lib stream archive call now id := by
  constructor
  · intro h
    obtain ⟨id', heq, hlacks⟩ := exists_of_mem_plannedAt h
    rw [Uuid.toString_injective heq]
    exact hlacks
  · rintro ⟨hcompared, hlacks⟩
    exact mem_idSet.2 (List.mem_filter.2 ⟨List.mem_map_of_mem hcompared,
      decide_eq_true fun hid => hlacks (mem_idsBetween.1 hid)⟩)

/-- An id is wanted in every spelling. -/
theorem isWanted_iff {text : String} : isWanted (plannedAt lib stream archive call now) text = true ↔
    ∃ id, parseUuid text = some id ∧ Lacks lib stream archive call now id := by
  rw [isWanted]
  cases hparse : parseUuid text with
  | some id => simp [mem_plannedAt]
  | none =>
    refine iff_of_false (fun h => ?_) (by simp)
    obtain ⟨id, rfl, -⟩ := exists_of_mem_plannedAt (of_decide_eq_true h)
    rw [parseUuid_toString] at hparse
    cases hparse

theorem mem_fetchedAt {m : Sync.Message} (h : m ∈ fetchedAt lib stream archive call now) :
    (∃ entry ∈ stream.entries, entry.message lib.codec = m) ∧
      (∃ id, parseUuid m.id = some id ∧ Lacks lib stream archive call now id) ∧
      (parseTimestampUtc lib m.timestampUtc).isSome := by
  obtain ⟨entry, hentry, hm⟩ := List.mem_filterMap.1 h
  rw [wantedMessage] at hm
  split at hm
  · next hwanted =>
    cases hm
    refine ⟨⟨entry, List.mem_of_mem_filter hentry, rfl⟩, isWanted_iff.1 hwanted.1, ?_⟩
    cases ht : parseTimestampUtc lib (entry.message lib.codec).timestampUtc with
    | some t => rfl
    | none =>
      rw [ht] at hwanted
      exact absurd hwanted.2 (by simp)
  · cases hm

theorem id_syncRow {m : Sync.Message} {row : Row} (h : syncRow lib m = some row) :
    parseUuid m.id = some row.id := by
  rw [syncRow] at h
  split at h
  · next hid _ _ =>
    obtain rfl := Option.some.inj h
    exact hid
  · cases h

theorem body_syncRow {m : Sync.Message} {row : Row} (h : syncRow lib m = some row) :
    row.body = m.body := by
  rw [syncRow] at h
  split at h
  · obtain rfl := Option.some.inj h
    rfl
  · cases h

/-- A fetched row has an id that is lacking. -/
theorem lacks_of_mem_fetchedRows {row : Row} (h : row ∈ fetchedRows lib stream archive call now) :
    Lacks lib stream archive call now row.id := by
  obtain ⟨m, hm, hrow⟩ := List.mem_filterMap.1 h
  obtain ⟨-, ⟨id, hid, hlacks⟩, -⟩ := mem_fetchedAt hm
  rw [id_syncRow hrow, Option.some.injEq] at hid
  rw [hid]
  exact hlacks

/-- With nothing planned nothing is fetched. -/
theorem fetchedAt_eq_nil (h : plannedAt lib stream archive call now = []) :
    fetchedAt lib stream archive call now = [] := by
  refine List.eq_nil_iff_forall_not_mem.2 fun m hm => ?_
  obtain ⟨-, ⟨id, -, hlacks⟩, -⟩ := mem_fetchedAt hm
  have hmem := mem_plannedAt.2 hlacks
  rw [h] at hmem
  cases hmem

theorem plannedAt_eq_nil : plannedAt lib stream archive call now = [] ↔
    ∀ id ∈ comparedAt lib stream call now,
      ∃ row ∈ archive.rows, row.id = id ∧ InWindowAt lib stream call now row := by
  constructor
  · intro h id hid
    by_contra hlacks
    have hmem := mem_plannedAt.2 ⟨hid, hlacks⟩
    rw [h] at hmem
    cases hmem
  · intro h
    refine List.eq_nil_iff_forall_not_mem.2 fun text htext => ?_
    obtain ⟨id, -, hid, hlacks⟩ := exists_of_mem_plannedAt htext
    exact hlacks (h id hid)

theorem foldl_append_toList {α β : Type} (f : α → Option β) (xs : List α) : ∀ found : List β,
    xs.foldl (fun found x => found ++ (f x).toList) found = found ++ xs.filterMap f := by
  induction xs with
  | nil => simp
  | cons x xs ih =>
    intro found
    rw [List.foldl_cons, ih]
    cases hx : f x with
    | none => simp [List.filterMap_cons_none hx]
    | some b => simp [List.filterMap_cons_some hx]

variable (archive) in
theorem fetch_result (h : ReadsAt lib stream call now) {fuel : Nat}
    (hfuel : stream.entries.length < fuel) :
    fetchRedisMessages lib fuel stream (plannedAt lib stream archive call now)
      (lowAt lib stream call now) (highAt call now) =
        some (.ok (fetchedAt lib stream archive call now)) := by
  obtain ⟨result, hresult, hloop⟩ := rangeLoop_result stream
    (fun found entry => found ++ (wantedMessage lib (plannedAt lib stream archive call now)
      (lowAt lib stream call now) (highAt call now) entry).toList)
    (startId (lowAt lib stream call now)) []
  rcases hresult with ⟨-, rfl⟩ | ⟨hreads, -⟩
  · rw [fetchRedisMessages, hloop fuel hfuel, foldl_append_toList, List.nil_append]
    rfl
  · exact absurd h.range hreads

end Plan

/-! ### The run -/

section Run

variable {call : ReconcileCall} {now later : Int}

variable (lib stream archive call now) in
/-- What a comparison before a run comes to. -/
def ScannedAt (scan : StoreScan) : Prop :=
  Scanned lib stream archive (lowAt lib stream call now) (highAt call now) scan

theorem plan_scan {scan : StoreScan} (h : ScannedAt lib stream archive call now scan) :
    planRedisToPg scan.redisIds scan.pgIds = plannedAt lib stream archive call now := by
  rw [h.redisIds, h.pgIds]
  rfl

variable (lib stream archive call now) in
theorem scan_result :
    (ReadsAt lib stream call now ∧ ∃ scan, ScannedAt lib stream archive call now scan ∧
      ∀ fuel, stream.entries.length < fuel →
        scanStores lib fuel stream archive call.scope call.settle now = some (.ok scan)) ∨
    (¬ReadsAt lib stream call now ∧ ∃ e, ∀ fuel, stream.entries.length < fuel →
      scanStores lib fuel stream archive call.scope call.settle now = some (.error e)) :=
  scanStores_result lib stream archive call.scope call.settle now

/-- The report of a run that goes to its end. -/
def fullReport (lib : StoreLibrary) (call : ReconcileCall) (scan rescan : StoreScan) (inserted : Nat) :
    ReconcileReport where
  applied := true
  plannedRedisToPg := (planRedisToPg scan.redisIds scan.pgIds).length
  inserted := inserted
  pgOnlyNotRestorable := (scan.check lib call.maxListed).report.pgOnlyCount
  before := scan.check lib call.maxListed
  after := some (rescan.check lib call.maxListed)

variable (lib stream archive call later) in
theorem finish_result (scan : StoreScan) (inserted : Nat) :
    (ReadsAt lib stream call later ∧ ∃ rescan, ScannedAt lib stream archive call later rescan ∧
      ∀ fuel, stream.entries.length < fuel →
        finish lib fuel stream call scan later archive inserted =
          some (archive, .ok (fullReport lib call scan rescan inserted))) ∨
    (¬ReadsAt lib stream call later ∧ ∃ e, ∀ fuel, stream.entries.length < fuel →
      finish lib fuel stream call scan later archive inserted = some (archive, .error e)) := by
  rcases scan_result lib stream archive call later with
    ⟨hreads, rescan, hrescan, hscan⟩ | ⟨hreads, e, hscan⟩
  · refine Or.inl ⟨hreads, rescan, hrescan, fun fuel hfuel => ?_⟩
    rw [finish, hscan fuel hfuel]
    rfl
  · refine Or.inr ⟨hreads, e, fun fuel hfuel => ?_⟩
    rw [finish, hscan fuel hfuel]

variable (archive later) in
/-- A run that may insert, after its comparison: it inserts what it fetches, and compares again. -/
theorem reconcile_of_reads (happly : call.apply = true) (hreads : ReadsAt lib stream call now)
    (hmax : (plannedAt lib stream archive call now).length ≤ call.maxInsert) :
    ∃ scan, ScannedAt lib stream archive call now scan ∧
      ∀ fuel, stream.entries.length < fuel →
        reconcile lib fuel stream archive call now later =
          match syncRedisToPostgres lib archive 0 (fetchedAt lib stream archive call now) with
          | (archive', .error e) => some (archive', .error e)
          | (archive', .ok inserted) => finish lib fuel stream call scan later archive' inserted := by
  rcases scan_result lib stream archive call now with ⟨-, scan, hscanned, hscan⟩ | ⟨hnot, -⟩
  swap
  · exact absurd hreads hnot
  refine ⟨scan, hscanned, fun fuel hfuel => ?_⟩
  have hfetch := fetch_result archive hreads hfuel
  rw [reconcile, hscan fuel hfuel]
  simp only [plan_scan hscanned, happly, Bool.not_true, Bool.false_eq_true, if_false,
    if_neg (not_lt.2 hmax)]
  by_cases hnil : plannedAt lib stream archive call now = []
  · rewrite [if_pos (by rw [hnil]; rfl), fetchedAt_eq_nil hnil]
    rfl
  · rewrite [if_neg (by simpa using hnil), hscanned.lo_eq, hscanned.hi_eq, hfetch]
    rfl

variable (archive later) in
theorem reconcile_of_not_reads (hreads : ¬ReadsAt lib stream call now) :
    ∃ e, ∀ fuel, stream.entries.length < fuel →
      reconcile lib fuel stream archive call now later = some (archive, .error e) := by
  rcases scan_result lib stream archive call now with ⟨hyes, -⟩ | ⟨-, e, hscan⟩
  · exact absurd hyes hreads
  · refine ⟨e, fun fuel hfuel => ?_⟩
    rw [reconcile, hscan fuel hfuel]

/-- The error of a run that would insert too much. -/
def refusal (planned maxInsert : Nat) : AgentBusError :=
  .internal s!"refusing to backfill {planned} messages: more than --max-insert {maxInsert}; narrow the window or raise the cap after reviewing the dry run"

variable (later) in
/-- A run of more than it may insert is refused, and changes nothing. -/
theorem reconcile_refused (hmax : call.maxInsert < (plannedAt lib stream archive call now).length)
    {fuel : Nat} (hfuel : stream.entries.length < fuel) :
    ∃ result, reconcile lib fuel stream archive call now later = some (archive, result) ∧
      (call.apply = true → ∃ e, result = .error e ∧ (ReadsAt lib stream call now →
        e = refusal (plannedAt lib stream archive call now).length call.maxInsert)) := by
  rcases scan_result lib stream archive call now with ⟨-, scan, hscanned, hscan⟩ | ⟨hnot, e, hscan⟩
  · rw [reconcile, hscan fuel hfuel]
    cases happly : call.apply with
    | false =>
      refine ⟨_, rfl, fun h => ?_⟩
      cases h
    | true =>
      simp only [plan_scan hscanned, Bool.not_true, Bool.false_eq_true, if_false, if_pos hmax]
      exact ⟨_, rfl, fun _ => ⟨_, rfl, fun _ => rfl⟩⟩
  · rw [reconcile, hscan fuel hfuel]
    exact ⟨_, rfl, fun _ => ⟨e, rfl, fun hreads => absurd hreads hnot⟩⟩

variable (lib archive now later) in
/-- A dry run changes nothing. -/
theorem reconcile_dry (happly : call.apply = false) {fuel : Nat}
    (hfuel : stream.entries.length < fuel) :
    ∃ result, reconcile lib fuel stream archive call now later = some (archive, result) := by
  rcases scan_result lib stream archive call now with ⟨-, scan, -, hscan⟩ | ⟨-, e, hscan⟩
  · rw [reconcile, hscan fuel hfuel, happly]
    exact ⟨_, rfl⟩
  · rw [reconcile, hscan fuel hfuel]
    exact ⟨_, rfl⟩

/-- Whatever becomes of a run, the rows that were there stay. -/
theorem reconcile_extends {fuel : Nat} (hfuel : stream.entries.length < fuel) :
    ∃ archive' result new, reconcile lib fuel stream archive call now later = some (archive', result) ∧
      archive'.rows = archive.rows ++ new := by
  cases happly : call.apply with
  | false =>
    -- a dry run leaves the archive as it was
    obtain ⟨result, hrun⟩ := reconcile_dry lib archive now later happly hfuel
    exact ⟨archive, result, [], hrun, (List.append_nil _).symm⟩
  | true =>
    by_cases hreads : ReadsAt lib stream call now
    -- the plan is longer than the insertions allowed
    swap
    · obtain ⟨e, hrun⟩ := reconcile_of_not_reads archive later hreads
      exact ⟨archive, _, [], hrun fuel hfuel, (List.append_nil _).symm⟩
    by_cases hmax : (plannedAt lib stream archive call now).length ≤ call.maxInsert
    swap
    · obtain ⟨result, hrun, -⟩ := reconcile_refused later (not_le.1 hmax) hfuel
      exact ⟨archive, result, [], hrun, (List.append_nil _).symm⟩
    obtain ⟨scan, -, hrun⟩ := reconcile_of_reads archive later happly hreads hmax
    -- the rows accepted before an error stay
    obtain ⟨new, hnew⟩ := sync_extends lib archive 0 (fetchedAt lib stream archive call now)
    rw [hrun fuel hfuel]
    generalize syncRedisToPostgres lib archive 0 (fetchedAt lib stream archive call now) = outcome
      at hnew ⊢
    obtain ⟨archive', outcome⟩ := outcome
    cases outcome with
    | error e => exact ⟨archive', _, new, rfl, hnew⟩
    | ok inserted =>
      rcases finish_result lib stream archive' call later scan inserted with
        ⟨-, rescan, -, hfinish⟩ | ⟨-, e, hfinish⟩
      · exact ⟨archive', _, new, hfinish fuel hfuel, hnew⟩
      · exact ⟨archive', _, new, hfinish fuel hfuel, hnew⟩

variable (lib stream archive call now later) in
/-- What a run needs to go to its end. -/
structure Runs : Prop where
  reads : ReadsAt lib stream call now
  rereads : ReadsAt lib stream call later
  accepted : Accepted lib archive (fetchedAt lib stream archive call now)

variable (later) in
/-- **A run** that may insert. -/
theorem apply_result (happly : call.apply = true)
    (hmax : (plannedAt lib stream archive call now).length ≤ call.maxInsert) :
    (Runs lib stream archive call now later ∧ ∃ archive' scan rescan,
      (∀ fuel, stream.entries.length < fuel → reconcile lib fuel stream archive call now later =
        some (archive', .ok (fullReport lib call scan rescan
          (restoredAt lib stream archive call now).length))) ∧
      archive'.rows = archive.rows ++ restoredAt lib stream archive call now ∧
      ScannedAt lib stream archive call now scan ∧
      ScannedAt lib stream archive' call later rescan) ∨
    (¬Runs lib stream archive call now later ∧ ∃ archive' e,
      ∀ fuel, stream.entries.length < fuel →
        reconcile lib fuel stream archive call now later = some (archive', .error e)) := by
  by_cases hreads : ReadsAt lib stream call now
  swap
  · obtain ⟨e, hrun⟩ := reconcile_of_not_reads archive later hreads
    exact Or.inr ⟨fun h => hreads h.reads, archive, e, hrun⟩
  obtain ⟨scan, hscanned, hrun⟩ := reconcile_of_reads archive later happly hreads hmax
  -- every fetched message parses, or it would not have been planned
  have hparsed : ∀ m ∈ fetchedAt lib stream archive call now,
      (parseUuid m.id).isSome ∧ (parseTimestampUtc lib m.timestampUtc).isSome := by
    intro m hm
    obtain ⟨-, ⟨id, hid, -⟩, ht⟩ := mem_fetchedAt hm
    exact ⟨by rw [hid, Option.isSome_some], ht⟩
  rcases @sync_result lib _ archive 0 hparsed with
    ⟨haccepted, archive', hsync, hrows⟩ | ⟨haccepted, archive', e, hsync⟩
  swap
  · refine Or.inr ⟨fun h => haccepted h.accepted, archive', e, fun fuel hfuel => ?_⟩
    rw [hrun fuel hfuel, hsync]
  -- the archive is read once more for the report
  rcases finish_result lib stream archive' call later scan
    (0 + (restoredAt lib stream archive call now).length) with
    ⟨hrereads, rescan, hrescanned, hfinish⟩ | ⟨hrereads, e, hfinish⟩
  · refine Or.inl ⟨⟨hreads, hrereads, haccepted⟩, archive', scan, rescan, fun fuel hfuel => ?_,
      hrows, hscanned, hrescanned⟩
    rw [hrun fuel hfuel, hsync]
    refine (hfinish fuel hfuel).trans ?_
    rw [Nat.zero_add]
  · refine Or.inr ⟨fun h => hrereads h.rereads, archive', e, fun fuel hfuel => ?_⟩
    rw [hrun fuel hfuel, hsync]
    exact hfinish fuel hfuel

/-- A run that reports has read the stream twice, and reports its plan. -/
theorem of_report (happly : call.apply = true) {fuel : Nat} (hfuel : stream.entries.length < fuel)
    {archive' : Archive} {report : ReconcileReport}
    (h : reconcile lib fuel stream archive call now later = some (archive', .ok report)) :
    ReadsAt lib stream call now ∧ ReadsAt lib stream call later ∧
      report.plannedRedisToPg = (plannedAt lib stream archive call now).length := by
  by_cases hreads : ReadsAt lib stream call now
  swap
  · obtain ⟨e, hrun⟩ := reconcile_of_not_reads archive later hreads
    rw [hrun fuel hfuel] at h
    cases h
  by_cases hmax : (plannedAt lib stream archive call now).length ≤ call.maxInsert
  swap
  · obtain ⟨result, hrun, herror⟩ := reconcile_refused later (not_le.1 hmax) hfuel
    obtain ⟨e, rfl, -⟩ := herror happly
    -- a refused plan gives no report
    rw [hrun] at h
    cases h
  obtain ⟨scan, hscanned, hrun⟩ := reconcile_of_reads archive later happly hreads hmax
  rw [hrun fuel hfuel] at h
  split at h
  · cases h
  · next archive'' inserted _ =>
    -- the report is made from the second scan
    rcases finish_result lib stream archive'' call later scan inserted with
      ⟨hrereads, rescan, -, hfinish⟩ | ⟨-, e, hfinish⟩
    · rw [hfinish fuel hfuel] at h
      cases h
      exact ⟨hreads, hrereads, congrArg List.length (plan_scan hscanned)⟩
    · rw [hfinish fuel hfuel] at h
      cases h

/-- A run with nothing to insert inserts nothing. -/
theorem apply_nil (happly : call.apply = true) (hreads : ReadsAt lib stream call now)
    (hrereads : ReadsAt lib stream call later)
    (hnil : plannedAt lib stream archive call now = []) {fuel : Nat}
    (hfuel : stream.entries.length < fuel) :
    ∃ report, reconcile lib fuel stream archive call now later = some (archive, .ok report) ∧
      report.plannedRedisToPg = 0 ∧ report.inserted = 0 := by
  have hmax : (plannedAt lib stream archive call now).length ≤ call.maxInsert := by
    rw [hnil]
    exact Nat.zero_le _
  obtain ⟨scan, hscanned, hrun⟩ := reconcile_of_reads archive later happly hreads hmax
  rw [hrun fuel hfuel, fetchedAt_eq_nil hnil, syncRedisToPostgres]
  rcases finish_result lib stream archive call later scan 0 with
    ⟨-, rescan, -, hfinish⟩ | ⟨hnot, -⟩
  · refine ⟨_, hfinish fuel hfuel, ?_, rfl⟩
    rw [fullReport, plan_scan hscanned, hnil]
    rfl
  · exact absurd hrereads hnot

end Run

/-! ### The repair -/

section Repair

variable (lib stream archive)

/-- A run with `apply` at one time, and another at a later: the first inserts a row for every planned
id, the decoded message of an entry, and leaves nothing that only the stream has; the second has nothing
to do. -/
def Repaired (fuel : Nat) (call : ReconcileCall) (n₁ n₂ n₃ n₄ : Int) : Prop :=
  ∃ archive' new report check report',
    reconcile lib fuel stream archive call n₁ n₂ = some (archive', .ok report) ∧
    archive'.rows = archive.rows ++ new ∧
    (new.map fun row => row.id.toString).Perm (plannedAt lib stream archive call n₁) ∧
    (∀ row ∈ new, ∃ entry ∈ stream.entries, syncRow lib (entry.message lib.codec) = some row ∧
      row.body = Sync.entryBody lib.codec entry.fields) ∧
    report.inserted = report.plannedRedisToPg ∧ report.inserted = new.length ∧
    report.after = some check ∧ check.report.redisOnlyCount = 0 ∧
    reconcile lib fuel stream archive' call n₃ n₄ = some (archive', .ok report') ∧
    report'.plannedRedisToPg = 0 ∧ report'.inserted = 0

/-- When two runs repair the archive: the stream can be read and the database accepts what is fetched;
an entry is fetched and admitted for every id that the window of the first comparison lacks; and every
id that a later comparison has is that of a row in its window, of the archive or admitted. -/
structure Repairable (call : ReconcileCall) (n₁ n₂ n₃ n₄ : Int) : Prop where
  reads : ∀ n ∈ [n₁, n₂, n₃, n₄], ReadsAt lib stream call n
  taken : ∀ m ∈ fetchedAt lib stream archive call n₁,
    ∃ row, syncRow lib m = some row ∧ lib.takes row = true
  room : ∀ row ∈ restoredAt lib stream archive call n₁, lib.hasRoom row = true
  admits : ∀ id, Lacks lib stream archive call n₁ id →
    ∃ row ∈ restoredAt lib stream archive call n₁, row.id = id
  held : ∀ n ∈ [n₂, n₃], ∀ id ∈ comparedAt lib stream call n,
    ∃ row ∈ archive.rows ++ restoredAt lib stream archive call n₁,
      row.id = id ∧ InWindowAt lib stream call n row

variable {lib stream archive} {call : ReconcileCall} {n₁ n₂ n₃ n₄ : Int}

theorem nodup_restored {archive' : Archive}
    (h : archive'.rows = archive.rows ++ restoredAt lib stream archive call n₁) :
    ((restoredAt lib stream archive call n₁).map fun row => row.id.toString).Nodup := by
  have hids := archive'.nodup_ids
  rw [h, List.map_append] at hids
  have hmap := (List.nodup_append.1 hids).2.1.map Uuid.toString_injective
  rw [List.map_map] at hmap
  exact hmap

/-- A restored row is the decoded message of an entry. -/
theorem exists_entry_of_restored {row : Row}
    (h : row ∈ restoredAt lib stream archive call n₁) :
    ∃ entry ∈ stream.entries, syncRow lib (entry.message lib.codec) = some row ∧
      row.body = Sync.entryBody lib.codec entry.fields := by
  obtain ⟨m, hm, hrow⟩ := List.mem_filterMap.1 (admitted_sublist.subset h)
  obtain ⟨⟨entry, hentry, rfl⟩, -⟩ := mem_fetchedAt hm
  exact ⟨entry, hentry, hrow, body_syncRow hrow⟩

theorem Repaired.repairable (happly : call.apply = true)
    (hmax : (plannedAt lib stream archive call n₁).length ≤ call.maxInsert) {fuel : Nat}
    (hfuel : stream.entries.length < fuel)
    (h : Repaired lib stream archive fuel call n₁ n₂ n₃ n₄) :
    Repairable lib stream archive call n₁ n₂ n₃ n₄ := by
  obtain ⟨archive', new, report, check, report', hrun, hrows, hperm, -, -, -, hafter, hnone, hagain,
    hplanned, -⟩ := h
  rcases apply_result n₂ happly hmax with
    ⟨hruns, archive'', scan, rescan, hresult, hrows', -, hrescanned⟩ | ⟨-, archive'', e, hresult⟩
  swap
  · rw [hresult fuel hfuel] at hrun
    cases hrun
  rw [hresult fuel hfuel] at hrun
  cases hrun
  cases hafter
  -- the rows added are those restored by the first call
  have hnew : new = restoredAt lib stream archive call n₁ := by
    rw [hrows'] at hrows
    exact (List.append_cancel_left hrows).symm
  subst hnew
  obtain ⟨hreads₃, hreads₄, hplanned'⟩ := of_report happly hfuel hagain
  refine ⟨?_, hruns.accepted.taken, hruns.accepted.room, ?_, ?_⟩
  · intro n hn
    simp only [List.mem_cons, List.not_mem_nil, or_false] at hn
    rcases hn with rfl | rfl | rfl | rfl
    · exact hruns.reads
    · exact hruns.rereads
    · exact hreads₃
    · exact hreads₄
  · -- a missing id is planned, so its row is among those added
    intro id hlacks
    obtain ⟨row, hrow, hid⟩ := List.mem_map.1 (hperm.mem_iff.2 (mem_plannedAt.2 hlacks))
    exact ⟨row, hrow, Uuid.toString_injective hid⟩
  · -- the later calls plan nothing
    intro n hn id hid
    simp only [List.mem_cons, List.not_mem_nil, or_false] at hn
    rw [← hrows']
    rcases hn with rfl | rfl
    · exact (redisOnlyCount_eq_zero hrescanned call.maxListed).1 hnone id hid
    · rw [hplanned'] at hplanned
      exact plannedAt_eq_nil.1 (List.length_eq_zero_iff.1 hplanned) id hid

theorem Repairable.repaired (happly : call.apply = true)
    (hmax : (plannedAt lib stream archive call n₁).length ≤ call.maxInsert) {fuel : Nat}
    (hfuel : stream.entries.length < fuel)
    (h : Repairable lib stream archive call n₁ n₂ n₃ n₄) :
    Repaired lib stream archive fuel call n₁ n₂ n₃ n₄ := by
  have hruns : Runs lib stream archive call n₁ n₂ :=
    ⟨h.reads n₁ (by simp), h.reads n₂ (by simp), h.taken, h.room⟩
  rcases apply_result n₂ happly hmax with
    ⟨-, archive', scan, rescan, hresult, hrows, hscanned, hrescanned⟩ | ⟨hnot, -⟩
  swap
  · exact absurd hruns hnot
  have hplanned : (planRedisToPg scan.redisIds scan.pgIds).length =
      (plannedAt lib stream archive call n₁).length := congrArg List.length (plan_scan hscanned)
  -- the ids that are planned are those that are restored
  have hperm : ((restoredAt lib stream archive call n₁).map fun row => row.id.toString).Perm
      (plannedAt lib stream archive call n₁) := by
    refine (List.perm_ext_iff_of_nodup (nodup_restored hrows) (nodup_idSet _)).2 fun text => ?_
    constructor
    · intro hmem
      obtain ⟨row, hrow, rfl⟩ := List.mem_map.1 hmem
      exact mem_plannedAt.2 (lacks_of_mem_fetchedRows (admitted_sublist.subset hrow))
    · intro hmem
      obtain ⟨id, rfl, hlacks⟩ := exists_of_mem_plannedAt hmem
      obtain ⟨row, hrow, rfl⟩ := h.admits id hlacks
      exact List.mem_map.2 ⟨row, hrow, rfl⟩
  have hlength : (restoredAt lib stream archive call n₁).length =
      (plannedAt lib stream archive call n₁).length := by
    rw [← hperm.length_eq, List.length_map]
  have hheld : ∀ n ∈ [n₂, n₃], ∀ id ∈ comparedAt lib stream call n,
      ∃ row ∈ archive'.rows, row.id = id ∧ InWindowAt lib stream call n row := by
    rw [hrows]
    exact h.held
  obtain ⟨report', hagain, hplanned', hinserted'⟩ := apply_nil happly (h.reads n₃ (by simp))
    (h.reads n₄ (by simp)) (plannedAt_eq_nil.2 (hheld n₃ (by simp))) hfuel
  exact ⟨archive', _, _, _, report', hresult fuel hfuel, hrows, hperm,
    fun row hrow => exists_entry_of_restored hrow, hlength.trans hplanned.symm, rfl, rfl,
    (redisOnlyCount_eq_zero hrescanned call.maxListed).2 (hheld n₂ (by simp)),
    hagain, hplanned', hinserted'⟩

variable (lib stream archive)

/-- **Repair**: a run keeps the rows that are there; a dry run and one that is refused change nothing;
and two runs with `apply` repair the archive exactly when they can. -/
theorem reconcile_repairs (call : ReconcileCall) (n₁ n₂ n₃ n₄ : Int) {fuel : Nat}
    (hfuel : stream.entries.length < fuel) :
    (∃ archive' result new, reconcile lib fuel stream archive call n₁ n₂ = some (archive', result) ∧
      archive'.rows = archive.rows ++ new) ∧
    (call.apply = false →
      ∃ result, reconcile lib fuel stream archive call n₁ n₂ = some (archive, result)) ∧
    (call.maxInsert < (plannedAt lib stream archive call n₁).length →
      ∃ result, reconcile lib fuel stream archive call n₁ n₂ = some (archive, result) ∧
        (call.apply = true → ∃ e, result = .error e ∧ (ReadsAt lib stream call n₁ →
          e = refusal (plannedAt lib stream archive call n₁).length call.maxInsert))) ∧
    (call.apply = true → (plannedAt lib stream archive call n₁).length ≤ call.maxInsert →
      (Repaired lib stream archive fuel call n₁ n₂ n₃ n₄ ↔
        Repairable lib stream archive call n₁ n₂ n₃ n₄)) := by
  refine ⟨reconcile_extends hfuel, fun happly => reconcile_dry lib archive n₁ n₂ happly hfuel,
    fun hmax => reconcile_refused n₂ hmax hfuel, fun happly hmax => ⟨fun h => ?_, fun h => ?_⟩⟩
  · exact h.repairable happly hmax hfuel
  · exact h.repaired happly hmax hfuel

end Repair

/-! ### Samples -/

section Samples

def sampleStores : StoreLibrary where
  codec := ⟨Json.plainDoubles, fun _ => none⟩
  parseRfc3339 := fun text => if text = "1970-01-01T00:00:01+00:00" then some 1000000000 else none
  toRfc3339 := fun t =>
    if t = 1000000000 then "1970-01-01T00:00:01+00:00" else "1970-01-01T00:00:02+00:00"
  sha256 := Outbox.zeroDigest
  takes := fun _ => true
  hasRoom := fun _ => true

/-- An entry of alice's. -/
def entryAt (ms : Nat) (id : String) : Entry where
  id := StreamId.mk ms 0
  fields := [("id", id), ("timestamp_utc", "1970-01-01T00:00:01Z"), ("from", "alice"), ("to", "bob"),
    ("topic", "note"), ("body", "hello")]

def sampleEntry : Entry := entryAt 1000 "00000000-0000-0000-0000-00000000000A"

def sampleStream : MessageStream where
  entries := [sampleEntry]
  ascending := List.pairwise_singleton _ _

/-- The row of `sampleEntry`, which carries the beginning of the epoch as its time. -/
def earlyArchive : Archive where
  rows := [Export.sampleRow]
  distinct := List.pairwise_singleton _ _

def sampleCall : ReconcileCall where
  scope := .full
  settle := 0
  maxListed := 50
  apply := true
  maxInsert := 1000

/-- Two seconds after the epoch. -/
def sampleNow : Int := 2000000000

theorem readsAt_sample : ReadsAt sampleStores sampleStream sampleCall sampleNow :=
  readable_short (by decide) (by decide)

theorem comparedAt_sample :
    comparedAt sampleStores sampleStream sampleCall sampleNow = [Uuid.ofNat 10] := by
  decide

theorem fetchedAt_sample {archive : Archive}
    (h : Lacks sampleStores sampleStream archive sampleCall sampleNow (Uuid.ofNat 10)) :
    fetchedAt sampleStores sampleStream archive sampleCall sampleNow =
      [sampleEntry.message sampleStores.codec] := by
  have hentries : entriesFrom sampleStream (startId (lowAt sampleStores sampleStream sampleCall
      sampleNow)) = [sampleEntry] := by decide
  have hwanted : wantedMessage sampleStores (plannedAt sampleStores sampleStream archive sampleCall
      sampleNow) (lowAt sampleStores sampleStream sampleCall sampleNow) (highAt sampleCall sampleNow)
      sampleEntry = some (sampleEntry.message sampleStores.codec) :=
    if_pos ⟨isWanted_iff.2 ⟨Uuid.ofNat 10, by decide, h⟩, by decide⟩
  rw [fetchedAt, hentries, List.filterMap_cons_some hwanted, List.filterMap_nil]

theorem plannedAt_sample {archive : Archive}
    (h : idsBetween archive (lowAt sampleStores sampleStream sampleCall sampleNow)
      (highAt sampleCall sampleNow) = []) :
    plannedAt sampleStores sampleStream archive sampleCall sampleNow = [(Uuid.ofNat 10).toString] := by
  rw [plannedAt, comparedAt_sample, h]
  simp [planRedisToPg, idSet, Text.sorted]

theorem lacks_sample {archive : Archive}
    (h : idsBetween archive (lowAt sampleStores sampleStream sampleCall sampleNow)
      (highAt sampleCall sampleNow) = []) :
    Lacks sampleStores sampleStream archive sampleCall sampleNow (Uuid.ofNat 10) := by
  rw [← mem_plannedAt, plannedAt_sample h]
  exact List.mem_singleton_self _

/-- The row of an entry as it is. -/
def rowFor (entry : Entry) (id : Uuid) : Row :=
  rowOf (entry.message sampleStores.codec) id 1000000000 none

theorem syncRow_entryAt {ms : Nat} {text : String} {id : Uuid} (hid : parseUuid text = some id) :
    syncRow sampleStores ((entryAt ms text).message sampleStores.codec) =
      some (rowFor (entryAt ms text) id) := by
  have hid' : parseUuid ((entryAt ms text).message sampleStores.codec).id = some id := hid
  have ht : parseTimestampUtc sampleStores ((entryAt ms text).message
      sampleStores.codec).timestampUtc = some 1000000000 := by
    show parseTimestampUtc sampleStores "1970-01-01T00:00:01Z" = _
    decide
  rw [syncRow, hid', ht]
  rfl

theorem syncRow_sample : syncRow sampleStores (sampleEntry.message sampleStores.codec) =
    some (rowFor sampleEntry (Uuid.ofNat 10)) :=
  syncRow_entryAt (by decide)

/-- A row of the entry that carries an earlier time: its id is planned at every run, and never
inserted. -/
theorem early_row_planned_forever :
    (∃ archive' report, (∀ fuel, 1 < fuel → reconcile sampleStores fuel sampleStream earlyArchive
        sampleCall sampleNow sampleNow = some (archive', .ok report)) ∧
      report.plannedRedisToPg = 1 ∧ report.inserted = 0) ∧
    ∀ fuel, 1 < fuel → ¬Repaired sampleStores sampleStream earlyArchive fuel sampleCall sampleNow
      sampleNow sampleNow sampleNow := by
  have hwindow : idsBetween earlyArchive (lowAt sampleStores sampleStream sampleCall
      sampleNow) (highAt sampleCall sampleNow) = [] := by decide
  -- the row is outside the window, so its message is planned
  have hplanned := plannedAt_sample hwindow
  have hmax : (plannedAt sampleStores sampleStream earlyArchive sampleCall sampleNow).length ≤
      sampleCall.maxInsert := by
    rw [hplanned]
    decide
  -- its id is taken: nothing is inserted
  have hrestored : restoredAt sampleStores sampleStream earlyArchive sampleCall sampleNow = [] := by
    rw [restoredAt, fetchedRows, fetchedAt_sample (lacks_sample hwindow),
      List.filterMap_cons_some syncRow_sample]
    rfl
  constructor
  · rcases apply_result sampleNow rfl hmax with
      ⟨-, archive', scan, rescan, hrun, -, hscanned, -⟩ | ⟨hnot, -⟩
    · refine ⟨archive', _, hrun, ?_, ?_⟩
      · rw [fullReport, plan_scan hscanned, hplanned]
        rfl
      · rw [fullReport, hrestored]
        rfl
    · refine absurd ⟨readsAt_sample, readsAt_sample, fun m hm => ?_, fun row hrow => rfl⟩ hnot
      rw [fetchedAt_sample (lacks_sample hwindow)] at hm
      obtain rfl := List.mem_singleton.1 hm
      exact ⟨_, syncRow_sample, rfl⟩
  · intro fuel hfuel h
    obtain ⟨row, hrow, -⟩ := (h.repairable rfl hmax hfuel).admits _ (lacks_sample hwindow)
    rw [hrestored] at hrow
    cases hrow

/-- An entry whose message is archived, and two whose messages are not. -/
def longerStream : MessageStream where
  entries := [entryAt 500 "00000000-0000-0000-0000-00000000000C", sampleEntry,
    entryAt 1000000 "00000000-0000-0000-0000-00000000000B"]
  ascending := by
    rw [Paging.Ascending]
    decide

def partArchive : Archive where
  rows := [rowFor (entryAt 500 "00000000-0000-0000-0000-00000000000C") (Uuid.ofNat 12)]
  distinct := List.pairwise_singleton _ _

theorem comparedAt_longer : comparedAt sampleStores longerStream sampleCall sampleNow =
    [Uuid.ofNat 12, Uuid.ofNat 10, Uuid.ofNat 11] := by
  decide +kernel

theorem plannedAt_longer : plannedAt sampleStores longerStream partArchive sampleCall sampleNow =
    [(Uuid.ofNat 10).toString, (Uuid.ofNat 11).toString] := by
  have hthere : idsBetween partArchive (lowAt sampleStores longerStream sampleCall sampleNow)
      (highAt sampleCall sampleNow) = [(Uuid.ofNat 12).toString] := by decide
  have hplan : ([Uuid.ofNat 12, Uuid.ofNat 10, Uuid.ofNat 11].map Uuid.toString).filter
      (fun id => id ∉ [(Uuid.ofNat 12).toString]) =
        [(Uuid.ofNat 10).toString, (Uuid.ofNat 11).toString] := by decide
  rw [plannedAt, comparedAt_longer, hthere, planRedisToPg, hplan, idSet,
    List.Nodup.dedup (by decide), Text.sorted, List.mergeSort_of_pairwise (by decide)]

theorem fetchedAt_longer : fetchedAt sampleStores longerStream partArchive sampleCall sampleNow =
    [sampleEntry, entryAt 1000000 "00000000-0000-0000-0000-00000000000B"].map
      (Entry.message sampleStores.codec) := by
  have hentries : entriesFrom longerStream (startId (lowAt sampleStores longerStream sampleCall
      sampleNow)) = longerStream.entries := by decide
  rw [fetchedAt, plannedAt_longer, hentries]
  -- the first is archived, the others are wanted
  have h₁ : wantedMessage sampleStores [(Uuid.ofNat 10).toString, (Uuid.ofNat 11).toString]
      (lowAt sampleStores longerStream sampleCall sampleNow) (highAt sampleCall sampleNow)
      (entryAt 500 "00000000-0000-0000-0000-00000000000C") = none := by
    rw [wantedMessage]
    exact if_neg fun h => absurd h.1 (by decide)
  have h₂ : wantedMessage sampleStores [(Uuid.ofNat 10).toString, (Uuid.ofNat 11).toString]
      (lowAt sampleStores longerStream sampleCall sampleNow) (highAt sampleCall sampleNow)
      sampleEntry = some (sampleEntry.message sampleStores.codec) := by
    rw [wantedMessage]
    exact if_pos ⟨by decide, by decide⟩
  have h₃ : wantedMessage sampleStores [(Uuid.ofNat 10).toString, (Uuid.ofNat 11).toString]
      (lowAt sampleStores longerStream sampleCall sampleNow) (highAt sampleCall sampleNow)
      (entryAt 1000000 "00000000-0000-0000-0000-00000000000B") =
        some ((entryAt 1000000 "00000000-0000-0000-0000-00000000000B").message
          sampleStores.codec) := by
    rw [wantedMessage]
    exact if_pos ⟨by decide, by decide⟩
  show [entryAt 500 "00000000-0000-0000-0000-00000000000C", sampleEntry,
    entryAt 1000000 "00000000-0000-0000-0000-00000000000B"].filterMap _ = _
  rw [List.filterMap_cons_none h₁, List.filterMap_cons_some h₂, List.filterMap_cons_some h₃]
  rfl

/-- The rows that a run restores. -/
def longerRows : List Row :=
  [rowFor sampleEntry (Uuid.ofNat 10),
    rowFor (entryAt 1000000 "00000000-0000-0000-0000-00000000000B") (Uuid.ofNat 11)]

theorem restoredAt_longer : restoredAt sampleStores longerStream partArchive sampleCall sampleNow =
    longerRows := by
  rw [restoredAt, fetchedRows, fetchedAt_longer]
  rfl

theorem repairable_longer : Repairable sampleStores longerStream partArchive sampleCall sampleNow
    sampleNow sampleNow sampleNow where
  reads := by
    intro n hn
    have hnow : n = sampleNow := by simpa using hn
    rw [hnow]
    -- the stream is short enough for the range to be read
    exact readable_short (by decide) (by decide)
  taken := by
    intro m hm
    rw [fetchedAt_longer] at hm
    rcases List.mem_pair.1 hm with rfl | rfl
    · -- the first of the two messages has the row of the sample
      exact ⟨_, syncRow_sample, rfl⟩
    · have hrow : syncRow sampleStores ((entryAt 1000000
          "00000000-0000-0000-0000-00000000000B").message sampleStores.codec) =
            some (rowFor _ (Uuid.ofNat 11)) := syncRow_entryAt (by decide)
      exact ⟨_, hrow, rfl⟩
  room := fun _ _ => rfl
  admits := by
    intro id hlacks
    rw [restoredAt_longer]
    rw [← mem_plannedAt, plannedAt_longer] at hlacks
    rcases List.mem_pair.1 hlacks with hid | hid
    · exact ⟨_, List.mem_cons_self, (Uuid.toString_injective hid).symm⟩
    · exact ⟨_, List.mem_cons_of_mem _ List.mem_cons_self, (Uuid.toString_injective hid).symm⟩
  held := by
    intro n hn id hid
    have hnow : n = sampleNow := by simpa using hn
    rw [hnow, comparedAt_longer] at hid
    rw [hnow, restoredAt_longer]
    -- every row of the archive then lies in the window
    have hwindow : ∀ row ∈ partArchive.rows ++ longerRows,
        InWindowAt sampleStores longerStream sampleCall sampleNow row := by
      simp only [InWindowAt, InWindow]
      decide
    obtain ⟨row, hrow, rfl⟩ := List.mem_map.1
      (show id ∈ (partArchive.rows ++ longerRows).map Row.id from hid)
    exact ⟨row, hrow, rfl, hwindow row hrow⟩

/-- Two of three messages are missing, and both are restored. -/
theorem reconcile_repairs_longer : Repaired sampleStores longerStream partArchive 4 sampleCall
    sampleNow sampleNow sampleNow sampleNow := by
  refine ((reconcile_repairs sampleStores longerStream partArchive sampleCall sampleNow sampleNow
    sampleNow sampleNow (show longerStream.entries.length < 4 by decide)).2.2.2 rfl ?_).2
    repairable_longer
  rw [plannedAt_longer]
  decide

end Samples

end AgentHub.Stores
