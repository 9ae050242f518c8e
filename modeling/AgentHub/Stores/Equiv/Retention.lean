import AgentHub.Export.Equiv.Union
import AgentHub.Outbox.Equiv.Bytes
import AgentHub.Stores.Equiv.Consistency

/-!
# Comparing a trimmed stream

A message that is posted carries the time of its append, and one that is synced an older time, while
the identifiers of the stream follow the appends.  The table has every message that was appended, and
nothing else.  What the stream still has of the window is then in the table (`mem_pgIds_of_mem_redisIds`), and
a comparison finds no difference exactly when every message of the window is still in the stream
(`check_ok_iff`): the window begins with the time of the first entry, and a message that was trimmed may
be newer than that.
-/

namespace AgentHub.Stores

open AgentHub.Export (Row parseUuid)
open AgentHub.Hub (MessageStream)
open AgentHub.Outbox (Uuid)
open AgentHub.Sync (Entry StreamId)
open AgentHub.Validation (AgentBusError)

/-! ### Bounds of a window -/

theorem sqlTime_mono {s t : Int} (h : s ≤ t) : sqlTime s ≤ sqlTime t := by
  have hdiv : (s - 946684800000000000).tdiv 1000 ≤ (t - 946684800000000000).tdiv 1000 :=
    Int.tdiv_le_tdiv (by decide) (by omega)
  rw [sqlTime, sqlTime]
  omega

/-- A time lies in a window, as PostgreSQL compares it. -/
def SqlWithin (lo hi t : Int) : Prop := sqlTime lo ≤ sqlTime t ∧ sqlTime t ≤ sqlTime hi

theorem sqlWithin_of_within {lo hi t : Int} (hlo : lo ≤ t) (hhi : t ≤ hi) : SqlWithin lo hi t :=
  ⟨sqlTime_mono hlo, sqlTime_mono hhi⟩

/-- Where the window that is asked for begins. -/
def requestedStart (scope : Scope) (settle now : Int) : Int :=
  match scope with
  | .window length => windowEnd settle now - length
  | .full => 0

/-! ### The history of a stream -/

variable (lib : StoreLibrary)

/-- A message is appended at a time of the server's clock, which the identifier does not precede.  The
message has an id and a time, and that time is not after the append. -/
structure Append where
  time : Int
  entry : Entry
  id : Uuid
  sent : Int
  clock : time / 1000000 ≤ ((ofLex entry.id).1 : Int)
  id_eq : (fieldText entry.fields "id").bind parseUuid = some id
  sent_eq : (fieldText entry.fields "timestamp_utc").bind (parseTimestampUtc lib) = some sent
  sent_le : sent ≤ time

/-- What was appended to a stream. -/
structure History where
  appends : List (Append lib)
  ascending : Paging.Ascending (fun a : Append lib => a.entry.id) appends

variable {lib}

namespace History

variable (history : History lib) (trimmed : Nat)

/-- What is left of a history when its first entries are trimmed. -/
def retained : List (Append lib) := history.appends.drop trimmed

/-- The stream when its first entries are trimmed. -/
def stream : MessageStream where
  entries := (history.retained trimmed).map Append.entry
  ascending := by
    rw [retained, Paging.Ascending, List.pairwise_map]
    exact history.ascending.sublist (List.drop_sublist _ _)

/-- The time of the first message that is left, where that is later than what is asked for. -/
def windowStart (scope : Scope) (settle now : Int) : Int :=
  (history.retained trimmed).head?.elim (requestedStart scope settle now) fun a =>
    max (requestedStart scope settle now) a.sent

/-- The table has the messages of a history, and nothing else. -/
structure Stored (archive : Archive) : Prop where
  row : ∀ a ∈ history.appends, ∃ row ∈ archive.rows, row.id = a.id ∧ row.timestampUtc = sqlTime a.sent
  only : ∀ row ∈ archive.rows, ∃ a ∈ history.appends, row.id = a.id ∧ row.timestampUtc = sqlTime a.sent

/-- Every message of a window is still in the stream, with a time of the window. -/
def Keeps (lo hi : Int) : Prop :=
  ∀ a ∈ history.appends, SqlWithin lo hi a.sent →
    ∃ b ∈ history.retained trimmed, b.id = a.id ∧ lo ≤ b.sent ∧ b.sent ≤ hi

end History

section Trim

variable {history : History lib} {trimmed : Nat} {archive : Archive} {lo hi : Int}

theorem History.mem_of_mem_retained {a : Append lib} (h : a ∈ history.retained trimmed) :
    a ∈ history.appends := (List.drop_sublist _ _).subset h

/-- The scan begins no later than an entry whose message is within the window. -/
theorem Append.startId_le (a : Append lib) (h : lo ≤ a.sent) : startId lo ≤ a.entry.id := by
  have hclock := a.clock
  have hsent := a.sent_le
  have hms : (lo / 1000000 - 60000).toNat ≤ (ofLex a.entry.id).1 := by omega
  rw [Prod.Lex.le_iff]
  rcases hms.lt_or_eq with hlt | heq
  · exact Or.inl hlt
  · exact Or.inr ⟨heq, Nat.zero_le _⟩

theorem Append.comparedId_eq (a : Append lib) (lo hi : Int) :
    comparedId lib lo hi a.entry = if a.sent < lo ∨ hi < a.sent then none else some a.id := by
  rw [comparedId, a.sent_eq]
  dsimp only
  rw [a.id_eq]

/-- **A comparison has the ids of the messages that are left of its window.** -/
theorem mem_comparedIds {id : Uuid} :
    id ∈ comparedIds lib (history.stream trimmed) lo hi ↔
      ∃ a ∈ history.retained trimmed, a.id = id ∧ lo ≤ a.sent ∧ a.sent ≤ hi := by
  rw [comparedIds, List.mem_filterMap]
  constructor
  · rintro ⟨entry, hentry, hid⟩
    obtain ⟨a, ha, rfl⟩ := List.mem_map.1 (List.mem_filter.1 hentry).1
    rw [a.comparedId_eq] at hid
    split_ifs at hid with hout
    rw [not_or, not_lt, not_lt] at hout
    exact ⟨a, ha, Option.some.inj hid, hout.1, hout.2⟩
  · rintro ⟨a, ha, rfl, hlo, hhi⟩
    refine ⟨a.entry, List.mem_filter.2 ⟨List.mem_map_of_mem ha, ?_⟩, ?_⟩
    · exact decide_eq_true (a.startId_le hlo)
    · rw [a.comparedId_eq, if_neg (not_or.2 ⟨not_lt.2 hlo, not_lt.2 hhi⟩)]

/-- The window of a comparison. -/
theorem windowStart_stream (scope : Scope) (settle now : Int) :
    windowStart lib (history.stream trimmed) scope settle now =
      history.windowStart trimmed scope settle now := by
  have hstart : retentionStart lib (history.stream trimmed) =
      (history.retained trimmed).head?.map Append.sent := by
    rw [retentionStart, History.stream, List.head?_map]
    cases (history.retained trimmed).head? with
    | none => rfl
    | some a => exact congrArg (Option.or · _) a.sent_eq
  show (retentionStart lib (history.stream trimmed)).elim (requestedStart scope settle now)
      (fun start => max (requestedStart scope settle now) start) = _
  rw [hstart, History.windowStart]
  cases (history.retained trimmed).head? with
  | none => rfl
  | some a => rfl

/-- The table has the ids of the messages of the window. -/
theorem mem_idsBetween_stored (h : history.Stored archive) {id : Uuid} :
    id.toString ∈ idsBetween archive lo hi ↔
      ∃ a ∈ history.appends, a.id = id ∧ SqlWithin lo hi a.sent := by
  rw [mem_idsBetween]
  constructor
  · rintro ⟨row, hrow, rfl, hin⟩
    obtain ⟨a, ha, hid, htime⟩ := h.only row hrow
    rw [InWindow, htime] at hin
    exact ⟨a, ha, hid.symm, hin⟩
  · rintro ⟨a, ha, rfl, hin⟩
    obtain ⟨row, hrow, hid, htime⟩ := h.row a ha
    rw [SqlWithin, ← htime] at hin
    exact ⟨row, hrow, hid, hin⟩

/-! ### The difference -/

/-- No difference is reported exactly where the sets are equal. -/
theorem compareIdSets_ok (redis pg : List String) (maxListed : Nat) :
    (compareIdSets lib redis pg maxListed).ok = true ↔
      (∀ id ∈ redis, id ∈ pg) ∧ ∀ id ∈ pg, id ∈ redis := by
  have hredis : (idSet redis).filter (fun id => id ∉ idSet pg) = [] ↔ ∀ id ∈ redis, id ∈ pg := by
    simp only [List.filter_eq_nil_iff, mem_idSet, decide_eq_true_eq, not_not]
  have hpg : (idSet pg).filter (fun id => id ∉ idSet redis) = [] ↔ ∀ id ∈ pg, id ∈ redis := by
    simp only [List.filter_eq_nil_iff, mem_idSet, decide_eq_true_eq, not_not]
  rw [← hredis, ← hpg]
  simp only [compareIdSets, Bool.and_eq_true, List.isEmpty_iff]

/-- Then none is listed. -/
theorem compareIdSets_listed {redis pg : List String} {maxListed : Nat}
    (h : (compareIdSets lib redis pg maxListed).ok = true) :
    (compareIdSets lib redis pg maxListed).redisOnly = [] ∧
      (compareIdSets lib redis pg maxListed).pgOnly = [] := by
  simp only [compareIdSets, Bool.and_eq_true, List.isEmpty_iff] at h ⊢
  obtain ⟨hredis, hpg⟩ := h
  constructor
  · rw [hredis, List.take_nil]
  · rw [hpg, List.take_nil]

variable {scan : StoreScan}

/-- What the stream has of a window is in the table. -/
theorem mem_pgIds_of_mem_redisIds (h : history.Stored archive)
    (hscan : Scanned lib (history.stream trimmed) archive lo hi scan) :
    ∀ id ∈ scan.redisIds, id ∈ scan.pgIds := by
  rw [hscan.redisIds, hscan.pgIds, List.forall_mem_map]
  intro id hid
  obtain ⟨a, ha, rfl, hlo, hhi⟩ := mem_comparedIds.1 hid
  exact (mem_idsBetween_stored h).2
    ⟨a, History.mem_of_mem_retained ha, rfl, sqlWithin_of_within hlo hhi⟩

/-- What the table has of a window is in the stream where that keeps it. -/
theorem mem_redisIds_iff_keeps (h : history.Stored archive)
    (hscan : Scanned lib (history.stream trimmed) archive lo hi scan) :
    (∀ id ∈ scan.pgIds, id ∈ scan.redisIds) ↔ history.Keeps trimmed lo hi := by
  rw [hscan.redisIds, hscan.pgIds]
  constructor
  · intro hall a ha hin
    have hmem := hall _ ((mem_idsBetween_stored h).2 ⟨a, ha, rfl, hin⟩)
    obtain ⟨id, hid, htext⟩ := List.mem_map.1 hmem
    obtain rfl := Uuid.toString_injective htext
    exact mem_comparedIds.1 hid
  · intro hkeeps text htext
    obtain ⟨row, -, rfl⟩ := List.mem_map.1 htext
    obtain ⟨a, ha, hid, hin⟩ := (mem_idsBetween_stored h).1 htext
    have hmem := mem_comparedIds.2 (hkeeps a ha hin)
    rw [hid] at hmem
    exact List.mem_map_of_mem hmem

/-- **A comparison finds no difference** exactly where the stream keeps the window. -/
theorem check_ok_iff (h : history.Stored archive)
    (hscan : Scanned lib (history.stream trimmed) archive lo hi scan) (maxListed : Nat) :
    (scan.check lib maxListed).report.ok = true ↔ history.Keeps trimmed lo hi := by
  rw [StoreScan.check, compareIdSets_ok, mem_redisIds_iff_keeps h hscan,
    and_iff_right (mem_pgIds_of_mem_redisIds h hscan)]

variable (history trimmed archive) in
/-- `check_stores` reports that the stores agree. -/
def Agrees (fuel : Nat) (scope : Scope) (settle now : Int) (maxListed : Nat) : Prop :=
  ∃ check, checkStores lib fuel (history.stream trimmed) archive scope settle now maxListed =
      some (.ok check) ∧
    check.report.ok = true ∧ check.report.redisOnly = [] ∧ check.report.pgOnly = []

variable (history trimmed archive) in
/-- What `check_stores` comes to. -/
theorem checkStores_result (scope : Scope) (settle now : Int) (maxListed : Nat) :
    (Readable (history.stream trimmed) (history.windowStart trimmed scope settle now)
        (windowEnd settle now) ∧
      ∃ scan, Scanned lib (history.stream trimmed) archive
          (history.windowStart trimmed scope settle now) (windowEnd settle now) scan ∧
        ∀ fuel, (history.retained trimmed).length < fuel →
          checkStores lib fuel (history.stream trimmed) archive scope settle now maxListed =
            some (.ok (scan.check lib maxListed))) ∨
    (¬Readable (history.stream trimmed) (history.windowStart trimmed scope settle now)
        (windowEnd settle now) ∧
      ∃ e, ∀ fuel, (history.retained trimmed).length < fuel →
        checkStores lib fuel (history.stream trimmed) archive scope settle now maxListed =
          some (.error e)) := by
  have hlength : (history.stream trimmed).entries.length = (history.retained trimmed).length :=
    List.length_map _
  rw [← windowStart_stream, ← hlength]
  rcases scanStores_result lib (history.stream trimmed) archive scope settle now with
    ⟨hreads, scan, hscanned, hscan⟩ | ⟨hreads, e, hscan⟩
  · refine Or.inl ⟨hreads, scan, hscanned, fun fuel hfuel => ?_⟩
    rw [checkStores, hscan fuel hfuel]
    rfl
  · refine Or.inr ⟨hreads, e, fun fuel hfuel => ?_⟩
    rw [checkStores, hscan fuel hfuel]
    rfl

/-- **Retention is no divergence** exactly where the window is still in the stream, and can be read. -/
theorem retention_agrees (h : history.Stored archive) (scope : Scope) (settle now : Int)
    (maxListed : Nat) {fuel : Nat} (hfuel : (history.retained trimmed).length < fuel) :
    Agrees history trimmed archive fuel scope settle now maxListed ↔
      Readable (history.stream trimmed) (history.windowStart trimmed scope settle now)
          (windowEnd settle now) ∧
        history.Keeps trimmed (history.windowStart trimmed scope settle now)
          (windowEnd settle now) := by
  rcases checkStores_result history trimmed archive scope settle now maxListed with
    ⟨hreads, scan, hscanned, hcheck⟩ | ⟨hreads, e, hcheck⟩
  · rw [Agrees, hcheck fuel hfuel, and_iff_right hreads]
    constructor
    · rintro ⟨check, heq, hok, -⟩
      cases heq
      exact (check_ok_iff h hscanned maxListed).1 hok
    · intro hkeeps
      have hok := (check_ok_iff h hscanned maxListed).2 hkeeps
      exact ⟨_, rfl, hok, compareIdSets_listed hok⟩
  · rw [Agrees, hcheck fuel hfuel]
    constructor
    · rintro ⟨check, heq, -⟩
      cases heq
    · rintro ⟨hyes, -⟩
      exact absurd hyes hreads

end Trim

/-! ### Samples -/

section Samples

/-- Two times. -/
def twoTimes : StoreLibrary where
  codec := ⟨Json.plainDoubles, fun _ => none⟩
  parseRfc3339 := fun text =>
    if text = "1970-01-01T00:00:01+00:00" then some 1000000000
    else if text = "1970-01-01T00:00:02+00:00" then some 2000000000
    else none
  toRfc3339 := fun t =>
    if t = 1000000000 then "1970-01-01T00:00:01+00:00"
    else if t = 2000000000 then "1970-01-01T00:00:02+00:00"
    else "1970-01-01T00:01:00+00:00"
  sha256 := Outbox.zeroDigest
  takes := fun _ => true
  hasRoom := fun _ => true

/-- A message that is posted. -/
def postedAppend : Append twoTimes where
  time := 2000000000
  entry := ⟨StreamId.mk 2000 0, [("id", "00000000-0000-0000-0000-000000000001"),
    ("timestamp_utc", "1970-01-01T00:00:02Z"), ("body", "hello")]⟩
  id := Uuid.ofNat 1
  sent := 2000000000
  clock := by decide
  id_eq := by decide
  sent_eq := by decide
  sent_le := by decide

/-- A message that is synced afterwards. -/
def syncedAppend : Append twoTimes where
  time := 3000000000
  entry := ⟨StreamId.mk 3000 0, [("id", "00000000-0000-0000-0000-000000000002"),
    ("timestamp_utc", "1970-01-01T00:00:01Z"), ("body", "hello")]⟩
  id := Uuid.ofNat 2
  sent := 1000000000
  clock := by decide
  id_eq := by decide
  sent_eq := by decide
  sent_le := by decide

theorem posted_before_synced : postedAppend.entry.id < syncedAppend.entry.id := by decide

def sampleHistory : History twoTimes where
  appends := [postedAppend, syncedAppend]
  ascending := List.pairwise_pair.2 posted_before_synced

def storedRow (a : Append twoTimes) : Row :=
  { Export.sampleRow with id := a.id, timestampUtc := sqlTime a.sent, streamId := none }

theorem storedRows_distinct : clashes (storedRow postedAppend) (storedRow syncedAppend) = false := by
  decide

def storedArchive : Archive where
  rows := [storedRow postedAppend, storedRow syncedAppend]
  distinct := List.pairwise_pair.2 storedRows_distinct

/-- A table with one row for each append. -/
theorem stored_of_rows {history : History twoTimes} {archive : Archive}
    (h : archive.rows = history.appends.map storedRow) : history.Stored archive where
  row := by
    intro a ha
    rw [h]
    exact ⟨storedRow a, List.mem_map_of_mem ha, rfl, rfl⟩
  only := by
    intro row hrow
    rw [h] at hrow
    obtain ⟨a, ha, rfl⟩ := List.mem_map.1 hrow
    exact ⟨a, ha, rfl, rfl⟩

theorem stored_sample : sampleHistory.Stored storedArchive := stored_of_rows rfl

/-- A minute after the epoch. -/
def minuteAfter : Int := 60000000000

/-- A message that is posted before those. -/
def earlierAppend : Append twoTimes where
  time := 1000000000
  entry := ⟨StreamId.mk 1000 0, [("id", "00000000-0000-0000-0000-000000000003"),
    ("timestamp_utc", "1970-01-01T00:00:01Z"), ("body", "hello")]⟩
  id := Uuid.ofNat 3
  sent := 1000000000
  clock := by decide
  id_eq := by decide
  sent_eq := by decide
  sent_le := by decide

theorem earlier_before_posted : earlierAppend.entry.id < postedAppend.entry.id := by decide

def longerHistory : History twoTimes where
  appends := [earlierAppend, postedAppend, syncedAppend]
  ascending := List.isChain_iff_pairwise.1
    (.cons_cons earlier_before_posted (.cons_cons posted_before_synced (.singleton _)))

def longerArchive : Archive where
  rows := [storedRow earlierAppend, storedRow postedAppend, storedRow syncedAppend]
  distinct := by decide

/-- The first entry is trimmed, and its message is older than what is left.  So is the synced one,
which the stream still has. -/
theorem retention_agrees_trimmed :
    longerHistory.retained 1 = [postedAppend, syncedAppend] ∧
      Agrees longerHistory 1 longerArchive 3 .full 0 minuteAfter 50 := by
  refine ⟨rfl, (retention_agrees (stored_of_rows rfl) .full 0 minuteAfter 50 (by decide)).2
    ⟨readable_short (by decide) (by decide), fun a ha hin => ?_⟩⟩
  rcases List.mem_cons.1 ha with rfl | ha
  · exact absurd hin.1 (by decide)
  rcases List.mem_pair.1 ha with rfl | rfl
  · exact ⟨postedAppend, List.mem_cons_self, rfl, by decide, by decide⟩
  · exact absurd hin.1 (by decide)

/-- When the first entry is trimmed, the window begins before its message. -/
theorem trimmed_message_differs : sampleHistory.Stored storedArchive ∧ ∃ check,
    (∀ fuel, 1 < fuel →
      checkStores twoTimes fuel (sampleHistory.stream 1) storedArchive .full 0 minuteAfter 50 =
        some (.ok check)) ∧
    check.report.ok = false := by
  refine ⟨stored_sample, ?_⟩
  rcases checkStores_result sampleHistory 1 storedArchive .full 0 minuteAfter 50 with
    ⟨-, scan, hscanned, hcheck⟩ | ⟨hreads, -⟩
  swap
  · exact absurd (readable_short (by decide) (by decide)) hreads
  refine ⟨_, hcheck, Bool.eq_false_iff.2 fun hok => ?_⟩
  have hkeeps := (check_ok_iff stored_sample hscanned 50).1 hok
  obtain ⟨b, hb, hid, -⟩ := hkeeps postedAppend (List.mem_cons_self ..)
    ⟨by decide, by decide⟩
  obtain rfl := List.mem_singleton.1 (show b ∈ [syncedAppend] from hb)
  revert hid
  decide

end Samples

end AgentHub.Stores
