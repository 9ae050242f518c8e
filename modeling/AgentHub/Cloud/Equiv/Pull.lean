import AgentHub.Cloud.Equiv.BusLog
import AgentHub.Cloud.Worker
import AgentHub.Hub.Equiv.Compare
import AgentHub.Json.Equiv.Document
import AgentHub.Json.Equiv.RoundTrip
import AgentHub.Sync.Engine

/-!
# Pages of the log

A page has every row of its range (`syncPull_spec`), and its cursor moves on to the last row given
out or over the whole snapshot.  A hub that reads the page gets for every row the message of that
row (`ofValue_row`), unless the origin's sequence number is not one of 64 bits.
-/

namespace AgentHub.Cloud

open AgentHub.Json AgentHub.Paging BusLog

/-! ### Pages -/

namespace BusLog

variable {log : BusLog}

theorem seq_le_currentCursor {row : Row} (h : row ∈ log.rows) : row.seq ≤ log.currentCursor := by
  rw [currentCursor]
  rcases List.eq_nil_or_concat log.rows with hnil | ⟨front, last, hrows⟩
  · rw [hnil] at h
    cases h
  · have hasc := log.ascending
    rw [hrows, List.concat_eq_append] at h hasc ⊢
    rw [List.getLast?_append_cons]
    rcases List.mem_append.1 h with h | h
    · exact ((List.pairwise_append.1 hasc).2.2 row h last (by simp)).le
    · rw [List.mem_singleton.1 h]
      exact Nat.le_refl _

theorem currentCursor_le (log : BusLog) : log.currentCursor ≤ log.lastSeq := by
  rw [currentCursor]
  cases h : log.rows.getLast? with
  | none => exact Nat.zero_le _
  | some last => exact log.le_lastSeq last (List.mem_of_getLast? h)

/-- The rows a pull selects. -/
def selected (log : BusLog) (since : Nat) (hub : String) : List Row :=
  log.rows.filter fun row => decide (since < row.seq) && decide (row.originHub ≠ hub)

theorem mem_selected {since : Nat} {hub : String} {row : Row} :
    row ∈ log.selected since hub ↔ row ∈ log.rows ∧ since < row.seq ∧ row.originHub ≠ hub := by
  simp [selected]

/-- The rows the query of a pull finds; the high-water mark cuts nothing off. -/
theorem query_eq (log : BusLog) (since : Nat) {hub : String} (hhub : hub ≠ "") :
    (log.rows.filter fun row =>
      decide (since < row.seq) && decide (row.seq ≤ log.currentCursor) &&
        ((some hub).filter fun hub => !hub.isEmpty).all fun hub => row.originHub ≠ hub) =
      log.selected since hub := by
  have hsome : ((some hub).filter fun hub => !hub.isEmpty) = some hub := by
    rw [Option.filter_some, if_pos]
    simpa using hhub
  rw [hsome, selected]
  apply List.filter_congr
  intro row hrow
  simp [seq_le_currentCursor hrow]

/-- A pull in terms of the rows it selects. -/
theorem syncPull_eq (log : BusLog) (since : Nat) {hub : String} (hhub : hub ≠ "") (limit : Nat) :
    (log.syncPull since (some hub) limit).page = (log.selected since hub).take limit ∧
    (log.syncPull since (some hub) limit).hasMore =
      decide (limit < (log.selected since hub).length) := by
  have hlength : (limit < ((log.selected since hub).take (limit + 1)).length) ↔
      limit < (log.selected since hub).length := by
    rw [List.length_take]
    omega
  simp only [syncPull, query_eq log since hhub, decide_eq_true_eq, hlength, and_true]
  by_cases hmore : limit < (log.selected since hub).length
  · rw [if_pos hmore, List.take_take]
    congr 1
    omega
  · rw [if_neg hmore, List.take_of_length_le (by omega), List.take_of_length_le (by omega)]

theorem nextCursor_eq (log : BusLog) (since : Nat) (hub : String) (limit : Nat) :
    (log.syncPull since (some hub) limit).nextCursor =
      match (log.syncPull since (some hub) limit).hasMore,
        (log.syncPull since (some hub) limit).page.getLast? with
      | true, some last => last.seq
      | _, _ => max since log.currentCursor :=
  rfl

/-- What a page is to the log it was read from. -/
structure Covers (log : BusLog) (since : Nat) (hub : String) (r : SyncPullResult) : Prop where
  sound : ∀ row ∈ r.page, row ∈ log.rows ∧ since < row.seq ∧ row.originHub ≠ hub
  complete : ∀ row ∈ log.rows, row.originHub ≠ hub → since < row.seq → row.seq ≤ r.nextCursor →
    row ∈ r.page
  mono : since ≤ r.nextCursor
  advances : r.hasMore = true → since < r.nextCursor
  le_lastSeq : r.nextCursor ≤ max since log.lastSeq
  more_le_lastSeq : r.hasMore = true → r.nextCursor ≤ log.lastSeq

/-- **A page has every row of its range, and its cursor moves.** -/
theorem syncPull_covers (log : BusLog) (since : Nat) {hub : String} (hhub : hub ≠ "") {limit : Nat}
    (hlimit : 1 ≤ limit) : log.Covers since hub (log.syncPull since (some hub) limit) := by
  obtain ⟨hpage, hmore⟩ := syncPull_eq log since hhub limit
  have hasc : Ascending Row.seq (log.selected since hub) := log.ascending.filter _
  set r := log.syncPull since (some hub) limit with hr
  have hsound : ∀ row ∈ r.page, row ∈ log.rows ∧ since < row.seq ∧ row.originHub ≠ hub := by
    intro row hrow
    rw [hpage] at hrow
    exact mem_selected.1 (List.mem_of_mem_take hrow)
  by_cases h : limit < (log.selected since hub).length
  · have htrue : r.hasMore = true := by rw [hmore, decide_eq_true h]
    have hne : r.page ≠ [] := by
      intro hnil
      have hlen := congrArg List.length (hpage.symm.trans hnil)
      rw [List.length_take, List.length_nil] at hlen
      omega
    obtain ⟨last, hlast⟩ : ∃ last, r.page.getLast? = some last :=
      ⟨_, List.getLast?_eq_some_getLast hne⟩
    have hnext : r.nextCursor = last.seq := by
      rw [hr, nextCursor_eq, ← hr, htrue, hlast]
    have hmem := hsound last (List.mem_of_getLast? hlast)
    have hle : last.seq ≤ log.lastSeq := log.le_lastSeq last hmem.1
    refine ⟨hsound, ?_, ?_, ?_, ?_, ?_⟩
    · intro row hrow horigin hsince hseq
      -- the cut after the last row of the page leaves the page in front
      rw [← List.take_append_drop limit (log.selected since hub)] at hasc
      rw [hpage] at hlast ⊢
      rw [← (hasc.cut hlast).1, List.take_append_drop, List.mem_filter]
      exact ⟨mem_selected.2 ⟨hrow, hsince, horigin⟩, by simpa [hnext] using hseq⟩
    · rw [hnext]
      exact hmem.2.1.le
    · intro _
      rw [hnext]
      exact hmem.2.1
    · rw [hnext]
      exact hle.trans (Nat.le_max_right _ _)
    · intro _
      rw [hnext]
      exact hle
  · have hfalse : r.hasMore = false := by rw [hmore, decide_eq_false h]
    have hnext : r.nextCursor = max since log.currentCursor := by
      rw [hr, nextCursor_eq, ← hr, hfalse]
    have hcursor := currentCursor_le log
    refine ⟨hsound, ?_, ?_, ?_, ?_, ?_⟩
    · intro row hrow horigin hsince _
      rw [hpage, List.take_of_length_le (Nat.le_of_not_lt h)]
      exact mem_selected.2 ⟨hrow, hsince, horigin⟩
    · rw [hnext]
      exact Nat.le_max_left _ _
    · intro habs
      rw [hfalse] at habs
      cases habs
    · rw [hnext]
      omega
    · intro habs
      rw [hfalse] at habs
      cases habs

/-! ### The loop of a hub -/

end BusLog

/-! ### Messages of a page -/

variable {d : Doubles}

theorem rowSlots_nodup (row : Row) : ((rowSlots row).map Prod.fst).Nodup := by
  show ["id", "timestamp_utc", "protocol_version", "from", "to", "topic", "body", "tags",
    "priority", "request_ack", "metadata", "thread_id", "reply_to", "stream_id", "client_msg_id",
    "origin_host", "origin_hub", "origin_seq", "hlc", "sensitivity"].Nodup
  decide +kernel

theorem rowToMessage_field? {row : Row} {w : Value} (h : document d (rowToMessage row) = some w)
    (k : String) : w.field? k = ((rowSlots row).lookup k).join.bind (document d) := by
  rw [rowToMessage] at h
  rw [document_obj (compact_keys_nodup (rowSlots_nodup row)) h,
    get_compact (rowSlots_nodup row)]

/-- The message of a row, with the values its metadata and its sequence number are read as. -/
def Row.message (row : Row) (metadata : Value) (originSeq : Option Nat) : Sync.Message where
  id := row.id
  timestampUtc := row.timestampUtc
  protocolVersion := row.protocolVersion
  fromAgent := row.fromAgent
  toAgent := row.toAgent
  topic := row.topic
  body := row.body
  threadId := row.threadId
  tags := row.tags
  priority := row.priority
  requestAck := row.requestAck
  replyTo := row.replyTo
  metadata
  streamId := some row.streamId
  clientMsgId := row.clientMsgId
  originHub := some row.originHub
  originSeq := originSeq.map UInt64.ofNat
  hlc := row.hlc
  sensitivity := none

/-- The sequence number of the origin as a hub reads it; `none` is an error. -/
def Row.readOriginSeq (d : Doubles) (row : Row) : Option (Option Nat) :=
  Sync.readOption Value.asU64 (row.originSeq.bind (document d))

theorem readOption_str (s : Option String) :
    Sync.readOption Value.asStr ((s.map Value.str).bind (document d)) = some s := by
  cases s <;> rfl

theorem readTexts_str (texts : List String) : Sync.readTexts (.arr (texts.map .str)) = some texts :=
  mapM_asStr texts

/-- The message a hub reads for a row. -/
def Row.read (d : Doubles) (row : Row) : Option Sync.Message :=
  (row.readOriginSeq d).map fun seq => row.message ((document d row.metadata).getD .null) seq

theorem Row.streamId_injective {row row' : Row} (h : row.streamId = row'.streamId) :
    row.seq = row'.seq := by
  have htext := (String.append_left_inj "-0").1 h
  have hdigits : Nat.toDigits 10 row.seq = Nat.toDigits 10 row'.seq :=
    String.ofList_injective htext
  rw [← Nat.ofDigitChars_toDigits (n := row.seq) (b := 10) (by decide) (by decide), hdigits,
    Nat.ofDigitChars_toDigits (by decide) (by decide)]

theorem Row.read_fields {row : Row} {m : Sync.Message} (h : row.read d = some m) :
    m.originHub = some row.originHub ∧ m.id = row.id ∧ m.streamId = some row.streamId := by
  rw [Row.read, Option.map_eq_some_iff] at h
  obtain ⟨seq, -, rfl⟩ := h
  exact ⟨rfl, rfl, rfl⟩

/-- **A hub reads a row as its message, or not at all if the sequence number is not one.** -/
theorem ofValue_row {row : Row} {w : Value} (h : document d (rowToMessage row) = some w)
    (hs : row.sensitivity = none) : Sync.Message.ofValue w = row.read d := by
  -- every field of the printed row, as the client reads it
  have field := rowToMessage_field? h
  have hid : w.field? "id" = some (.str row.id) := field "id"
  have htime : w.field? "timestamp_utc" = some (.str row.timestampUtc) := field "timestamp_utc"
  have hversion : w.field? "protocol_version" = some (.str row.protocolVersion) :=
    field "protocol_version"
  have hfrom : w.field? "from" = some (.str row.fromAgent) := field "from"
  have hto : w.field? "to" = some (.str row.toAgent) := field "to"
  have htopic : w.field? "topic" = some (.str row.topic) := field "topic"
  have hbody : w.field? "body" = some (.str row.body) := field "body"
  have htags : w.field? "tags" = some (.arr (row.tags.map .str)) :=
    (field "tags").trans (document_arr_str row.tags)
  have hpriority : w.field? "priority" = some (.str row.priority) := field "priority"
  have hack : w.field? "request_ack" = some (.bool row.requestAck) := field "request_ack"
  have hmetadata : w.field? "metadata" = document d row.metadata := field "metadata"
  have hthread : w.field? "thread_id" = (row.threadId.map Value.str).bind (document d) :=
    field "thread_id"
  have hreply : w.field? "reply_to" = (row.replyTo.map Value.str).bind (document d) :=
    field "reply_to"
  have hstream : w.field? "stream_id" = some (.str row.streamId) := field "stream_id"
  have hclient : w.field? "client_msg_id" = (row.clientMsgId.map Value.str).bind (document d) :=
    field "client_msg_id"
  have hhub : w.field? "origin_hub" = some (.str row.originHub) := field "origin_hub"
  have hseq : w.field? "origin_seq" = row.originSeq.bind (document d) := field "origin_seq"
  have hhlc : w.field? "hlc" = (row.hlc.map Value.str).bind (document d) := field "hlc"
  have hsensitivity : w.field? "sensitivity" = none := by
    rw [field "sensitivity"]
    show ((row.sensitivity.filter _).map Value.str).bind (document d) = none
    rw [hs]
    rfl
  -- the tags are read back one by one
  have htexts : Sync.readDefault Sync.readTexts [] (w.field? "tags") = some row.tags := by
    rw [htags]
    exact readTexts_str row.tags
  unfold Sync.Message.ofValue
  rw [htexts]
  simp only [hid, htime, hversion, hfrom, hto, htopic, hbody, hpriority, hack, hmetadata, hthread,
    hreply, hstream, hclient, hhub, hseq, hhlc, hsensitivity, readOption_str]
  show ((Sync.readOption Value.asU64 (row.originSeq.bind (document d))).bind fun seq =>
    some (row.message ((document d row.metadata).getD .null) seq)) = _
  -- both sides read the sequence of the origin
  rw [Row.read, Row.readOriginSeq]
  cases Sync.readOption Value.asU64 (row.originSeq.bind (document d)) <;> rfl

/-- **A hub reads a page as the messages of its rows**, and goes on at its cursor or stays. -/
theorem pullPage_page {r : SyncPullResult} {body : Value} (h : readAnswer d (.ok r.value) = some body)
    (hs : ∀ row ∈ r.page, row.sensitivity = none) (since : Nat) :
    (Sync.pullPage body since).messages = r.page.filterMap (Row.read d) ∧
      ((Sync.pullPage body since).nextCursor = r.nextCursor ∨
        (Sync.pullPage body since).nextCursor = since) := by
  rw [readAnswer] at h
  split at h
  case isFalse => cases h
  case isTrue =>
    rw [SyncPullResult.value] at h
    have field := document_obj (by simp) h
    constructor
    · obtain ⟨items, hitems⟩ := document_of_mem h List.mem_cons_self
      have hmessages : body.field? "messages" = some items := (field "messages").trans hitems
      rw [document, Option.map_eq_some_iff] at hitems
      obtain ⟨items, hall, rfl⟩ := hitems
      have hpage : (Sync.pullPage body since).messages = items.filterMap Sync.Message.ofValue := by
        rw [Sync.pullPage, hmessages]
        rfl
      rw [hpage]
      have hrows := documentItems_forall₂ hall
      clear hall hpage hmessages field h
      -- row by row
      generalize r.page = page at hrows hs
      induction page generalizing items with
      | nil =>
        cases hrows
        rfl
      | cons row page ih =>
        cases hrows with
        | cons hrow hrest =>
          have hread := ofValue_row hrow (hs row List.mem_cons_self)
          have htail := ih _ hrest fun x hx => hs x (List.mem_cons_of_mem _ hx)
          rw [List.filterMap_cons, List.filterMap_cons, hread, htail]
    · have hnext : body.field? "next_cursor" = document d (.int r.nextCursor) :=
        field "next_cursor"
      rw [document] at hnext
      have hcursor : (Sync.pullPage body since).nextCursor =
          ((body.field? "next_cursor").bind Value.asU64).getD since := rfl
      rw [hcursor, hnext]
      split
      · rw [Option.bind_some, Value.asU64]
        split
        · exact Or.inl (by simp)
        · exact Or.inr rfl
      · exact Or.inr rfl

end AgentHub.Cloud
