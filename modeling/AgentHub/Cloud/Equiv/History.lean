import AgentHub.Cloud.Equiv.BusLog
import AgentHub.Cloud.History
import Mathlib.Data.List.Sort

/-!
# The page a read of the cloud returns

An access path changes nothing in the rows a query returns (`select_eq`), so the pages are those of
one log read backwards, and the result are the last rows that match, on every path
(`listMessages_exact`).
-/

namespace AgentHub.Cloud

open AgentHub.Json AgentHub.Paging

namespace BusLog

variable (order : IndexOrder) (log : BusLog)

/-- The newest rows come first, with or without an index. -/
theorem select_eq (path : Option MessageIndex) (keep : Row → Bool) (n : Nat) :
    log.select order path keep n = ((log.rows.filter keep).reverse).take n := by
  cases path with
  | none =>
    rw [select, List.filter_reverse]
  | some index =>
    rw [select]
    congr 1
    have hperm : (((order.visit index log.rows).filter keep).mergeSort
        fun a b => decide (b.seq ≤ a.seq)).Perm (log.rows.filter keep).reverse :=
      (List.mergeSort_perm _ _).trans
        (((order.perm index log.rows).filter keep).trans (List.reverse_perm _).symm)
    -- both descend, and a sequence number belongs to one row
    have hsorted : (((order.visit index log.rows).filter keep).mergeSort
        fun a b => decide (b.seq ≤ a.seq)).Pairwise fun a b => b.seq ≤ a.seq := by
      refine (List.pairwise_mergeSort (fun a b c hab hbc => ?_) (fun a b => ?_) _).imp
        fun h => by simpa using h
      · simp only [decide_eq_true_eq] at hab hbc ⊢
        exact hbc.trans hab
      · simpa using le_total b.seq a.seq
    have hreversed : (log.rows.filter keep).reverse.Pairwise fun a b => b.seq ≤ a.seq :=
      (List.pairwise_reverse.2 (log.ascending.filter keep)).imp fun h => h.le
    refine hperm.eq_of_pairwise ?_ hsorted hreversed
    intro a b ha hb hab hba
    have hmem : ∀ {row : Row}, row ∈ (log.rows.filter keep).reverse → row ∈ log.rows :=
      fun h => List.mem_of_mem_filter (List.mem_reverse.1 h)
    exact eq_of_seq_eq (hmem (hperm.mem_iff.1 ha)) (hmem hb) (le_antisymm hba hab)

/-- The rows a query is about, but for its tags. -/
def columnRows (query : ReadMessagesQuery) (cutoffIso : String) : List Row :=
  log.rows.filter (query.matchesColumns cutoffIso)

/-- The rows that satisfy every filter, among those whose sequence number a number of the language
can hold as a bound. -/
def matchingRows (query : ReadMessagesQuery) (cutoffIso : String) : List Row :=
  log.rows.filter fun row =>
    query.matchesColumns cutoffIso row && query.matchesTags row && decide (row.seq < maxSafeInteger)

/-- **A read returns the last matching rows**, on every access path. -/
theorem listMessagesOn_exact (query : ReadMessagesQuery) (cutoffIso : String)
    (path : Option MessageIndex) (hlimit : 1 ≤ query.limit)
    (hfew : (log.columnRows query cutoffIso).length < maxTagScanRows) :
    log.listMessagesOn order query cutoffIso path =
      some (((log.matchingRows query cutoffIso).rtake query.limit).map rowToMessage) := by
  set columns := log.columnRows query cutoffIso with hcolumns
  have hasc : Ascending Row.seq columns := log.ascending.filter _
  -- a page is the column filter behind the bound
  have hread : ∀ bound, log.readPage order path query cutoffIso bound =
      .ok ((before Row.seq bound columns).take query.pageSize) := by
    intro bound
    rw [readPage, select_eq, before, hcolumns, columnRows, List.filter_filter]
    congr 4
    funext row
    rw [Bool.and_comm]
  have hsize : 0 < query.pageSize := Nat.lt_of_lt_of_le (by decide) (Nat.le_max_right _ 200)
  have hlength : (before Row.seq (some maxSafeInteger) columns).length ≤ columns.length := by
    rw [before, List.length_reverse]
    exact List.length_filter_le _ _
  have hrows : columns.length ≤ log.rows.length := List.length_filter_le _ _
  -- the walk sees every page, since fewer rows match than its scan limit
  have hwalk : walk Row.seq (log.readPage order path query cutoffIso)
      (fun row => if query.matchesTags row then some (rowToMessage row) else none) query.limit
      query.pageSize (fun scanned => maxTagScanRows ≤ scanned) (log.rows.length + 1)
      (some maxSafeInteger) 0 [] =
      some (.ok ([] ++ ((before Row.seq (some maxSafeInteger) columns).filterMap fun row =>
        if query.matchesTags row then some (rowToMessage row) else none).take
          (query.limit - ([] : List Value).length))) := by
    apply hasc.walk_spec hsize hread
    · omega
    · exact hlimit
    · intro n hn
      simpa using (by omega : n < maxTagScanRows)
  -- what it collects, newest first, are the matching rows
  have hfound : ((before Row.seq (some maxSafeInteger) columns).filterMap fun row =>
      if query.matchesTags row then some (rowToMessage row) else none) =
      ((log.matchingRows query cutoffIso).map rowToMessage).reverse := by
    have hfilter : log.matchingRows query cutoffIso =
        (columns.filter fun row => row.seq < maxSafeInteger).filter query.matchesTags := by
      rw [hcolumns, columnRows, List.filter_filter, List.filter_filter]
      unfold matchingRows
      congr 1
      funext row
      cases query.matchesColumns cutoffIso row <;> cases query.matchesTags row <;> simp
    rw [hfilter, ← List.filterMap_eq_map, List.filterMap_filter, ← List.filterMap_reverse]
    rfl
  rw [listMessagesOn, hwalk, hfound, List.nil_append, List.length_nil, Nat.sub_zero,
    ← List.map_reverse, ← List.map_take, List.rtake_eq_reverse_take_reverse, List.map_reverse]
  rfl

/-- **`listMessages` returns the last matching rows**, and would on any other access path. -/
theorem listMessages_exact (query : ReadMessagesQuery) (hlimit : 1 ≤ query.limit)
    (hfew : ∀ cutoffIso, query.cutoffIso = some cutoffIso →
      (log.columnRows query cutoffIso).length < maxTagScanRows) :
    log.listMessages order query = (query.cutoffIso.map fun cutoffIso =>
        ((log.matchingRows query cutoffIso).rtake query.limit).map rowToMessage) ∧
      ∀ path, (query.cutoffIso.bind fun cutoffIso =>
        log.listMessagesOn order query cutoffIso path) = log.listMessages order query := by
  unfold listMessages
  cases hcutoff : query.cutoffIso with
  | none => exact ⟨rfl, fun _ => rfl⟩
  | some cutoffIso =>
    have hexact := fun path =>
      log.listMessagesOn_exact order query cutoffIso path hlimit (hfew cutoffIso hcutoff)
    refine ⟨hexact _, fun path => ?_⟩
    exact (hexact path).trans (hexact _).symm

/-! ### Samples -/

/-- A row of a sender with one tag. -/
def taggedRow (seq : Nat) (sender tag : String) : Row where
  id := toString seq
  timestampUtc := "2026-01-01T00:00:00.000000Z"
  protocolVersion := "1.0"
  fromAgent := sender
  toAgent := "bob"
  topic := "note"
  body := "hello"
  threadId := none
  tags := [tag]
  priority := "normal"
  requestAck := false
  replyTo := none
  metadata := .obj []
  clientMsgId := none
  originHost := none
  originSeq := none
  hlc := none
  sensitivity := none
  seq
  originHub := "hub-a"
  ingestedAtUtc := "2026-01-01T00:00:00.000000Z"

/-- A log of one row. -/
def oneRow (row : Row) : BusLog where
  rows := [row]
  lastSeq := row.seq
  ascending := List.pairwise_singleton _ _
  le_lastSeq _ h := (List.mem_singleton.1 h) ▸ Nat.le_refl _
  unique := List.pairwise_singleton _ _

def tableOrder : IndexOrder where
  visit _ rows := rows
  perm _ rows := List.Perm.refl rows

/-- What is addressed to an agent and has a tag. -/
def taggedQuery (tag : String) : ReadMessagesQuery where
  agent := some "bob"
  fromAgent := none
  sinceMs := 0
  limit := 1
  includeBroadcast := true
  topic := none
  threadId := none
  requiredTags := [tag]
  repo := none
  session := none

/-- A row with another tag and a row for another agent among those that match. -/
def fewRows : BusLog where
  rows := [taggedRow 1 "alice" "x", taggedRow 2 "alice" "x", taggedRow 3 "alice" "y",
    { taggedRow 4 "alice" "x" with toAgent := "carol" }, taggedRow 5 "alice" "x"]
  lastSeq := 5
  ascending := by
    rw [Ascending]
    decide
  le_lastSeq := by decide
  unique := by decide

/-- A read by an index: the last two that match. -/
theorem listMessages_exact_fewRows :
    fewRows.listMessages tableOrder { taggedQuery "x" with limit := 2 } =
      some ([taggedRow 2 "alice" "x", taggedRow 5 "alice" "x"].map rowToMessage) := by
  rw [(listMessages_exact tableOrder fewRows { taggedQuery "x" with limit := 2 } (by decide +kernel)
    (by
      intro cutoffIso _
      exact Nat.lt_of_le_of_lt (List.length_filter_le _ _) (by decide))).1]
  decide +kernel

/-- The row with the largest sequence number a bound can be is never read. -/
theorem listMessages_misses_last :
    (oneRow (taggedRow maxSafeInteger "alice" "x")).listMessages tableOrder (taggedQuery "x") =
        some [] ∧
      (taggedQuery "x").matchesColumns "1970-01-01T00:00:00.000Z"
        (taggedRow maxSafeInteger "alice" "x") = true ∧
      (taggedQuery "x").matchesTags (taggedRow maxSafeInteger "alice" "x") = true ∧
      (taggedQuery "x").cutoffIso = some "1970-01-01T00:00:00.000Z" := by
  decide +kernel

end BusLog

end AgentHub.Cloud
