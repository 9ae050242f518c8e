import AgentHub.Outbox.Equiv.Request
import AgentHub.Stores.Consistency
import Mathlib.Data.List.Dedup
import Mathlib.Data.List.Perm.Basic

/-!
# What a comparison reads

`rangeLoop_result`: a loop that reads pages visits the entries from an identifier on, in order.  So a
scan compares the ids of the entries of its window (`scanStores_result`), and the difference it reports
is empty when every one of them is the id of a row of the window (`redisOnlyCount_eq_zero`).
-/

namespace AgentHub.Stores

open AgentHub.Export (Row greatestId parseUuid)
open AgentHub.Hub (MessageStream)
open AgentHub.Outbox (Uuid)
open AgentHub.Sync (Entry StreamId)
open AgentHub.Validation (AgentBusError)

/-! ### Pages -/

/-- The entries from an identifier on. -/
def entriesFrom (stream : MessageStream) (id : StreamId) : List Entry :=
  stream.entries.filter fun entry => id ≤ entry.id

/-- No page that is full ends with the greatest identifier. -/
def RangeReads (stream : MessageStream) (id : StreamId) : Prop :=
  ∀ i entry, (entriesFrom stream id)[i]? = some entry → xrangePage ∣ i + 1 → entry.id < greatestId

/-- The entries that a range has. -/
def inRange (stream : MessageStream) : RangeStart → List Entry
  | .at id => entriesFrom stream id
  | .past id => Paging.after Entry.id id stream.entries

section Range

variable {α : Type} {stream : MessageStream} {visit : α → Entry → α} {id : StreamId} {acc : α}

theorem length_inRange_le (stream : MessageStream) (start : RangeStart) :
    (inRange stream start).length ≤ stream.entries.length := by
  cases start with
  | «at» id => exact List.length_filter_le _ _
  | past id => exact List.length_filter_le _ _

/-- The state between two rounds. -/
structure RangeReading (stream : MessageStream) (visit : α → Entry → α) (id : StreamId) (acc : α)
    (s : RangeStart × α) (done rest : List Entry) : Prop where
  split : entriesFrom stream id = done ++ rest
  acc_eq : s.2 = done.foldl visit acc
  full : xrangePage ∣ done.length
  range : inRange stream s.1 = rest
  start : (s.1 = .at id ∧ done = []) ∨ ∃ last, done.getLast? = some last ∧ s.1 = .past last.id

/-- Behind an entry of a range is what comes after it. -/
theorem inRange_past {done rest : List Entry} (h : entriesFrom stream id = done ++ rest) {last : Entry}
    (hlast : done.getLast? = some last) : inRange stream (.past last.id) = rest := by
  have hasc : Paging.Ascending Entry.id (done ++ rest) := by
    rw [← h]
    exact stream.ascending.filter _
  have hmem : last ∈ entriesFrom stream id := by
    rw [h]
    exact List.mem_append_left _ (List.mem_of_getLast? hlast)
  have hid : id ≤ last.id := by simpa using (List.mem_filter.1 hmem).2
  rw [← (hasc.cut hlast).2, ← h, inRange, entriesFrom, Paging.after, Paging.after, List.filter_filter]
  refine List.filter_congr fun entry _ => ?_
  by_cases hlt : last.id < entry.id
  · simp [hlt, hid.trans hlt.le]
  · simp [hlt]

theorem xrange_eq (stream : MessageStream) (count : Nat) (start : RangeStart) :
    (xrange stream count start = .ok ((inRange stream start).take count) ∧
        ∀ id, start = .past id → id < greatestId) ∨
      ∃ id e, start = .past id ∧ ¬id < greatestId ∧ xrange stream count start = .error e := by
  cases start with
  | «at» id =>
    refine Or.inl ⟨rfl, fun id' h => ?_⟩
    cases h
  | past id =>
    by_cases hlt : id < greatestId
    · refine Or.inl ⟨if_pos hlt, fun id' h => ?_⟩
      cases h
      exact hlt
    · exact Or.inr ⟨id, _, rfl, hlt, if_neg hlt⟩

/-- What the loop comes to. -/
def RangeResult (stream : MessageStream) (visit : α → Entry → α) (id : StreamId) (acc : α)
    (result : Except AgentBusError α) : Prop :=
  (RangeReads stream id ∧ result = .ok ((entriesFrom stream id).foldl visit acc)) ∨
    (¬RangeReads stream id ∧ ∃ e, result = .error e)

/-- When the last page was not full, no page ended with the greatest identifier. -/
theorem RangeReading.reads {s : RangeStart × α} {done rest : List Entry}
    (h : RangeReading stream visit id acc s done rest) (hrest : rest.length < xrangePage)
    (hstart : ∀ id', s.1 = .past id' → id' < greatestId) : RangeReads stream id := by
  have hasc : Paging.Ascending Entry.id (done ++ rest) := by
    rw [← h.split]
    exact stream.ascending.filter _
  intro i entry hi hdvd
  rw [h.split] at hi
  have hlt := (List.getElem?_eq_some_iff.1 hi).1
  rw [List.length_append] at hlt
  by_cases hdone : i < done.length
  · rw [List.getElem?_append_left hdone] at hi
    have hmem : entry ∈ done := List.mem_of_getElem? hi
    rcases h.start with ⟨-, hnil⟩ | ⟨last, hlast, hpast⟩
    · rw [hnil] at hmem
      cases hmem
    · rw [← (hasc.cut hlast).1] at hmem
      have hle : entry.id ≤ last.id := by simpa using (List.mem_filter.1 hmem).2
      exact hle.trans_lt (hstart _ hpast)
  · -- a page ends only after as many entries as it has
    have hstep : xrangePage ∣ i + 1 - done.length := Nat.dvd_sub hdvd h.full
    have hle := Nat.le_of_dvd (by omega) hstep
    omega

theorem RangeReading.round {s : RangeStart × α} {done rest : List Entry}
    (h : RangeReading stream visit id acc s done rest) :
    Turns (fun s => ∃ done rest, RangeReading stream visit id acc s done rest)
      (fun s => (inRange stream s.1).length) (RangeResult stream visit id acc) s
      (rangeRound stream visit s) := by
  obtain ⟨start, a⟩ := s
  rcases xrange_eq stream xrangePage start with ⟨hpage, hstart⟩ | ⟨id', e, hpast, hgreatest, hpage⟩
  swap
  · -- the range begins behind the greatest id: Redis refuses it
    rw [rangeRound, hpage]
    refine Or.inr ⟨fun hreads => ?_, e, rfl⟩
    rcases h.start with ⟨hat, -⟩ | ⟨last, hlast, hlast_past⟩
    · rw [show start = _ from hat] at hpast
      cases hpast
    · rw [show start = _ from hlast_past] at hpast
      cases hpast
      obtain ⟨init, hinit⟩ := List.getLast?_eq_some_iff.1 hlast
      refine hgreatest (hreads init.length last ?_ ?_)
      · rw [h.split, hinit, List.append_assoc, List.getElem?_append_right (le_refl _), Nat.sub_self]
        rfl
      · have hfull := h.full
        rw [hinit, List.length_append] at hfull
        exact hfull
  have hrange : inRange stream start = rest := h.range
  rw [hrange] at hpage
  -- the accumulator has visited what is done and this page
  have hfold : (rest.take xrangePage).foldl visit a = (done ++ rest.take xrangePage).foldl visit acc := by
    rw [List.foldl_append, show a = _ from h.acc_eq]
  -- a full page: another round follows
  by_cases hfull : xrangePage ≤ rest.length
  · have hlen : (rest.take xrangePage).length = xrangePage := List.length_take_of_le hfull
    obtain ⟨last, hlast⟩ : ∃ last, (rest.take xrangePage).getLast? = some last := by
      cases hnone : (rest.take xrangePage).getLast? with
      | some last => exact ⟨last, rfl⟩
      | none =>
        rw [List.getLast?_eq_none_iff.1 hnone] at hlen
        cases hlen
    have hround : rangeRound stream visit (start, a) =
        .ok (.inl (.past last.id, (rest.take xrangePage).foldl visit a)) := by
      rw [rangeRound, hpage]
      dsimp only [bind, Except.bind]
      rw [hlast]
      exact if_pos (le_of_eq hlen.symm)
    rw [hround]
    have hsplit : entriesFrom stream id = (done ++ rest.take xrangePage) ++ rest.drop xrangePage := by
      rw [h.split, List.append_assoc, List.take_append_drop]
    have hlast' : (done ++ rest.take xrangePage).getLast? = some last := by
      rw [List.getLast?_append, hlast]
      rfl
    -- the rest begins behind the last entry of the page
    refine ⟨⟨_, _, hsplit, hfold, ?_, inRange_past hsplit hlast', Or.inr ⟨last, hlast', rfl⟩⟩, ?_⟩
    · rw [List.length_append, hlen]
      exact Nat.dvd_add h.full (dvd_refl _)
    · show (inRange stream (.past last.id)).length < (inRange stream start).length
      rw [inRange_past hsplit hlast', hrange, List.length_drop]
      have hpos : 0 < xrangePage := by decide
      omega
  · -- a short page is the last one
    have hshort : rest.take xrangePage = rest := List.take_of_length_le (by omega)
    have hround : rangeRound stream visit (start, a) = .ok (.inr (rest.foldl visit a)) := by
      rw [rangeRound, hpage, hshort]
      dsimp only [bind, Except.bind]
      cases rest.getLast? with
      | none => rfl
      | some last => exact if_neg hfull
    rw [hround]
    rw [hshort, ← h.split] at hfold
    exact Or.inl ⟨h.reads (not_le.1 hfull) hstart, congrArg Except.ok hfold⟩

/-- **The loop visits the entries from an identifier on**, in order. -/
theorem rangeLoop_result (stream : MessageStream) (visit : α → Entry → α) (id : StreamId) (acc : α) :
    ∃ result, RangeResult stream visit id acc result ∧ ∀ fuel, stream.entries.length < fuel →
      loop (rangeRound stream visit) fuel (.at id, acc) = some result := by
  have hstart : RangeReading stream visit id acc (.at id, acc) [] (entriesFrom stream id) :=
    ⟨rfl, rfl, Nat.dvd_zero _, rfl, Or.inl ⟨rfl, rfl⟩⟩
  have hround : ∀ s, (∃ done rest, RangeReading stream visit id acc s done rest) →
      Turns (fun s => ∃ done rest, RangeReading stream visit id acc s done rest)
        (fun s => (inRange stream s.1).length) (RangeResult stream visit id acc) s
        (rangeRound stream visit s) := by
    rintro s ⟨done, rest, hs⟩
    exact hs.round
  obtain ⟨result, hresult, hloop⟩ := loop_total hround ⟨[], _, hstart⟩
  exact ⟨result, hresult, fun fuel hfuel =>
    hloop fuel (lt_of_le_of_lt (length_inRange_le stream (.at id)) hfuel)⟩

end Range

/-! ### The scan -/

section Scan

variable {lib : StoreLibrary} {stream : MessageStream} {archive : Archive}

variable (lib) in
/-- The id a scan reads off an entry that is timed within the window. -/
def comparedId (lo hi : Int) (entry : Entry) : Option Uuid :=
  match (fieldText entry.fields "timestamp_utc").bind (parseTimestampUtc lib) with
  | none => none
  | some t => if t < lo ∨ hi < t then none else (fieldText entry.fields "id").bind parseUuid

variable (lib) in
/-- The ids a scan of a window compares. -/
def comparedIds (stream : MessageStream) (lo hi : Int) : List Uuid :=
  (entriesFrom stream (startId lo)).filterMap (comparedId lib lo hi)

theorem ids_scanEntry (lo hi : Int) (out : RedisIds) (entry : Entry) :
    (scanEntry lib lo hi out entry).ids =
      out.ids ++ ((comparedId lib lo hi entry).map Uuid.toString).toList := by
  rw [scanEntry, comparedId]
  cases (fieldText entry.fields "timestamp_utc").bind (parseTimestampUtc lib) with
  | none => simp
  | some t =>
    dsimp only
    split_ifs with hout
    · simp
    · cases (fieldText entry.fields "id").bind parseUuid with
      | none => simp
      | some id => rfl

theorem ids_foldl_scanEntry (lo hi : Int) (entries : List Entry) : ∀ out : RedisIds,
    (entries.foldl (scanEntry lib lo hi) out).ids =
      out.ids ++ (entries.filterMap (comparedId lib lo hi)).map Uuid.toString := by
  induction entries with
  | nil => simp
  | cons entry entries ih =>
    intro out
    rw [List.foldl_cons, ih, ids_scanEntry, List.append_assoc]
    cases hid : comparedId lib lo hi entry with
    | none => simp [List.filterMap_cons_none hid]
    | some id => simp [List.filterMap_cons_some hid]

variable (lib) in
/-- What a scan comes to, if it does. -/
structure Scanned (stream : MessageStream) (archive : Archive) (lo hi : Int) (scan : StoreScan) :
    Prop where
  lo_eq : scan.lo = lo
  hi_eq : scan.hi = hi
  redisIds : scan.redisIds = (comparedIds lib stream lo hi).map Uuid.toString
  pgIds : scan.pgIds = idsBetween archive lo hi

/-- The stores can be read for a window: the stream as above, and PostgreSQL has the window's times. -/
structure Readable (stream : MessageStream) (lo hi : Int) : Prop where
  range : RangeReads stream (startId lo)
  holds : SqlHolds lo ∧ SqlHolds hi

/-- A stream that is shorter than a page is read in one. -/
theorem readable_short {stream : MessageStream} {lo hi : Int}
    (hlength : stream.entries.length < xrangePage) (hholds : SqlHolds lo ∧ SqlHolds hi) :
    Readable stream lo hi := by
  refine ⟨fun i entry hentry hdvd => ?_, hholds⟩
  have hlt := (List.getElem?_eq_some_iff.1 hentry).1
  have hlen : (entriesFrom stream (startId lo)).length ≤ stream.entries.length :=
    List.length_filter_le _ _
  have hle := Nat.le_of_dvd (Nat.succ_pos i) hdvd
  omega

variable (lib) in
/-- **A scan reads its window** where the stores can be read for it. -/
theorem scanStores_result (stream : MessageStream) (archive : Archive) (scope : Scope)
    (settle now : Int) :
    (Readable stream (windowStart lib stream scope settle now) (windowEnd settle now) ∧
      ∃ scan, Scanned lib stream archive (windowStart lib stream scope settle now)
          (windowEnd settle now) scan ∧
        ∀ fuel, stream.entries.length < fuel →
          scanStores lib fuel stream archive scope settle now = some (.ok scan)) ∨
    (¬Readable stream (windowStart lib stream scope settle now) (windowEnd settle now) ∧
      ∃ e, ∀ fuel, stream.entries.length < fuel →
        scanStores lib fuel stream archive scope settle now = some (.error e)) := by
  set lo := windowStart lib stream scope settle now with hlo
  set hi := windowEnd settle now with hhi
  set visit := scanEntry lib lo hi with hvisit
  obtain ⟨result, hresult, hloop⟩ := rangeLoop_result stream visit (startId lo) RedisIds.empty
  -- the scan is the loop over the stream, then one query of the archive
  have hscan : ∀ fuel, stream.entries.length < fuel →
      scanStores lib fuel stream archive scope settle now = some (do
        let redis ← result
        let pgIds ← listMessageIdsBetween archive lo hi
        return scanOf lib stream scope settle now redis pgIds) := by
    intro fuel hfuel
    rw [scanStores, hloop fuel hfuel]
    rfl
  rcases hresult with ⟨hreads, rfl⟩ | ⟨hreads, e, rfl⟩
  · -- the archive's times have bounds of their own
    by_cases hholds : SqlHolds lo ∧ SqlHolds hi
    · have hpg : listMessageIdsBetween archive lo hi = .ok (idsBetween archive lo hi) := if_pos hholds
      rw [hpg] at hscan
      exact Or.inl ⟨⟨hreads, hholds⟩, _, ⟨rfl, rfl, ids_foldl_scanEntry _ _ _ _, rfl⟩, hscan⟩
    · have hpg : listMessageIdsBetween archive lo hi = .error _ := if_neg hholds
      rw [hpg] at hscan
      exact Or.inr ⟨fun h => hholds h.holds, _, hscan⟩
  · exact Or.inr ⟨fun h => hreads h.range, e, hscan⟩

/-! ### The difference -/

theorem mem_idSet {ids : List String} {id : String} : id ∈ idSet ids ↔ id ∈ ids := by
  rw [idSet, Text.sorted, (List.mergeSort_perm _ _).mem_iff, List.mem_dedup]

theorem nodup_idSet (ids : List String) : (idSet ids).Nodup :=
  (List.mergeSort_perm _ _).nodup_iff.2 (List.nodup_dedup ids)

/-- A row lies in a window. -/
def InWindow (lo hi : Int) (row : Row) : Prop :=
  sqlTime lo ≤ row.timestampUtc ∧ row.timestampUtc ≤ sqlTime hi

theorem mem_idsBetween {lo hi : Int} {id : Uuid} :
    id.toString ∈ idsBetween archive lo hi ↔
      ∃ row ∈ archive.rows, row.id = id ∧ InWindow lo hi row := by
  simp only [idsBetween, List.mem_map, List.mem_filter, Bool.and_eq_true,
    decide_eq_true_eq, InWindow]
  constructor
  · rintro ⟨row, ⟨hrow, hin⟩, heq⟩
    exact ⟨row, hrow, Uuid.toString_injective heq, hin⟩
  · rintro ⟨row, hrow, rfl, hin⟩
    exact ⟨row, ⟨hrow, hin⟩, rfl⟩

/-- Nothing is missing where every id that is compared is that of a row of the window. -/
theorem redisOnlyCount_eq_zero {lo hi : Int} {scan : StoreScan}
    (h : Scanned lib stream archive lo hi scan) (maxListed : Nat) :
    (scan.check lib maxListed).report.redisOnlyCount = 0 ↔
      ∀ id ∈ comparedIds lib stream lo hi, ∃ row ∈ archive.rows, row.id = id ∧ InWindow lo hi row := by
  show ((idSet scan.redisIds).filter fun id => id ∉ idSet scan.pgIds).length = 0 ↔ _
  rw [List.length_eq_zero_iff, List.filter_eq_nil_iff, h.redisIds, h.pgIds]
  simp only [mem_idSet, decide_eq_true_eq, not_not, List.forall_mem_map, mem_idsBetween]

end Scan

end AgentHub.Stores
