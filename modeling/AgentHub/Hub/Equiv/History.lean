import AgentHub.Hub.History
import AgentHub.Json.Equiv.Document

/-!
# The history a read returns

The entries of a window that the filters let through are read backwards up to the limit, so a read
ends with the last of them in their order, unless Redis refuses the size of its pages
(`history_exact`).
-/

namespace AgentHub.Hub

open AgentHub.Paging
open AgentHub.Sync (Entry Codec)
open AgentHub.Validation (AgentBusError)

variable (codec : Codec) (parseRfc3339 : String → Option Int)

/-- The window does not begin before the calendar of `chrono`. -/
def Reaches (now sinceMinutes : Nat) : Prop :=
  calendarStart * 1000000000 ≤ (now : Int) - sinceMinutes * 60 * 1000000000

/-- Where the window begins. -/
def windowStart (now sinceMinutes : Nat) : Int := now - sinceMinutes * 60 * 1000000000

/-- The entry is in the window: by its place in the stream and, if it has one, by its time. -/
def inWindow (cutoff : Int) (entry : Entry) : Bool :=
  decide (streamStart cutoff ≤ entry.id) &&
    !beforeCutoff parseRfc3339 cutoff (entry.message codec)

/-- The messages of the window that match the filters, oldest first. -/
def matching (stream : MessageStream) (filters : HistoryFilters) (cutoff : Int) :
    List Sync.Message :=
  ((stream.entries.filter (inWindow codec parseRfc3339 cutoff)).map fun entry =>
    entry.message codec).filter fun m => filters.messageMatchesFilters m

variable {codec parseRfc3339}

theorem pageSize_pos (filters : HistoryFilters) (limit : Nat) : 0 < pageSize filters limit :=
  Nat.lt_of_lt_of_le (by decide) (Nat.le_max_right _ xrevrangeMinFetch)

theorem asI64_of_lt {n : Nat} (h : n < 2 ^ 63) : asI64 n = n := if_pos h

/-- The window of a number of minutes within the calendar. -/
theorem historyCutoff_eq {now sinceMinutes : Nat} (hnow : now < calendarStop * 1000000000)
    (h : Reaches now sinceMinutes) :
    historyCutoff now sinceMinutes = some (windowStart now sinceMinutes) := by
  have hstart := h
  unfold Reaches calendarStart at h
  unfold calendarStop at hnow
  have hduration : durationMinutes sinceMinutes = some (sinceMinutes * 60 * 1000000000 : Int) := by
    rw [durationMinutes, if_pos (by omega)]
  have hstop : (now : Int) - sinceMinutes * 60 * 1000000000 < calendarStop * 1000000000 := by
    unfold calendarStop
    omega
  rw [historyCutoff, asI64_of_lt (by omega), hduration, Option.bind_some, inCalendar,
    if_pos ⟨hstart, hstop⟩, windowStart]

/-- A number of minutes that the cast keeps, before the calendar. -/
theorem historyCutoff_eq_none {now sinceMinutes : Nat} (hcast : sinceMinutes < 2 ^ 63)
    (h : ¬ Reaches now sinceMinutes) : historyCutoff now sinceMinutes = none := by
  rw [historyCutoff, asI64_of_lt hcast, durationMinutes]
  split
  · rw [Option.bind_some, inCalendar, if_neg fun hboth => h hboth.1]
  · rfl

/-- What is selected of an entry of the window is its message, if that matches. -/
theorem selectEntry_eq (filters : HistoryFilters) (cutoff : Int) (entry : Entry) :
    selectEntry codec parseRfc3339 filters cutoff entry =
      if !beforeCutoff parseRfc3339 cutoff (entry.message codec) &&
          filters.messageMatchesFilters (entry.message codec) then some (entry.message codec)
      else none := by
  have htime : beforeCutoff parseRfc3339 cutoff (entry.message codec) =
      beforeCutoff parseRfc3339 cutoff (Sync.decodeStreamEntry codec entry.fields) := rfl
  have hfilters : filters.messageMatchesFilters (entry.message codec) =
      filters.messageMatchesFilters (Sync.decodeStreamEntry codec entry.fields) := rfl
  unfold selectEntry
  rw [htime, hfilters]
  dsimp only
  split_ifs <;> simp_all [Entry.message]

/-- What is selected of the window is what matches. -/
theorem filterMap_selectEntry (stream : MessageStream) (filters : HistoryFilters) (cutoff : Int) :
    ((stream.entries.filter fun entry => streamStart cutoff ≤ entry.id).filterMap
      (selectEntry codec parseRfc3339 filters cutoff)) =
      matching codec parseRfc3339 stream filters cutoff := by
  unfold matching
  induction stream.entries with
  | nil => rfl
  | cons entry entries ih =>
    by_cases hstart : streamStart cutoff ≤ entry.id
    · rw [List.filter_cons_of_pos (by simpa using hstart), List.filterMap_cons, ih, selectEntry_eq]
      cases htime : beforeCutoff parseRfc3339 cutoff (entry.message codec) with
      | true => simp [inWindow, htime]
      | false =>
        cases hmatch : filters.messageMatchesFilters (entry.message codec) with
        | true => simp [inWindow, htime, hstart, hmatch]
        | false => simp [inWindow, htime, hstart, hmatch]
    · rw [List.filter_cons_of_neg (by simpa using hstart), ih]
      simp [inWindow, hstart]

/-- The window is read as far as it is wanted. -/
theorem walk_window (stream : MessageStream) (filters : HistoryFilters) (cutoff : Int)
    {limit fuel : Nat} (hlimit : limit ≠ 0) (hsize : pageSize filters limit < 2 ^ 63)
    (hfuel : stream.entries.length < fuel) :
    walk Entry.id (xrevrange stream (streamStart cutoff) (pageSize filters limit))
        (selectEntry codec parseRfc3339 filters cutoff) limit (pageSize filters limit)
        (fun _ => false) fuel none 0 [] =
      some (.ok ((matching codec parseRfc3339 stream filters cutoff).reverse.take limit)) := by
  set window := stream.entries.filter fun entry => streamStart cutoff ≤ entry.id with hwindow
  have hasc : Paging.Ascending Entry.id window := stream.ascending.filter _
  have hread : ∀ bound, xrevrange stream (streamStart cutoff) (pageSize filters limit) bound =
      .ok ((before Entry.id bound window).take (pageSize filters limit)) := by
    intro bound
    rw [xrevrange, if_pos hsize]
  have hwhole : before Entry.id none window = window.reverse := by
    simp [before]
  have hlength : (before Entry.id none window).length < fuel := by
    rw [hwhole, List.length_reverse]
    exact Nat.lt_of_le_of_lt (List.length_filter_le _ _) hfuel
  rw [hasc.walk_spec (pageSize_pos filters limit) hread hlength (Nat.pos_of_ne_zero hlimit)
    (fun _ _ => rfl), hwhole, List.filterMap_reverse, hwindow, filterMap_selectEntry]
  rfl

/-- A page size that is no signed number is refused on the first page. -/
theorem read_refused {stream : MessageStream} {now sinceMinutes limit fuel : Nat}
    {filters : HistoryFilters} (hfuel : stream.entries.length < fuel)
    (hnow : now < calendarStop * 1000000000) (hlimit : limit ≠ 0)
    (hreaches : Reaches now sinceMinutes) (hsize : 2 ^ 63 ≤ pageSize filters limit) :
    busListMessagesFromRedisWithFilters codec parseRfc3339 fuel stream now filters sinceMinutes
        limit =
      some (.returned (.error (.internal
        "XREVRANGE failed: ResponseError: value is not an integer or out of range"))) := by
  obtain ⟨fuel, rfl⟩ := Nat.exists_eq_succ_of_ne_zero (Nat.ne_of_gt (Nat.zero_lt_of_lt hfuel))
  have hread : xrevrange stream (streamStart (windowStart now sinceMinutes))
      (pageSize filters limit) none =
      .error (.internal
        "XREVRANGE failed: ResponseError: value is not an integer or out of range") := by
    rw [xrevrange, if_neg (Nat.not_lt.2 hsize)]
  unfold busListMessagesFromRedisWithFilters
  rw [if_neg hlimit, historyCutoff_eq hnow hreaches]
  dsimp only
  rw [walk, if_neg (by simp), hread]
  rfl

variable (codec parseRfc3339) in
/-- **A read returns the last matching messages of the window**, however they lie in its pages, for a
window within the calendar; a page size that is no signed number makes it fail, and a window that
begins before the calendar makes it panic. -/
theorem history_exact (stream : MessageStream) (now : Nat) (filters : HistoryFilters)
    (sinceMinutes limit fuel : Nat) (hfuel : stream.entries.length < fuel)
    (hnow : now < calendarStop * 1000000000) :
    (limit = 0 ∨ (Reaches now sinceMinutes ∧ pageSize filters limit < 2 ^ 63) →
      busListMessagesFromRedisWithFilters codec parseRfc3339 fuel stream now filters sinceMinutes
          limit =
        some (.returned (.ok ((matching codec parseRfc3339 stream filters
          (windowStart now sinceMinutes)).rtake limit)))) ∧
    (limit ≠ 0 → Reaches now sinceMinutes → 2 ^ 63 ≤ pageSize filters limit →
      busListMessagesFromRedisWithFilters codec parseRfc3339 fuel stream now filters sinceMinutes
          limit =
        some (.returned (.error (.internal
          "XREVRANGE failed: ResponseError: value is not an integer or out of range")))) ∧
    (limit ≠ 0 → sinceMinutes < 2 ^ 63 → ¬ Reaches now sinceMinutes →
      busListMessagesFromRedisWithFilters codec parseRfc3339 fuel stream now filters sinceMinutes
          limit = some .panicked) := by
  refine ⟨?_, read_refused hfuel hnow, ?_⟩
  · intro h
    unfold busListMessagesFromRedisWithFilters
    -- a limit of zero reads nothing
    split_ifs with hlimit
    · rw [hlimit, List.rtake_zero]
    · obtain ⟨hreaches, hsize⟩ := h.resolve_left hlimit
      -- the window is cut where the calendar still reaches
      rw [historyCutoff_eq hnow hreaches]
      dsimp only
      rw [walk_window stream filters _ hlimit hsize hfuel, List.rtake_eq_reverse_take_reverse]
      rfl
  · intro hlimit hcast hbefore
    unfold busListMessagesFromRedisWithFilters
    -- before the calendar the arithmetic of the cutoff panics
    rw [if_neg hlimit, historyCutoff_eq_none hcast hbefore]

/-! ### A stream of two messages -/

/-- Libraries for entries without numbers, and no readable times. -/
def timelessCodec : Codec where
  doubles := Json.plainDoubles
  lz4DecompressBody := fun _ => none

/-- An entry with a sender and a topic. -/
def shortEntry (ms : Nat) (sender topic : String) : Entry where
  id := Sync.StreamId.mk ms 0
  fields := [("id", toString ms), ("from", sender), ("to", "bob"), ("topic", topic)]

def shortEntries : List Entry :=
  [shortEntry 1 "alice" "note", shortEntry 2 "alice" "note", shortEntry 3 "carol" "note"]

theorem shortEntries_ascending : Paging.Ascending Entry.id shortEntries := by
  simp [Paging.Ascending, shortEntries, shortEntry, Sync.StreamId.mk, Prod.Lex.toLex_lt_toLex]

def shortStream : MessageStream := ⟨shortEntries, shortEntries_ascending⟩

def fromAlice : HistoryFilters where
  agent := some "bob"
  fromAgent := some "alice"
  includeBroadcast := true
  topic := some "note"
  threadId := none
  requiredTags := []

theorem reaches_hour : Reaches 0 60 := by
  unfold Reaches
  decide

/-- The last message of a sender, with a later one of another after it. -/
theorem history_exact_sample :
    busListMessagesFromRedisWithFilters timelessCodec (fun _ => none) 4 shortStream 0 fromAlice 60
        1 =
      some (.returned (.ok [(shortEntry 2 "alice" "note").message timelessCodec])) := by
  rw [(history_exact timelessCodec (fun _ => none) shortStream 0 fromAlice 60 1 4
    (by decide) (by decide)).1 (.inr ⟨reaches_hour, by decide⟩)]
  rfl

/-- A limit that no count of Redis can hold. -/
theorem history_refused :
    busListMessagesFromRedisWithFilters timelessCodec (fun _ => none) 4 shortStream 0 fromAlice 60
        (2 ^ 63) =
      some (.returned (.error (.internal
        "XREVRANGE failed: ResponseError: value is not an integer or out of range"))) :=
  read_refused (by decide) (by decide) (by decide) reaches_hour (by decide)

end AgentHub.Hub
