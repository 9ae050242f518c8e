import AgentHub.Export.Union
import AgentHub.Firsts
import AgentHub.Framing
import AgentHub.Json.Equiv.Document
import AgentHub.Json.Equiv.RoundTrip
import AgentHub.Outbox.Equiv.Request

/-!
# When the complete export is a union

The two loops read their sources to the end: `pgLoop_result` and `redisLoop_result` say when they do
and what they have given to the sink then, which of the stream are the first messages of each id that
is not the id of a row.  Ids are compared as texts, so this is a union of messages where messages that
are one have one spelling (`names_iff`).

`exportUnion_iff` is the claim with its exact condition.
-/

namespace AgentHub.Export

open AgentHub.Json AgentHub.Paging
open AgentHub.Hub (MessageStream)
open AgentHub.Outbox (Uuid)
open AgentHub.Sync (Codec Entry StreamId)
open AgentHub.Validation (AgentBusError)

/-! ### Identifiers -/

theorem exists_toList_toString (u : Uuid) : ∃ d cs, u.toString.toList = Uuid.hexChar d :: cs := by
  obtain ⟨ds, hlen⟩ := u
  cases ds with
  | nil => cases hlen
  | cons d ds => exact ⟨d, _, String.toList_ofList⟩

theorem hexChar_ne : ∀ d : Fin 16, Uuid.hexChar d ≠ '\x7b' ∧ Uuid.hexChar d ≠ 'u' := by decide

theorem toString_ne_empty (u : Uuid) : u.toString ≠ "" := by
  obtain ⟨d, cs, h⟩ := exists_toList_toString u
  intro hempty
  rw [hempty] at h
  cases h

theorem parseUuid_toString (u : Uuid) : parseUuid u.toString = some u := by
  obtain ⟨d, cs, h⟩ := exists_toList_toString u
  rw [parseUuid]
  split
  · next hbrace =>
    rw [h] at hbrace
    exact absurd (List.cons.inj hbrace).1 (hexChar_ne d).1
  · next hurn =>
    rw [h] at hurn
    exact absurd (List.cons.inj hurn).1 (hexChar_ne d).2
  · exact u.parse_toString

theorem text_injective : Function.Injective StreamId.text := by
  intro a b h
  have hlist := String.ofList_injective h
  have hdigit (n : Nat) : ∀ c ∈ Nat.toDigits 10 n, c.isDigit = true := isDigit_toDigits n
  have hstop (n : Nat) : ∀ c ∈ ('-' :: Nat.toDigits 10 n).head?, ¬c.isDigit = true := by
    intro c hc
    cases hc
    decide
  obtain ⟨hms, hseq⟩ := Framing.append_inj_of_stop (hdigit _) (hdigit _) (hstop _) (hstop _) hlist
  have hinj : Function.Injective (Nat.toDigits 10) := by
    intro m n hmn
    have hparse := parseInt_natDigits m
    rw [hmn, parseInt_natDigits n] at hparse
    exact (Int.ofNat_inj.1 (Option.some.inj hparse)).symm
  exact Prod.ext (hinj hms) (hinj (List.cons.inj hseq).2)

/-! ### The rows -/

section Rows

variable {lib : ExportLibrary}

variable (lib) in
theorem isSome_rowToMessage (row : Row) : (rowToMessage lib row).isSome = row.decodes := by
  rw [rowToMessage, Row.decodes]
  cases chronoHolds row.timestampUtc with
  | false => rfl
  | true => cases row.tags <;> cases row.metadata <;> rfl

theorem rowToMessage_eq_some {row : Row} {m : Sync.Message} (h : rowToMessage lib row = some m) :
    m.id = row.id.toString ∧ m.timestampUtc = lib.formatUtc row.timestampUtc := by
  rw [rowToMessage] at h
  split at h
  · split at h
    · obtain rfl := Option.some.inj h
      exact ⟨rfl, rfl⟩
    · cases h
  · cases h

/-- The cursor is read back from a year of four digits. -/
theorem cursorOf_eq_ok {row : Row} {m : Sync.Message} (h : rowToMessage lib row = some m)
    (hplain : fourDigits row.timestampUtc = true) : cursorOf lib m = .ok row.key := by
  obtain ⟨hid, htime⟩ := rowToMessage_eq_some h
  rw [cursorOf, parseTimestampUtc, htime, lib.parse_format _ hplain]
  dsimp only [bind, Except.bind]
  rw [hid, parseUuid_toString]
  rfl

theorem cursorOf_eq_error {row : Row} {m : Sync.Message} (h : rowToMessage lib row = some m)
    (hfar : fourDigits row.timestampUtc = false) : ∃ e, cursorOf lib m = .error e := by
  obtain ⟨-, htime⟩ := rowToMessage_eq_some h
  obtain ⟨e, he⟩ := lib.parse_far _ hfar
  rw [cursorOf, parseTimestampUtc, htime, he]
  exact ⟨_, rfl⟩

theorem mapM_rowToMessage {rows : List Row} (h : ∀ row ∈ rows, row.decodes = true) :
    rows.mapM (rowToMessage lib) = some (rows.filterMap (rowToMessage lib)) := by
  induction rows with
  | nil => rfl
  | cons row rows ih =>
    have hrow := h row List.mem_cons_self
    rw [← isSome_rowToMessage lib] at hrow
    obtain ⟨m, hm⟩ := Option.isSome_iff_exists.1 hrow
    rw [List.mapM_cons, hm, ih fun r hr => h r (List.mem_cons_of_mem _ hr),
      List.filterMap_cons_some hm]
    rfl

theorem mapM_rowToMessage_eq_none {rows : List Row} (h : ¬∀ row ∈ rows, row.decodes = true) :
    rows.mapM (rowToMessage lib) = none := by
  induction rows with
  | nil =>
    refine absurd (fun row hrow => ?_) h
    cases hrow
  | cons row rows ih =>
    rw [List.mapM_cons]
    cases hm : rowToMessage lib row with
    | none => rfl
    | some m =>
      have hrow : row.decodes = true := by rw [← isSome_rowToMessage lib, hm, Option.isSome_some]
      rw [ih fun hrows => h (List.forall_mem_cons.2 ⟨hrow, hrows⟩)]
      rfl

variable (lib) in
theorem map_id_filterMap_rowToMessage {rows : List Row} (h : ∀ row ∈ rows, row.decodes = true) :
    (rows.filterMap (rowToMessage lib)).map (fun m => m.id) = rows.map fun row => row.id.toString := by
  induction rows with
  | nil => rfl
  | cons row rows ih =>
    have hrow := h row List.mem_cons_self
    rw [← isSome_rowToMessage lib] at hrow
    obtain ⟨m, hm⟩ := Option.isSome_iff_exists.1 hrow
    rw [List.filterMap_cons_some hm, List.map_cons, List.map_cons, (rowToMessage_eq_some hm).1,
      ih fun r hr => h r (List.mem_cons_of_mem _ hr)]

theorem length_filterMap_rowToMessage {rows : List Row} (h : ∀ row ∈ rows, row.decodes = true) :
    (rows.filterMap (rowToMessage lib)).length = rows.length := by
  have hlen := congrArg List.length (map_id_filterMap_rowToMessage lib h)
  rw [List.length_map, List.length_map] at hlen
  exact hlen

variable (lib) in
/-- An export that has read these rows. -/
def afterRows (rows : List Row) : Progress where
  summary := ⟨(rows.filterMap (rowToMessage lib)).length, 0, 0⟩
  seen := (rows.filterMap (rowToMessage lib)).map fun m => m.id
  emitted := rows.filterMap (rowToMessage lib)

theorem foldlM_emitRow {sink : Sink} (hsink : ∀ m, sink m = .ok ()) {messages : List Sync.Message} :
    ∀ p : Progress, messages.foldlM (emitRow sink) p = .ok
      { summary := { p.summary with pgMessages := p.summary.pgMessages + messages.length }
        seen := p.seen ++ messages.map fun m => m.id
        emitted := p.emitted ++ messages } := by
  induction messages with
  | nil =>
    intro p
    simp only [List.length_nil, Nat.add_zero, List.map_nil, List.append_nil]
    rfl
  | cons m messages ih =>
    intro p
    have hm : emitRow sink p m = .ok
        { summary := { p.summary with pgMessages := p.summary.pgMessages + 1 }
          seen := p.seen ++ [m.id]
          emitted := p.emitted ++ [m] } := by
      rw [emitRow, hsink m]
      rfl
    rw [List.foldlM_cons, hm]
    refine (ih _).trans ?_
    simp only [List.length_cons, List.map_cons, List.append_assoc, List.singleton_append,
      Nat.add_assoc, Nat.add_comm 1]

variable (lib) in
theorem foldlM_emitRow_afterRows {sink : Sink} (hsink : ∀ m, sink m = .ok ()) (done page : List Row) :
    (page.filterMap (rowToMessage lib)).foldlM (emitRow sink) (afterRows lib done) =
      .ok (afterRows lib (done ++ page)) := by
  rw [foldlM_emitRow hsink]
  simp only [afterRows, List.filterMap_append, List.length_append, List.map_append]

/-! ### The first loop -/

/-- The last row of every page, of `n` rows or the last of all, is in a year of four digits. -/
def EndsPlain (n total : Nat) (rows : List Row) : Prop :=
  ∀ i row, rows[i]? = some row → n ∣ i + 1 ∨ i + 1 = total → fourDigits row.timestampUtc = true

/-- What the loop over the rows needs to come to their end. -/
structure RowsRead (n : Nat) (rows : List Row) : Prop where
  fits : n < 2 ^ 63
  decodes : ∀ row ∈ rows, row.decodes = true
  endsPlain : EndsPlain n rows.length rows

variable (lib) in
/-- The state between two rounds. -/
structure PgReading (n : Nat) (table : MessageTable) (s : Option PgCursor × Progress)
    (done rest : List Row) : Prop where
  split : table.rows = done ++ rest
  cursor : s.1 = done.getLast?.map Row.key
  progress : s.2 = afterRows lib done
  full : rest = [] ∨ n ∣ done.length
  decodes : ∀ row ∈ done, row.decodes = true
  endsPlain : EndsPlain n table.rows.length done

theorem exportMessagesPage_of_le {n : Nat} {table : MessageTable} {after : Option PgCursor}
    (h : 2 ^ 63 ≤ n) : exportMessagesPage lib table n after = .error (.failed (.internal
      "page size exceeds i64: out of range integral type conversion attempted")) := by
  unfold exportMessagesPage
  rw [if_neg (not_lt.2 h)]

theorem PgReading.page {n : Nat} {table : MessageTable} {s : Option PgCursor × Progress}
    {done rest : List Row} (h : PgReading lib n table s done rest) (hn : n < 2 ^ 63) :
    exportMessagesPage lib table n s.1 =
      match (rest.take n).mapM (rowToMessage lib) with
      | some messages => .ok messages
      | none => .error .panicked := by
  unfold exportMessagesPage
  rw [if_pos hn, h.cursor]
  cases hlast : done.getLast? with
  | none =>
    have hrows : table.rows = rest := by
      rw [h.split, List.getLast?_eq_none_iff.1 hlast, List.nil_append]
    rw [← hrows]
    rfl
  | some last =>
    have hasc := table.ascending
    rw [h.split] at hasc
    have hrest : Paging.page Row.key last.key n table.rows = rest.take n := by
      rw [Paging.page, h.split, (hasc.cut hlast).2]
    rw [← hrest]
    rfl

section Round

variable {pgPage : Option PgCursor → Except Stop (List Sync.Message)} {sink : Sink}
  {cursor : Option PgCursor} {p p' : Progress} {messages : List Sync.Message} {last : Sync.Message}
  {next : PgCursor} {e : Stop}

theorem pgRound_of_page_error (h : pgPage cursor = .error e) :
    pgRound lib pgPage sink (cursor, p) = .error e := by
  rw [pgRound, h]
  rfl

theorem pgRound_of_page_nil (h : pgPage cursor = .ok []) :
    pgRound lib pgPage sink (cursor, p) = .ok (.inr p) := by
  rw [pgRound, h]
  rfl

theorem pgRound_of_cursor_error (h : pgPage cursor = .ok messages)
    (hlast : messages.getLast? = some last) (hcursor : cursorOf lib last = .error e) :
    pgRound lib pgPage sink (cursor, p) = .error e := by
  rw [pgRound, h]
  dsimp only [bind, Except.bind]
  rw [hlast]
  show cursorOf lib last >>= _ = _
  rw [hcursor]
  rfl

theorem pgRound_of_page (h : pgPage cursor = .ok messages) (hlast : messages.getLast? = some last)
    (hcursor : cursorOf lib last = .ok next) (hfold : messages.foldlM (emitRow sink) p = .ok p') :
    pgRound lib pgPage sink (cursor, p) = .ok (.inl (some next, p')) := by
  rw [pgRound, h]
  dsimp only [bind, Except.bind]
  rw [hlast]
  show cursorOf lib last >>= _ = _
  rw [hcursor]
  show messages.foldlM (emitRow sink) p >>= _ = _
  rw [hfold]
  rfl

end Round

theorem getElem?_of_split {α : Type*} {rows done init rest : List α} {x : α}
    (h : rows = done ++ (init ++ [x] ++ rest)) : rows[done.length + init.length]? = some x := by
  rw [h, List.append_assoc, List.getElem?_append_right (Nat.le_add_right _ _),
    Nat.add_sub_cancel_left, List.getElem?_append_right (le_refl _), Nat.sub_self]
  rfl

variable (lib) in
/-- What the loop over the rows comes to. -/
def RowsResult (n : Nat) (table : MessageTable) (result : Except Stop Progress) : Prop :=
  (RowsRead n table.rows ∧ result = .ok (afterRows lib table.rows)) ∨
    (¬RowsRead n table.rows ∧ ∃ e, result = .error e)

/-- The last row of a page stands at the end of a full page, or of the table. -/
theorem PgReading.last_at {n : Nat} {table : MessageTable} {s : Option PgCursor × Progress}
    {done rest : List Row} (h : PgReading lib n table s done rest) {init : List Row} {last : Row}
    (hinit : rest.take n = init ++ [last]) :
    table.rows[done.length + init.length]? = some last ∧ init.length + 1 ≤ n ∧ n ∣ done.length ∧
      (n ∣ done.length + init.length + 1 ∨
        (done.length + init.length + 1 = table.rows.length ∧ rest.drop n = [])) := by
  have hsplit : rest = init ++ [last] ++ rest.drop n := by rw [← hinit, List.take_append_drop]
  have hlen : (rest.take n).length = init.length + 1 := by rw [hinit, List.length_append]; rfl
  have hne : rest ≠ [] := by
    intro hnil
    rw [hnil, List.take_nil] at hinit
    exact List.append_ne_nil_of_right_ne_nil _ (List.cons_ne_nil _ _) hinit.symm
  have hdone : n ∣ done.length := h.full.resolve_left hne
  refine ⟨getElem?_of_split (h.split.trans (congrArg (done ++ ·) hsplit)),
    hlen ▸ List.length_take_le n rest, hdone, ?_⟩
  rw [List.length_take] at hlen
  by_cases hle : n ≤ rest.length
  · left
    rw [Nat.min_eq_left hle] at hlen
    rw [Nat.add_assoc, ← hlen]
    exact Nat.dvd_add hdone (dvd_refl n)
  · right
    refine ⟨?_, List.drop_eq_nil_of_le (by omega)⟩
    rw [h.split, List.length_append]
    omega

/-- A page whose last row is in a year of four digits is read. -/
theorem PgReading.next {n : Nat} {table : MessageTable} {s : Option PgCursor × Progress}
    {done rest : List Row} (h : PgReading lib n table s done rest) {init : List Row} {last : Row}
    (hinit : rest.take n = init ++ [last]) (hplain : fourDigits last.timestampUtc = true)
    (hdec : ∀ row ∈ rest.take n, row.decodes = true) :
    PgReading lib n table (some last.key, afterRows lib (done ++ rest.take n))
      (done ++ rest.take n) (rest.drop n) where
  split := by rw [h.split, List.append_assoc, List.take_append_drop]
  cursor := by
    rw [hinit, ← List.append_assoc, List.getLast?_concat]
    rfl
  progress := rfl
  full := by
    rw [hinit, List.length_append, List.length_append, ← Nat.add_assoc]
    exact (h.last_at hinit).2.2.2.symm.imp_left And.right
  decodes := by
    intro row hrow
    rcases List.mem_append.1 hrow with hrow | hrow
    · exact h.decodes row hrow
    · exact hdec row hrow
  endsPlain := by
    obtain ⟨-, hle, hdone, hend⟩ := h.last_at hinit
    have htotal : done.length + init.length + 1 ≤ table.rows.length := by
      have hrest := congrArg List.length hinit
      rw [List.length_take, List.length_append, List.length_singleton] at hrest
      rw [h.split, List.length_append]
      omega
    have hat : (done ++ rest.take n)[done.length + init.length]? = some last := by
      rw [hinit, List.getElem?_append_right (Nat.le_add_right _ _), Nat.add_sub_cancel_left]
      exact List.getElem?_concat_length
    intro i row hi hpos
    by_cases hlt : i < done.length
    · rw [List.getElem?_append_left hlt] at hi
      exact h.endsPlain i row hi hpos
    -- of the rows of the page only the last is at the end of one
    have hlong : i < done.length + (init.length + 1) := by
      have hi_lt := (List.getElem?_eq_some_iff.1 hi).1
      rw [hinit, List.length_append, List.length_append] at hi_lt
      exact hi_lt
    have hi_last : i = done.length + init.length := by
      rcases hpos with hdvd | htot
      · have hstep : n ∣ i + 1 - done.length := Nat.dvd_sub hdvd hdone
        have hn_le := Nat.le_of_dvd (by omega) hstep
        omega
      · omega
    rw [hi_last, hat] at hi
    obtain rfl := Option.some.inj hi
    exact hplain

theorem PgReading.round {n : Nat} (hpos : 1 ≤ n) {table : MessageTable} {sink : Sink}
    (hsink : ∀ m, sink m = .ok ()) {s : Option PgCursor × Progress} {done rest : List Row}
    (h : PgReading lib n table s done rest) :
    Turns (fun s => ∃ done rest, PgReading lib n table s done rest)
      (fun s => table.rows.length - s.2.summary.pgMessages) (RowsResult lib n table) s
      (pgRound lib (exportMessagesPage lib table n) sink s) := by
  obtain ⟨cursor, p⟩ := s
  by_cases hfits : n < 2 ^ 63
  swap
  · rw [pgRound_of_page_error (exportMessagesPage_of_le (not_lt.1 hfits))]
    exact Or.inr ⟨fun hread => hfits hread.fits, _, rfl⟩
  have hpage := h.page hfits
  by_cases hdec : ∀ row ∈ rest.take n, row.decodes = true
  swap
  · rw [mapM_rowToMessage_eq_none hdec] at hpage
    rw [pgRound_of_page_error hpage]
    refine Or.inr ⟨fun hread => hdec fun row hrow => hread.decodes row ?_, _, rfl⟩
    rw [h.split]
    exact List.mem_append_right _ (List.mem_of_mem_take hrow)
  rw [mapM_rowToMessage hdec] at hpage
  cases hlast : (rest.take n).getLast? with
  | none =>
    -- no row is left
    have hrest : rest = [] :=
      (List.take_eq_nil_iff.1 (List.getLast?_eq_none_iff.1 hlast)).resolve_left (by omega)
    have hrows : table.rows = done := by rw [h.split, hrest, List.append_nil]
    rw [hrest, List.take_nil, List.filterMap_nil] at hpage
    rw [pgRound_of_page_nil hpage]
    refine Or.inl ⟨⟨hfits, ?_, ?_⟩, ?_⟩
    · rw [hrows]
      exact h.decodes
    · have hends := h.endsPlain
      rw [hrows] at hends ⊢
      exact hends
    · rw [hrows]
      exact congrArg Except.ok h.progress
  | some last =>
    obtain ⟨init, hinit⟩ := List.getLast?_eq_some_iff.1 hlast
    obtain ⟨hat, -, -, hend⟩ := h.last_at hinit
    obtain ⟨m, hm⟩ : ∃ m, rowToMessage lib last = some m := by
      rw [← Option.isSome_iff_exists, isSome_rowToMessage lib]
      exact hdec last (List.mem_of_getLast? hlast)
    have hmlast : ((rest.take n).filterMap (rowToMessage lib)).getLast? = some m := by
      rw [hinit, List.filterMap_append, List.filterMap_cons_some hm, List.filterMap_nil,
        List.getLast?_concat]
    cases hplain : fourDigits last.timestampUtc with
    | false =>
      obtain ⟨e, he⟩ := cursorOf_eq_error hm hplain
      rw [pgRound_of_cursor_error hpage hmlast he]
      refine Or.inr ⟨fun hread => ?_, e, rfl⟩
      have htrue := hread.endsPlain _ _ hat (hend.imp_right And.left)
      rw [hplain] at htrue
      cases htrue
    | true =>
      have hfold := foldlM_emitRow_afterRows lib hsink done (rest.take n)
      rw [← h.progress] at hfold
      rw [pgRound_of_page hpage hmlast (cursorOf_eq_ok hm hplain) hfold]
      have hnext := h.next hinit hplain hdec
      refine ⟨⟨_, _, hnext⟩, ?_⟩
      have hbefore : p.summary.pgMessages = done.length := by
        rw [show p = afterRows lib done from h.progress]
        exact length_filterMap_rowToMessage h.decodes
      have hafter : (afterRows lib (done ++ rest.take n)).summary.pgMessages =
          done.length + (init.length + 1) := by
        refine (length_filterMap_rowToMessage hnext.decodes).trans ?_
        rw [hinit, List.length_append, List.length_append, List.length_singleton]
      have hlt := (List.getElem?_eq_some_iff.1 hat).1
      show table.rows.length - (afterRows lib (done ++ rest.take n)).summary.pgMessages <
        table.rows.length - p.summary.pgMessages
      omega

variable (lib) in
/-- **The rows are read to their end** exactly when the pages can be read and followed by others. -/
theorem pgLoop_result {n : Nat} (hpos : 1 ≤ n) (table : MessageTable) {sink : Sink}
    (hsink : ∀ m, sink m = .ok ()) :
    ∃ result, RowsResult lib n table result ∧ ∀ fuel, table.rows.length < fuel →
      loop (pgRound lib (exportMessagesPage lib table n) sink) fuel (none, Progress.start) =
        some result := by
  have hstart : PgReading lib n table (none, Progress.start) [] table.rows := by
    refine ⟨rfl, rfl, rfl, Or.inr (dvd_zero n), fun row hrow => ?_, fun i row hi => ?_⟩
    · cases hrow
    · cases hi
  have hround : ∀ s, (∃ done rest, PgReading lib n table s done rest) →
      Turns (fun s => ∃ done rest, PgReading lib n table s done rest)
        (fun s => table.rows.length - s.2.summary.pgMessages) (RowsResult lib n table) s
        (pgRound lib (exportMessagesPage lib table n) sink s) := by
    rintro s ⟨done, rest, hs⟩
    exact hs.round hpos hsink
  exact loop_total hround ⟨[], table.rows, hstart⟩

end Rows

/-! ### The second loop -/

section Entries

/-- The first messages of each id that an export has not seen. -/
def onlyOf (p : Progress) (messages : List Sync.Message) : List Sync.Message :=
  firsts (fun m => m.id) p.seen messages

/-- An export that has gone on to read these messages of the stream. -/
def afterEntries (p : Progress) (messages : List Sync.Message) : Progress where
  summary :=
    { pgMessages := p.summary.pgMessages
      redisOnly := p.summary.redisOnly + (onlyOf p messages).length
      redisDuplicates :=
        p.summary.redisDuplicates + (messages.length - (onlyOf p messages).length) }
  seen := p.seen ++ (onlyOf p messages).map fun m => m.id
  emitted := p.emitted ++ onlyOf p messages

theorem length_onlyOf_le (p : Progress) (messages : List Sync.Message) :
    (onlyOf p messages).length ≤ messages.length :=
  firsts_sublist.length_le

theorem onlyOf_append (p : Progress) (xs ys : List Sync.Message) :
    onlyOf p (xs ++ ys) = onlyOf p xs ++ onlyOf (afterEntries p xs) ys :=
  firsts_append ys

theorem afterEntries_append (p : Progress) (xs ys : List Sync.Message) :
    afterEntries (afterEntries p xs) ys = afterEntries p (xs ++ ys) := by
  have hxs := length_onlyOf_le p xs
  have hys := length_onlyOf_le (afterEntries p xs) ys
  have happend := onlyOf_append p xs ys
  show Progress.mk
    ⟨p.summary.pgMessages,
      p.summary.redisOnly + (onlyOf p xs).length + (onlyOf (afterEntries p xs) ys).length,
      p.summary.redisDuplicates + (xs.length - (onlyOf p xs).length) +
        (ys.length - (onlyOf (afterEntries p xs) ys).length)⟩
    (p.seen ++ (onlyOf p xs).map (fun m => m.id) ++
      (onlyOf (afterEntries p xs) ys).map fun m => m.id)
    (p.emitted ++ onlyOf p xs ++ onlyOf (afterEntries p xs) ys) = _
  rw [afterEntries.eq_1 p (xs ++ ys), happend]
  generalize onlyOf (afterEntries p xs) ys = back at hys ⊢
  simp only [List.length_append, List.map_append, List.append_assoc, Nat.add_assoc,
    Progress.mk.injEq, ExportSummary.mk.injEq, true_and, and_true]
  omega

theorem afterEntries_nil (p : Progress) : afterEntries p [] = p := by
  simp [afterEntries, onlyOf, firsts]

theorem emitEntry_eq {sink : Sink} (hsink : ∀ m, sink m = .ok ()) (p : Progress) (m : Sync.Message) :
    emitEntry sink p m = .ok (afterEntries p [m]) := by
  rw [emitEntry]
  split
  · next hseen =>
    have honly : onlyOf p [m] = [] := by
      rw [onlyOf, firsts, if_pos hseen, firsts]
    simp only [afterEntries, honly, List.map_nil, List.append_nil]
    rfl
  · next hnew =>
    have honly : onlyOf p [m] = [m] := by
      rw [onlyOf, firsts, if_neg hnew, firsts]
    rw [hsink m]
    simp only [afterEntries, honly]
    rfl

theorem foldlM_emitEntry {sink : Sink} (hsink : ∀ m, sink m = .ok ()) (messages : List Sync.Message) :
    ∀ p : Progress, messages.foldlM (emitEntry sink) p = .ok (afterEntries p messages) := by
  induction messages with
  | nil =>
    intro p
    rw [afterEntries_nil]
    rfl
  | cons m messages ih =>
    intro p
    rw [List.foldlM_cons, emitEntry_eq hsink]
    refine (ih _).trans ?_
    rw [afterEntries_append]
    rfl

section Round

variable {page : Option StreamId → Except Stop (List (StreamId × Sync.Message))} {sink : Sink}
  {after : Option StreamId} {p p' : Progress} {pairs : List (StreamId × Sync.Message)}
  {last : StreamId × Sync.Message} {e : Stop}

theorem redisRound_of_page_error (h : page after = .error e) :
    redisRound page sink (after, p) = .error e := by
  rw [redisRound, h]
  rfl

theorem redisRound_of_page_nil (h : page after = .ok []) :
    redisRound page sink (after, p) = .ok (.inr p) := by
  rw [redisRound, h]
  rfl

theorem redisRound_of_page (h : page after = .ok pairs) (hlast : pairs.getLast? = some last)
    (hfold : (pairs.map Prod.snd).foldlM (emitEntry sink) p = .ok p') :
    redisRound page sink (after, p) = .ok (.inl (some last.1, p')) := by
  rw [redisRound, h]
  dsimp only [bind, Except.bind]
  rw [hlast]
  show (pairs.map Prod.snd).foldlM (emitEntry sink) p >>= _ = _
  rw [hfold]
  rfl

end Round

variable {lib : ExportLibrary}

variable (lib) in
/-- The messages of the stream. -/
def streamMessages (entries : List Entry) : List Sync.Message := entries.map (Entry.message lib.codec)

variable (lib) in
/-- The state between two rounds; `p` is the export of the rows. -/
structure RedisReading (stream : MessageStream) (p : Progress) (s : Option StreamId × Progress)
    (done rest : List Entry) : Prop where
  split : stream.entries = done ++ rest
  after : s.1 = done.getLast?.map Entry.id
  progress : s.2 = afterEntries p (streamMessages lib done)

/-- No entry has the greatest identifier. -/
def EntriesRead (entries : List Entry) : Prop := ∀ entry ∈ entries, entry.id < greatestId

variable (lib) in
/-- What the loop over the entries comes to. -/
def EntriesResult (stream : MessageStream) (p : Progress) (result : Except Stop Progress) : Prop :=
  (EntriesRead stream.entries ∧
      result = .ok (afterEntries p (streamMessages lib stream.entries))) ∨
    (¬EntriesRead stream.entries ∧ ∃ e, result = .error e)

/-- What is left of the stream is read on, unless the last identifier is the greatest. -/
theorem RedisReading.page {stream : MessageStream} {p : Progress} {s : Option StreamId × Progress}
    {done rest : List Entry} (h : RedisReading lib stream p s done rest) (n : Nat) :
    (redisPage lib stream n s.1 =
        .ok ((rest.take n).map fun entry => (entry.id, entry.message lib.codec)) ∧
      EntriesRead done) ∨
    ((∃ e, redisPage lib stream n s.1 = .error e) ∧ ¬EntriesRead stream.entries) := by
  unfold redisPage
  rw [h.after]
  cases hlast : done.getLast? with
  -- the first page is asked for without a bound
  | none =>
    have hdone := List.getLast?_eq_none_iff.1 hlast
    refine Or.inl ⟨?_, fun entry hentry => ?_⟩
    · rw [h.split, hdone]
      rfl
    · rw [hdone] at hentry
      cases hentry
  -- a later page is asked for behind the last entry read
  | some last =>
    have hmem : last ∈ stream.entries := by
      rw [h.split]
      exact List.mem_append_left _ (List.mem_of_getLast? hlast)
    have hasc := stream.ascending
    rw [h.split] at hasc
    obtain ⟨hfront, hback⟩ := hasc.cut hlast
    simp only [Option.map_some]
    split_ifs with hlt
    · -- the bound has a successor
      refine Or.inl ⟨?_, fun entry hentry => ?_⟩
      · rw [Paging.page, h.split, hback]
      · rw [← hfront] at hentry
        exact (of_decide_eq_true (List.mem_filter.1 hentry).2).trans_lt hlt
    · -- it has none: Redis refuses the range
      exact Or.inr ⟨⟨_, rfl⟩, fun hread => hlt (hread last hmem)⟩

theorem RedisReading.round {n : Nat} (hpos : 1 ≤ n) {stream : MessageStream} {sink : Sink}
    (hsink : ∀ m, sink m = .ok ()) {p : Progress}
    (hp : p.summary.redisOnly + p.summary.redisDuplicates = 0) {s : Option StreamId × Progress}
    {done rest : List Entry} (h : RedisReading lib stream p s done rest) :
    Turns (fun s => ∃ done rest, RedisReading lib stream p s done rest)
      (fun s => stream.entries.length - (s.2.summary.redisOnly + s.2.summary.redisDuplicates))
      (EntriesResult lib stream p) s (redisRound (redisPage lib stream n) sink s) := by
  obtain ⟨after, q⟩ := s
  rcases h.page n with ⟨hpage, hdone⟩ | ⟨⟨e, he⟩, hgreatest⟩
  swap
  · rw [redisRound_of_page_error he]
    exact Or.inr ⟨hgreatest, e, rfl⟩
  cases hlast : (rest.take n).getLast? with
  | none =>
    -- an empty page means that nothing is left
    have hrest : rest = [] :=
      (List.take_eq_nil_iff.1 (List.getLast?_eq_none_iff.1 hlast)).resolve_left (by omega)
    have hentries : stream.entries = done := by rw [h.split, hrest, List.append_nil]
    rw [hrest, List.take_nil, List.map_nil] at hpage
    rw [redisRound_of_page_nil hpage]
    refine Or.inl ⟨?_, ?_⟩
    · rw [hentries]
      exact hdone
    · rw [hentries]
      exact congrArg Except.ok h.progress
  | some last =>
    obtain ⟨init, hinit⟩ := List.getLast?_eq_some_iff.1 hlast
    have hpair : ((rest.take n).map fun entry => (entry.id, entry.message lib.codec)).getLast? =
        some (last.id, last.message lib.codec) := by
      rw [List.getLast?_map, hlast]
      rfl
    have hmessages : ((rest.take n).map fun entry => (entry.id, entry.message lib.codec)).map
        Prod.snd = streamMessages lib (rest.take n) := by
      rw [List.map_map]
      rfl
    have hfold := foldlM_emitEntry hsink (streamMessages lib (rest.take n)) q
    rw [← hmessages] at hfold
    rw [redisRound_of_page hpage hpair hfold, hmessages]
    have hq : q = afterEntries p (streamMessages lib done) := h.progress
    -- the page moves from the rest to what is done
    refine ⟨⟨done ++ rest.take n, rest.drop n, ?_, ?_, ?_⟩, ?_⟩
    · rw [h.split, List.append_assoc, List.take_append_drop]
    · rw [hinit, ← List.append_assoc, List.getLast?_concat]
      rfl
    · show afterEntries q _ = _
      rw [hq, afterEntries_append, streamMessages, streamMessages, ← List.map_append]
      rfl
    · -- each page makes the rest shorter
      have honly := length_onlyOf_le q (streamMessages lib (rest.take n))
      have hdone_only := length_onlyOf_le p (streamMessages lib done)
      have hlen := congrArg List.length hinit
      have htotal := congrArg List.length h.split
      rw [List.length_take, List.length_append, List.length_singleton] at hlen
      rw [List.length_append] at htotal
      simp only [afterEntries, hq, streamMessages, List.length_map,
        List.length_take] at honly hdone_only ⊢
      omega

variable (lib) in
/-- **The stream is read to its end** unless its last identifier is the greatest. -/
theorem redisLoop_result {n : Nat} (hpos : 1 ≤ n) (stream : MessageStream) {sink : Sink}
    (hsink : ∀ m, sink m = .ok ()) {p : Progress}
    (hp : p.summary.redisOnly + p.summary.redisDuplicates = 0) :
    ∃ result, EntriesResult lib stream p result ∧ ∀ fuel, stream.entries.length < fuel →
      loop (redisRound (redisPage lib stream n) sink) fuel (none, p) = some result := by
  have hstart : RedisReading lib stream p (none, p) [] stream.entries :=
    ⟨rfl, rfl, (afterEntries_nil p).symm⟩
  have hround : ∀ s, (∃ done rest, RedisReading lib stream p s done rest) →
      Turns (fun s => ∃ done rest, RedisReading lib stream p s done rest)
        (fun s => stream.entries.length - (s.2.summary.redisOnly + s.2.summary.redisDuplicates))
        (EntriesResult lib stream p) s (redisRound (redisPage lib stream n) sink s) := by
    rintro s ⟨done, rest, hs⟩
    exact hs.round hpos hsink hp
  obtain ⟨result, hresult, hloop⟩ := loop_total hround ⟨[], stream.entries, hstart⟩
  refine ⟨result, hresult, fun fuel hfuel => hloop fuel ?_⟩
  show stream.entries.length - (p.summary.redisOnly + p.summary.redisDuplicates) < fuel
  omega

end Entries

/-! ### The union -/

section Union

/-- Which message it is: by its id as a UUID, by its id as a text where that is none, and by its place
in the stream where it has no id. -/
inductive MessageName where
  | uuid (id : Uuid)
  | text (id : String)
  | unnamed (streamId : Option String)
  deriving DecidableEq

def messageName (m : Sync.Message) : MessageName :=
  if m.id = "" then .unnamed m.streamId
  else
    match parseUuid m.id with
    | some id => .uuid id
    | none => .text m.id

def entryId (entry : Entry) : String := entry.fields.text "id"

variable (lib : ExportLibrary)

/-- The rows in order and then messages of the stream in order, of every message one, counted. -/
def IsUnion (table : MessageTable) (stream : MessageStream) (p : Progress) : Prop :=
  ∃ front rest, table.rows.mapM (rowToMessage lib) = some front ∧ p.emitted = front ++ rest ∧
    rest.Sublist (streamMessages lib stream.entries) ∧ (p.emitted.map messageName).Nodup ∧
    (∀ m ∈ streamMessages lib stream.entries, messageName m ∈ p.emitted.map messageName) ∧
    p.summary = ⟨table.rows.length, rest.length, stream.entries.length - rest.length⟩

/-- Messages that are one have one spelling of their id, and at most one entry has none. -/
structure IdsAgree (rows : List Row) (entries : List Entry) : Prop where
  canonical : ∀ row ∈ rows, ∀ entry ∈ entries, parseUuid (entryId entry) = some row.id →
    entryId entry = row.id.toString
  alike : ∀ x ∈ entries, ∀ y ∈ entries, ∀ id, parseUuid (entryId x) = some id →
    parseUuid (entryId y) = some id → entryId x = entryId y
  missing : ∀ x ∈ entries, ∀ y ∈ entries, entryId x = "" → entryId y = "" → x = y

variable {lib}

theorem parseUuid_empty : parseUuid "" = none := by decide

theorem messageName_of_empty {m : Sync.Message} (h : m.id = "") :
    messageName m = .unnamed m.streamId := by
  rw [messageName, if_pos h]

theorem messageName_of_parse {m : Sync.Message} {id : Uuid} (h : parseUuid m.id = some id) :
    messageName m = .uuid id := by
  have hne : m.id ≠ "" := by
    intro hempty
    rw [hempty, parseUuid_empty] at h
    cases h
  rw [messageName, if_neg hne, h]

theorem messageName_of_text {m : Sync.Message} (hne : m.id ≠ "") (h : parseUuid m.id = none) :
    messageName m = .text m.id := by
  rw [messageName, if_neg hne, h]

/-- Away from the empty id, a name is read off the id. -/
theorem messageName_congr {x y : Sync.Message} (h : x.id = y.id) (hne : x.id ≠ "") :
    messageName x = messageName y := by
  rw [messageName, messageName, if_neg hne, if_neg (h ▸ hne), h]

/-- Messages of one name have one id, unless they are spellings of one UUID. -/
theorem id_eq_or_parse_of_messageName {x y : Sync.Message} (h : messageName x = messageName y) :
    x.id = y.id ∨ ∃ id, parseUuid x.id = some id ∧ parseUuid y.id = some id := by
  by_cases hx : x.id = ""
  · -- an empty text names nothing, so the names agree as texts
    rw [messageName_of_empty hx] at h
    by_cases hy : y.id = ""
    · exact Or.inl (hx.trans hy.symm)
    · cases hpy : parseUuid y.id with
      | none =>
        rw [messageName_of_text hy hpy] at h
        cases h
      | some id =>
        rw [messageName_of_parse hpy] at h
        cases h
  · cases hpx : parseUuid x.id with
    | none =>
      rw [messageName_of_text hx hpx] at h
      by_cases hy : y.id = ""
      · rw [messageName_of_empty hy] at h
        cases h
      · cases hpy : parseUuid y.id with
        | none =>
          rw [messageName_of_text hy hpy] at h
          exact Or.inl (MessageName.text.inj h)
        | some id =>
          rw [messageName_of_parse hpy] at h
          cases h
    -- both are UUIDs, perhaps spelled apart
    | some id =>
      rw [messageName_of_parse hpx] at h
      by_cases hy : y.id = ""
      · rw [messageName_of_empty hy] at h
        cases h
      · cases hpy : parseUuid y.id with
        | none =>
          rw [messageName_of_text hy hpy] at h
          cases h
        | some id' =>
          rw [messageName_of_parse hpy] at h
          exact Or.inr ⟨id, rfl, congrArg some (MessageName.uuid.inj h).symm⟩

theorem message_injOn (stream : MessageStream) {x y : Entry} (hx : x ∈ stream.entries)
    (hy : y ∈ stream.entries)
    (h : (x.message lib.codec).streamId = (y.message lib.codec).streamId) : x = y := by
  have hid : x.id = y.id := text_injective (Option.some.inj h)
  have hnodup : (stream.entries.map Entry.id).Nodup :=
    List.pairwise_map.2 (stream.ascending.imp fun hlt => ne_of_lt hlt)
  exact List.inj_on_of_nodup_map hnodup hx hy hid

/-- Where a message of the two stores comes from. -/
theorem mem_stores {table : MessageTable} {stream : MessageStream} {m : Sync.Message}
    (h : m ∈ table.rows.filterMap (rowToMessage lib) ++ streamMessages lib stream.entries) :
    (∃ row ∈ table.rows, m.id = row.id.toString) ∨
      ∃ entry ∈ stream.entries, m = entry.message lib.codec := by
  rcases List.mem_append.1 h with h | h
  · obtain ⟨row, hrow, hm⟩ := List.mem_filterMap.1 h
    exact Or.inl ⟨row, hrow, (rowToMessage_eq_some hm).1⟩
  · obtain ⟨entry, hentry, rfl⟩ := List.mem_map.1 h
    exact Or.inr ⟨entry, hentry, rfl⟩

/-- A message without an id is an entry. -/
theorem exists_entry_of_empty {table : MessageTable} {stream : MessageStream} {m : Sync.Message}
    (h : m ∈ table.rows.filterMap (rowToMessage lib) ++ streamMessages lib stream.entries)
    (hempty : m.id = "") : ∃ entry ∈ stream.entries, m = entry.message lib.codec := by
  rcases mem_stores h with ⟨row, -, hid⟩ | hentry
  · exact absurd (hid.symm.trans hempty) (toString_ne_empty _)
  · exact hentry

/-- Ids as texts name the messages exactly when they agree. -/
theorem names_agree_iff {table : MessageTable} {stream : MessageStream}
    (hdec : ∀ row ∈ table.rows, row.decodes = true) :
    (∀ x ∈ table.rows.filterMap (rowToMessage lib) ++ streamMessages lib stream.entries,
      ∀ y ∈ table.rows.filterMap (rowToMessage lib) ++ streamMessages lib stream.entries,
        messageName x = messageName y ↔ x.id = y.id) ↔ IdsAgree table.rows stream.entries := by
  have hentry : ∀ entry ∈ stream.entries, entry.message lib.codec ∈
      table.rows.filterMap (rowToMessage lib) ++ streamMessages lib stream.entries :=
    fun entry hentry => List.mem_append_right _ (List.mem_map_of_mem hentry)
  constructor
  · intro h
    constructor
    · -- a row's name is its canonical text
      intro row hrow entry hmem hparse
      obtain ⟨m, hm⟩ : ∃ m, rowToMessage lib row = some m := by
        rw [← Option.isSome_iff_exists, isSome_rowToMessage lib]
        exact hdec row hrow
      have hid := (rowToMessage_eq_some hm).1
      have hrow_name : messageName m = .uuid row.id :=
        messageName_of_parse (hid ▸ parseUuid_toString row.id)
      have hentry_name : messageName (entry.message lib.codec) = .uuid row.id :=
        messageName_of_parse hparse
      -- the row's message is among those of the union
      have hin := List.mem_append_left (streamMessages lib stream.entries)
        (List.mem_filterMap.2 ⟨row, hrow, hm⟩)
      exact ((h _ (hentry entry hmem) m hin).1 (hentry_name.trans hrow_name.symm)).trans hid
    · intro x hx y hy id hpx hpy
      have hxname : messageName (x.message lib.codec) = .uuid id := messageName_of_parse hpx
      have hyname : messageName (y.message lib.codec) = .uuid id := messageName_of_parse hpy
      exact (h _ (hentry x hx) _ (hentry y hy)).1 (hxname.trans hyname.symm)
    · -- two entries without an id have the same name
      intro x hx y hy hex hey
      have hname := (h _ (hentry x hx) _ (hentry y hy)).2 (hex.trans hey.symm)
      rw [messageName_of_empty hex, messageName_of_empty hey] at hname
      exact message_injOn stream hx hy (MessageName.unnamed.inj hname)
  · intro h x hx y hy
    constructor
    · intro hname
      rcases id_eq_or_parse_of_messageName hname with heq | ⟨id, hpx, hpy⟩
      · exact heq
      -- by the store that each of the two comes from
      rcases mem_stores hx with ⟨row, hrow, hxid⟩ | ⟨entry, hmem, rfl⟩
      · rw [hxid, parseUuid_toString] at hpx
        cases hpx
        rcases mem_stores hy with ⟨row', hrow', hyid⟩ | ⟨entry', hmem', rfl⟩
        · rw [hyid, parseUuid_toString] at hpy
          rw [hxid, hyid, Option.some.inj hpy]
        · exact hxid.trans (h.canonical row hrow entry' hmem' hpy).symm
      · rcases mem_stores hy with ⟨row', hrow', hyid⟩ | ⟨entry', hmem', rfl⟩
        · rw [hyid, parseUuid_toString] at hpy
          cases hpy
          exact (h.canonical row' hrow' entry hmem hpx).trans hyid.symm
        · exact h.alike entry hmem entry' hmem' id hpx hpy
    · -- equal ids have equal names, but for the missing ones
      intro hid
      by_cases hempty : x.id = ""
      · obtain ⟨entry, hmem, rfl⟩ := exists_entry_of_empty hx hempty
        obtain ⟨entry', hmem', rfl⟩ := exists_entry_of_empty hy (hid.symm.trans hempty)
        rw [h.missing entry hmem entry' hmem' hempty (hid.symm.trans hempty)]
      · exact messageName_congr hid hempty

/-- What an export that comes to its end has done is a union exactly when the ids agree. -/
theorem isUnion_iff {table : MessageTable} {stream : MessageStream}
    (hdec : ∀ row ∈ table.rows, row.decodes = true) :
    IsUnion lib table stream
        (afterEntries (afterRows lib table.rows) (streamMessages lib stream.entries)) ↔
      IdsAgree table.rows stream.entries := by
  set front := table.rows.filterMap (rowToMessage lib) with hfront
  set only := onlyOf (afterRows lib table.rows) (streamMessages lib stream.entries) with honly
  -- the union keeps the first message of each id
  have hkept : firsts (fun m : Sync.Message => m.id) []
      (front ++ streamMessages lib stream.entries) = front ++ only := by
    have hnodup : (front.map fun m => m.id).Nodup := by
      rw [hfront, map_id_filterMap_rowToMessage lib hdec]
      have hmap := table.nodup.map Uuid.toString_injective
      rw [List.map_map] at hmap
      exact hmap
    rw [firsts_append, firsts_eq_self hnodup fun _ _ => List.not_mem_nil]
    rfl
  have hcount : front.length = table.rows.length := length_filterMap_rowToMessage hdec
  -- a missing id names the entry itself
  have hname : ∀ x ∈ front ++ streamMessages lib stream.entries,
      ∀ y ∈ front ++ streamMessages lib stream.entries, x.id = y.id →
        messageName x = messageName y ∨
          ∀ z ∈ front ++ streamMessages lib stream.entries, messageName z = messageName x → z = x := by
    intro x hx y hy hid
    by_cases hempty : x.id = ""
    · right
      intro z hz hzx
      have hzempty : z.id = "" := by
        rcases id_eq_or_parse_of_messageName hzx with heq | ⟨id, -, hparse⟩
        · exact heq.trans hempty
        · rw [hempty, parseUuid_empty] at hparse
          cases hparse
      obtain ⟨entry, hmem, rfl⟩ := exists_entry_of_empty hx hempty
      obtain ⟨entry', hmem', rfl⟩ := exists_entry_of_empty hz hzempty
      rw [messageName_of_empty hempty, messageName_of_empty hzempty] at hzx
      rw [message_injOn stream hmem' hmem (MessageName.unnamed.inj hzx)]
    · exact Or.inl (messageName_congr hid hempty)
  have hnames := names_iff (fun m : Sync.Message => m.id) messageName hname
  -- so the union is right iff ids and names identify the same messages
  rw [← names_agree_iff hdec, ← hnames, hkept]
  constructor
  · rintro ⟨front', rest, hmapM, hemitted, -, hnodup, hcover, -⟩
    refine ⟨hnodup, fun m hm => ?_⟩
    rcases List.mem_append.1 hm with hm | hm
    · exact List.mem_map_of_mem (List.mem_append_left _ hm)
    · exact hcover m hm
  · rintro ⟨hnodup, hcover⟩
    refine ⟨front, only, mapM_rowToMessage hdec, rfl, firsts_sublist, hnodup,
      fun m hm => hcover m (List.mem_append_right _ hm), ?_⟩
    show ExportSummary.mk front.length (0 + only.length)
      (0 + ((streamMessages lib stream.entries).length - only.length)) = _
    rw [hcount, Nat.zero_add, Nat.zero_add, streamMessages, List.length_map]

variable (lib) in
theorem exportUnion_result {n : Nat} (hpos : 1 ≤ n) (table : MessageTable) (stream : MessageStream)
    {sink : Sink} (hsink : ∀ m, sink m = .ok ()) :
    ∃ result, (∀ fuel, table.rows.length + stream.entries.length < fuel →
        exportUnion lib (exportMessagesPage lib table n) (redisPage lib stream n) sink fuel =
          some result) ∧
      ((RowsRead n table.rows ∧ EntriesRead stream.entries ∧ result = .ok
          (afterEntries (afterRows lib table.rows) (streamMessages lib stream.entries))) ∨
        (¬(RowsRead n table.rows ∧ EntriesRead stream.entries) ∧ ∃ e, result = .error e)) := by
  obtain ⟨front, hfront, hloop⟩ := pgLoop_result lib hpos table hsink
  rcases hfront with ⟨hrows, rfl⟩ | ⟨hrows, e, rfl⟩
  · obtain ⟨result, hresult, hloop'⟩ :=
      redisLoop_result lib hpos stream hsink (p := afterRows lib table.rows) rfl
    refine ⟨result, fun fuel hfuel => ?_, ?_⟩
    · rw [exportUnion, hloop fuel (by omega)]
      exact hloop' fuel (by omega)
    · rcases hresult with ⟨hentries, rfl⟩ | ⟨hentries, e, rfl⟩
      · exact Or.inl ⟨hrows, hentries, rfl⟩
      · exact Or.inr ⟨fun hread => hentries hread.2, e, rfl⟩
  · refine ⟨.error e, fun fuel hfuel => ?_, Or.inr ⟨fun hread => hrows hread.1, e, rfl⟩⟩
    rw [exportUnion, hloop fuel (by omega)]

variable (lib)

/-- **The complete export ends, and gives a union of the two stores exactly when** every page ends on a
year of four digits and can be read, no entry has the greatest identifier, and ids agree. -/
theorem exportUnion_iff {n : Nat} (hpos : 1 ≤ n) (table : MessageTable) (stream : MessageStream)
    {sink : Sink} (hsink : ∀ m, sink m = .ok ()) :
    ∃ result, (∃ enough, ∀ fuel, enough ≤ fuel →
        exportUnion lib (exportMessagesPage lib table n) (redisPage lib stream n) sink fuel =
          some result) ∧
      ((∃ p, result = .ok p ∧ IsUnion lib table stream p) ↔
        RowsRead n table.rows ∧ EntriesRead stream.entries ∧
          IdsAgree table.rows stream.entries) := by
  obtain ⟨result, hloop, hresult⟩ := exportUnion_result lib hpos table stream hsink
  refine ⟨result, ⟨_, fun fuel hfuel => hloop fuel (Nat.lt_of_succ_le hfuel)⟩, ?_⟩
  rcases hresult with ⟨hrows, hentries, rfl⟩ | ⟨hread, e, rfl⟩
  · constructor
    · rintro ⟨p, hp, hunion⟩
      cases hp
      exact ⟨hrows, hentries, (isUnion_iff hrows.decodes).1 hunion⟩
    · rintro ⟨-, -, hids⟩
      exact ⟨_, rfl, (isUnion_iff hrows.decodes).2 hids⟩
  · constructor
    · rintro ⟨p, hp, -⟩
      cases hp
    · rintro ⟨hrows, hentries, -⟩
      exact absurd ⟨hrows, hentries⟩ hread

end Union

/-! ### Samples -/

section Samples

/-- A format that writes the beginning of the epoch as it is, and other times as a tally. -/
def sampleFormat (t : Int) : String :=
  if t = 0 then "1970-01-01T00:00:00.000000Z"
  else String.ofList ((if t < 0 then '-' else '+') :: List.replicate t.natAbs '|')

def sampleInRange (t : Int) : Except String Int :=
  if fourDigits t then .ok t else .error "input is out of range"

def sampleParse (s : String) : Except String Int :=
  if s = "1970-01-01T00:00:00.000000+00:00" then .ok 0
  else
    match s.toList with
    | [] => .error "premature end of input"
    | sign :: tally =>
      if sign = '-' then sampleInRange (-tally.length)
      else if sign = '+' then sampleInRange tally.length
      else .error "input contains invalid characters"

theorem timestampText_ofList {cs : List Char} (h : 'Z' ∉ cs) :
    Postgres.timestampText (String.ofList cs) = String.ofList cs := by
  rw [Postgres.timestampText, String.toList_ofList]
  congr 1
  induction cs with
  | nil => rfl
  | cons c cs ih =>
    obtain ⟨hc, hcs⟩ := not_or.1 (List.mem_cons.not.1 h)
    rw [List.flatMap_cons, if_neg (Ne.symm hc), ih hcs]
    rfl

theorem ofList_ne_epoch {c : Char} (hc : c ≠ '1') (cs : List Char) :
    String.ofList (c :: cs) ≠ "1970-01-01T00:00:00.000000+00:00" := by
  intro h
  have hlist := congrArg String.toList h
  rw [String.toList_ofList] at hlist
  exact hc (List.cons.inj hlist).1

theorem fourDigits_zero : fourDigits 0 = true := by
  simp [fourDigits]

theorem sampleParse_epoch :
    sampleParse (Postgres.timestampText "1970-01-01T00:00:00.000000Z") = .ok 0 := by
  have htext : Postgres.timestampText "1970-01-01T00:00:00.000000Z" =
      "1970-01-01T00:00:00.000000+00:00" := by decide
  rw [htext, sampleParse, if_pos rfl]

theorem sampleParse_minus (tally : List Char) :
    sampleParse (String.ofList ('-' :: tally)) = sampleInRange (-tally.length) := by
  rw [sampleParse, if_neg (ofList_ne_epoch (by decide) _), String.toList_ofList]
  exact if_pos rfl

theorem sampleParse_plus (tally : List Char) :
    sampleParse (String.ofList ('+' :: tally)) = sampleInRange tally.length := by
  rw [sampleParse, if_neg (ofList_ne_epoch (by decide) _), String.toList_ofList]
  exact (if_neg (by decide)).trans (if_pos rfl)

theorem sampleParse_format (t : Int) :
    sampleParse (Postgres.timestampText (sampleFormat t)) = sampleInRange t := by
  by_cases ht : t = 0
  · rw [ht, sampleFormat, if_pos rfl, sampleParse_epoch, sampleInRange, if_pos fourDigits_zero]
  have hz : ∀ c, c ≠ 'Z' → 'Z' ∉ c :: List.replicate t.natAbs '|' := by
    intro c hc hmem
    rcases List.mem_cons.1 hmem with h | h
    · exact hc h.symm
    · exact absurd (List.eq_of_mem_replicate h) (by decide)
  rw [sampleFormat, if_neg ht]
  by_cases hneg : t < 0
  · have ht_eq : (-(t.natAbs : Int)) = t := by omega
    rw [if_pos hneg, timestampText_ofList (hz '-' (by decide)), sampleParse_minus,
      List.length_replicate, ht_eq]
  · have ht_eq : (t.natAbs : Int) = t := by omega
    rw [if_neg hneg, timestampText_ofList (hz '+' (by decide)), sampleParse_plus,
      List.length_replicate, ht_eq]

theorem sampleInRange_of_fourDigits (t : Int) (h : fourDigits t = true) :
    sampleParse (Postgres.timestampText (sampleFormat t)) = .ok t := by
  rw [sampleParse_format, sampleInRange, if_pos h]

theorem sampleInRange_of_far (t : Int) (h : fourDigits t = false) :
    ∃ e, sampleParse (Postgres.timestampText (sampleFormat t)) = .error e := by
  rw [sampleParse_format, sampleInRange, h]
  exact ⟨_, rfl⟩

def sampleExport : ExportLibrary where
  codec := ⟨plainDoubles, fun _ => none⟩
  formatUtc := sampleFormat
  parseRfc3339 := sampleParse
  uuidError := fun _ => "invalid length"
  parse_format := sampleInRange_of_fourDigits
  parse_far := sampleInRange_of_far

def sampleRow : Row where
  id := Uuid.ofNat 10
  timestampUtc := 0
  protocolVersion := "1.0"
  sender := "alice"
  recipient := "bob"
  topic := "note"
  body := "hello"
  threadId := none
  tags := some (.arr [])
  priority := "normal"
  requestAck := false
  replyTo := "alice"
  metadata := some (.obj [])
  streamId := some "1-0"
  clientMsgId := none
  originHub := none
  originSeq := none
  hlc := none
  sensitivity := none

def sampleTable : MessageTable where
  rows := [sampleRow]
  ascending := List.pairwise_singleton _ _
  nodup := List.nodup_singleton _

/-- A stream of one entry with this id. -/
def streamOf (id : String) : MessageStream where
  entries := [⟨StreamId.mk 1 0, [("id", id), ("body", "hello")]⟩]
  ascending := List.pairwise_singleton _ _

/-- A sink that takes every message. -/
def acceptAll : Sink := fun _ => .ok ()

theorem acceptAll_eq (m : Sync.Message) : acceptAll m = .ok () := rfl

theorem rowsRead_sample : RowsRead 1 sampleTable.rows where
  fits := by decide
  decodes := by decide
  endsPlain := by
    intro i row hi _
    obtain rfl := List.mem_singleton.1 (List.mem_of_getElem? hi)
    exact fourDigits_zero

theorem entriesRead_streamOf (id : String) : EntriesRead (streamOf id).entries := by
  intro entry hentry
  obtain rfl := List.mem_singleton.1 hentry
  show StreamId.mk 1 0 < greatestId
  decide

theorem exportUnion_iff_sample : ∃ result, (∃ enough, ∀ fuel, enough ≤ fuel →
      exportUnion sampleExport (exportMessagesPage sampleExport sampleTable 1)
        (redisPage sampleExport (streamOf "m-1") 1) acceptAll fuel = some result) ∧
    ∃ p, result = .ok p ∧ IsUnion sampleExport sampleTable (streamOf "m-1") p := by
  obtain ⟨result, hloop, hiff⟩ := exportUnion_iff sampleExport (le_refl 1) sampleTable
    (streamOf "m-1") acceptAll_eq
  refine ⟨result, hloop, hiff.2 ⟨rowsRead_sample, entriesRead_streamOf _, ?_, ?_, ?_⟩⟩
  · intro row _ entry hentry hparse
    obtain rfl := List.mem_singleton.1 hentry
    have hnone : parseUuid "m-1" = none := by decide
    rw [show entryId _ = "m-1" from rfl, hnone] at hparse
    cases hparse
  · intro x hx y hy id _ _
    rw [List.mem_singleton.1 hx, List.mem_singleton.1 hy]
  · intro x hx y hy _ _
    rw [List.mem_singleton.1 hx, List.mem_singleton.1 hy]

/-- A row, and an entry with its id in capitals: the message is exported twice. -/
theorem capital_id_exported_twice : ∃ p, (∀ fuel, 2 < fuel →
      exportUnion sampleExport (exportMessagesPage sampleExport sampleTable 1)
        (redisPage sampleExport (streamOf "00000000-0000-0000-0000-00000000000A") 1)
        acceptAll fuel = some (.ok p)) ∧
    p.emitted.map messageName = [.uuid (Uuid.ofNat 10), .uuid (Uuid.ofNat 10)] ∧
    ¬IsUnion sampleExport sampleTable (streamOf "00000000-0000-0000-0000-00000000000A") p := by
  obtain ⟨result, hloop, hresult⟩ := exportUnion_result sampleExport (le_refl 1)
    sampleTable (streamOf "00000000-0000-0000-0000-00000000000A") acceptAll_eq
  have hread := And.intro rowsRead_sample
    (entriesRead_streamOf "00000000-0000-0000-0000-00000000000A")
  rcases hresult with ⟨-, -, rfl⟩ | ⟨hnot, -⟩
  swap
  · exact absurd hread hnot
  refine ⟨_, hloop, by decide, fun hunion => ?_⟩
  have hids := ((isUnion_iff hread.1.decodes).1 hunion).canonical sampleRow
    (List.mem_singleton_self _) _ (List.mem_singleton_self _) (by decide)
  revert hids
  decide +kernel

end Samples

end AgentHub.Export
