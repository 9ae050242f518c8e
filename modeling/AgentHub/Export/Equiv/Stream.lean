import AgentHub.Outbox.Equiv.Request
import AgentHub.Export.Stream

/-!
# What a dump of a moving stream has

A page drops its first entry, which is the one written last unless that was trimmed meanwhile.  The
lines are those of the entries a resuming reader reads (`dumpLoop_spec`), so they have no id twice and
ascend, and an entry that is there from the first page to the last has its line exactly where no page
drops it.

`dumped_iff` is the claim with its condition; `overtaken_missed` is a stream whose trimming passes the
reader.
-/

namespace AgentHub.Export

open AgentHub.Json AgentHub.Paging AgentHub.Resume
open AgentHub.Sync (StreamId)

/-! ### The stream -/

namespace LiveStream

theorem Step.grows {s t : LiveStream} (h : Step s t) : s.log <+: t.log ∧ s.trimmed ≤ t.trimmed := by
  cases h with
  | append entry ascending => exact ⟨List.prefix_append _ _, Nat.le_refl _⟩
  | trim h => exact ⟨List.prefix_rfl, Nat.le_succ _⟩

/-- A stream is appended to at its end and trimmed at its beginning. -/
theorem Grows.spec {s t : LiveStream} (h : Grows s t) : s.log <+: t.log ∧ s.trimmed ≤ t.trimmed := by
  induction h with
  | refl => exact ⟨List.prefix_rfl, Nat.le_refl _⟩
  | tail _ hstep ih =>
    obtain ⟨hlog, htrimmed⟩ := Step.grows hstep
    exact ⟨ih.1.trans hlog, ih.2.trans htrimmed⟩

theorem entries_ascending (s : LiveStream) : Ascending RawEntry.id s.entries :=
  s.ascending.sublist (List.drop_sublist _ _)

instance : Trans Grows Grows Grows := ⟨Relation.ReflTransGen.trans⟩

/-- An entry a stream had and later still has was there in between. -/
theorem mem_between {s t u : LiveStream} (hst : Grows s t) (htu : Grows t u) {entry : RawEntry}
    (hs : entry ∈ s.entries) (hu : entry ∈ u.entries) : entry ∈ t.entries := by
  obtain ⟨hlog, -⟩ := hst.spec
  obtain ⟨⟨later, hlater⟩, htrimmed⟩ := htu.spec
  have ht : entry ∈ t.log := hlog.subset (List.mem_of_mem_drop hs)
  rw [← List.take_append_drop t.trimmed t.log] at ht
  rcases List.mem_append.1 ht with hfront | hback
  · -- what was trimmed by then is not there later
    have htake : entry ∈ u.log.take u.trimmed := by
      have hprefix : t.log.take t.trimmed <+: u.log.take u.trimmed := by
        rw [← hlater]
        refine List.prefix_of_prefix_length_le
          ((List.take_prefix _ _).trans (List.prefix_append t.log later)) (List.take_prefix _ _) ?_
        have := t.trimmed_le
        have hlen := u.trimmed_le
        rw [← hlater] at hlen
        rw [List.length_take, List.length_take]
        omega
      exact hprefix.subset hfront
    have hasc := u.ascending
    rw [← List.take_append_drop u.trimmed u.log] at hasc
    exact absurd ((List.pairwise_append.1 hasc).2.2 entry htake entry hu) (lt_irrefl _)
  · exact hback

end LiveStream

/-- An entry is there at the first page and at the last. -/
def Stays (seen : List LiveStream) (entry : RawEntry) : Prop :=
  (∃ s ∈ seen.head?, entry ∈ s.entries) ∧ ∃ s ∈ seen.getLast?, entry ∈ s.entries

theorem Stays.mem {seen : List LiveStream} (hgrows : seen.IsChain LiveStream.Grows)
    {entry : RawEntry} (h : Stays seen entry) {s : LiveStream} (hs : s ∈ seen) :
    entry ∈ s.entries := by
  obtain ⟨⟨first, hfirst, hin⟩, last, hlast, hout⟩ := h
  have hpair : seen.Pairwise LiveStream.Grows := List.isChain_iff_pairwise.1 hgrows
  have hfrom : LiveStream.Grows first s := by
    obtain ⟨rest, rfl⟩ := List.head?_eq_some_iff.1 hfirst
    rcases List.mem_cons.1 hs with rfl | hs
    · exact Relation.ReflTransGen.refl
    · exact (List.pairwise_cons.1 hpair).1 s hs
  have hto : LiveStream.Grows s last := by
    obtain ⟨front, rfl⟩ := List.getLast?_eq_some_iff.1 hlast
    rcases List.mem_append.1 hs with hs | hs
    · exact (List.pairwise_append.1 hpair).2.2 s hs last (by simp)
    · rw [List.mem_singleton.1 hs]
      exact Relation.ReflTransGen.refl
  exact LiveStream.mem_between hfrom hto hin hout

/-! ### The lines -/

section Dump

variable {b64 : List UInt8 → String}

theorem record_streamId {entry : RawEntry} {line : Record} (h : record b64 entry = .ok line) :
    line.streamId = entry.id := by
  obtain ⟨fields, -, hline⟩ := bind_eq_ok.1 h
  rw [← Except.ok.inj hline]

/-- An entry that is written adds its line and is counted. -/
theorem writeEntry_spec {d d' : Dump} {entry : RawEntry} (h : writeEntry b64 d entry = .ok d') :
    d'.last = d.last ∧ d'.n = d.n + 1 ∧
      ∃ line, record b64 entry = .ok line ∧ d'.records = d.records ++ [line] := by
  obtain ⟨line, hline, hrest⟩ := bind_eq_ok.1 h
  dsimp only at hrest
  split at hrest
  · obtain rfl := Except.ok.inj hrest
    exact ⟨rfl, rfl, line, hline, rfl⟩
  · obtain rfl := Except.ok.inj hrest
    exact ⟨rfl, rfl, line, hline, rfl⟩
  · cases hrest

/-- The lines of some entries. -/
def Lines (b64 : List UInt8 → String) (entries : List RawEntry) (lines : List Record) : Prop :=
  entries.map (record b64) = lines.map .ok

theorem Lines.append {xs ys : List RawEntry} {ls ms : List Record} (h : Lines b64 xs ls)
    (h' : Lines b64 ys ms) : Lines b64 (xs ++ ys) (ls ++ ms) := by
  unfold Lines at h h' ⊢
  rw [List.map_append, List.map_append, h, h']

theorem Lines.length_eq {xs : List RawEntry} {ls : List Record} (h : Lines b64 xs ls) :
    xs.length = ls.length := by
  have hlength := congrArg List.length h
  rwa [List.length_map, List.length_map] at hlength

theorem Lines.exists_line {xs : List RawEntry} {ls : List Record} (h : Lines b64 xs ls)
    {entry : RawEntry} (hentry : entry ∈ xs) : ∃ line ∈ ls, record b64 entry = .ok line := by
  have hmem : record b64 entry ∈ ls.map Except.ok := h ▸ List.mem_map_of_mem hentry
  obtain ⟨line, hline, heq⟩ := List.mem_map.1 hmem
  exact ⟨line, hline, heq.symm⟩

theorem Lines.exists_entry {xs : List RawEntry} {ls : List Record} (h : Lines b64 xs ls)
    {line : Record} (hline : line ∈ ls) : ∃ entry ∈ xs, record b64 entry = .ok line := by
  have hmem : Except.ok line ∈ xs.map (record b64) := h ▸ List.mem_map_of_mem hline
  exact List.mem_map.1 hmem

/-- The ids of the lines are those of the entries. -/
theorem Lines.ascending {xs : List RawEntry} {ls : List Record} (h : Lines b64 xs ls)
    (hxs : Ascending RawEntry.id xs) : Ascending Record.streamId ls := by
  have hids : ls.map Record.streamId = xs.map RawEntry.id := by
    induction xs generalizing ls with
    | nil =>
      have hlength := h.length_eq
      rw [List.length_nil] at hlength
      rw [List.length_eq_zero_iff.1 hlength.symm]
      rfl
    | cons entry xs ih =>
      cases ls with
      | nil => cases h
      | cons line ls =>
        obtain ⟨hline, hrest⟩ := List.cons.inj h
        rw [List.map_cons, List.map_cons, record_streamId hline,
          ih hrest (List.pairwise_cons.1 hxs).2]
  have hsorted : (xs.map RawEntry.id).Pairwise (· < ·) := List.pairwise_map.2 hxs
  rw [← hids] at hsorted
  exact List.pairwise_map.1 hsorted

theorem writeEntries_spec {batch : List RawEntry} {d d' : Dump}
    (h : batch.foldlM (writeEntry b64) d = .ok d') :
    d'.last = d.last ∧ d'.n = d.n + batch.length ∧
      ∃ lines, Lines b64 batch lines ∧ d'.records = d.records ++ lines := by
  induction batch generalizing d with
  | nil =>
    obtain rfl := Except.ok.inj h
    exact ⟨rfl, rfl, [], rfl, (List.append_nil _).symm⟩
  | cons entry batch ih =>
    rw [List.foldlM_cons] at h
    obtain ⟨next, hnext, hrest⟩ := bind_eq_ok.1 h
    obtain ⟨hlast, hn, line, hline, hrecords⟩ := writeEntry_spec hnext
    obtain ⟨hlast', hn', lines, hlines, hrecords'⟩ := ih hrest
    refine ⟨hlast'.trans hlast, ?_, line :: lines, ?_, ?_⟩
    · rw [hn', hn, List.length_cons]
      omega
    · show record b64 entry :: batch.map (record b64) = .ok line :: lines.map .ok
      rw [hline, hlines]
    · rw [hrecords', hrecords, List.append_assoc, List.singleton_append]

/-- What a turn does: it ends where there is nothing new, or writes what is new and moves on. -/
theorem dumpTurn_cases {d : Dump} {entries : List RawEntry} {next : Dump ⊕ Dump}
    (h : dumpTurn b64 d entries = .ok next) :
    ((fresh RawEntry.id dumpPage d.last entries).getLast? = none ∧ next = .inr d) ∨
      ∃ last d', (fresh RawEntry.id dumpPage d.last entries).getLast? = some last ∧
        (fresh RawEntry.id dumpPage d.last entries).foldlM (writeEntry b64) d = .ok d' ∧
        next = .inl { d' with last := some last.id } := by
  unfold dumpTurn at h
  dsimp only at h
  split at h
  · next hnone => exact Or.inl ⟨hnone, (Except.ok.inj h).symm⟩
  · next last hlast =>
    obtain ⟨d', hfold, hnext⟩ := bind_eq_ok.1 h
    exact Or.inr ⟨last, d', hlast, hfold, (Except.ok.inj hnext).symm⟩

theorem dumpTurn_end {d : Dump} {entries : List RawEntry}
    (h : (fresh RawEntry.id dumpPage d.last entries).getLast? = none) :
    dumpTurn b64 d entries = .ok (.inr d) := by
  unfold dumpTurn
  dsimp only
  rw [h]

theorem dumpTurn_page {d d' : Dump} {entries batch : List RawEntry} {last : RawEntry}
    (hbatch : fresh RawEntry.id dumpPage d.last entries = batch)
    (hlast : batch.getLast? = some last) (hfold : batch.foldlM (writeEntry b64) d = .ok d') :
    dumpTurn b64 d entries = .ok (.inl { d' with last := some last.id }) := by
  unfold dumpTurn
  dsimp only
  rw [hbatch, hlast]
  show (_ >>= _) = _
  rw [hfold]
  rfl

/-- A page that is written moves the reader on. -/
def Further (d d' : Dump) : Prop :=
  d.records.length < d'.records.length ∧ ∃ c ∈ d'.last, ∀ b ∈ d.last, b < c

theorem dumpTurn_further {d d' : Dump} {s : LiveStream}
    (h : dumpTurn b64 d s.entries = .ok (.inl d')) : Further d d' := by
  rcases dumpTurn_cases h with ⟨-, hend⟩ | ⟨last, written, hlast, hfold, hnext⟩
  · cases hend
  · obtain rfl := Sum.inl.inj hnext
    obtain ⟨-, -, lines, hlines, hrecords⟩ := writeEntries_spec hfold
    have hmem := List.mem_of_getLast? hlast
    constructor
    · show d.records.length < written.records.length
      have hpos := List.length_pos_of_mem hmem
      rw [hrecords, List.length_append, ← hlines.length_eq]
      omega
    · exact ⟨last.id, rfl, lt_of_mem_fresh s.entries_ascending (by decide) hmem⟩

/-- **The loop is a resuming reader** of the streams it sees, and writes a line for each entry. -/
theorem dumpLoop_spec {seen : List LiveStream} :
    ∀ {d : Dump} {pages : List Dump}, dumpLoop b64 d seen = some (.ok pages) →
      (d :: pages).IsChain Further ∧
      ∃ xs lines, readViews RawEntry.id dumpPage d.last (seen.map LiveStream.entries) = some xs ∧
        Lines b64 xs lines ∧ (pages.getLast?.getD d).records = d.records ++ lines := by
  induction seen with
  | nil =>
    intro d pages h
    cases h
  | cons s seen ih =>
    intro d pages h
    rw [dumpLoop] at h
    split at h
    case h_1 => cases h
    -- an empty page ends the dump
    case h_2 hturn =>
      split at h
      · next hempty =>
        obtain rfl := Except.ok.inj (Option.some.inj h)
        rcases dumpTurn_cases hturn with ⟨hnone, -⟩ | ⟨last, d', -, -, hnext⟩
        · refine ⟨List.IsChain.singleton d, [], [], ?_, rfl, (List.append_nil _).symm⟩
          rw [List.map_cons, readViews, hnone]
          simp only [List.isEmpty_iff, List.map_eq_nil_iff]
          rw [if_pos (List.isEmpty_iff.1 hempty)]
        · cases hnext
      · cases h
    -- a full page: the rest of the dump starts behind its last entry
    case h_3 next hturn =>
      obtain ⟨result, hloop, hresult⟩ := Option.map_eq_some_iff.1 h
      obtain ⟨rest, rfl, rfl⟩ := map_eq_ok.1 hresult
      obtain ⟨hchain, xs, lines, hread, hlines, hrecords⟩ := ih hloop
      have hfurther := dumpTurn_further hturn
      rcases dumpTurn_cases hturn with ⟨-, hend⟩ | ⟨last, d', hlast, hfold, hnext⟩
      · cases hend
      · obtain rfl := Sum.inl.inj hnext
        obtain ⟨-, -, front, hfront, hwritten⟩ := writeEntries_spec hfold
        refine ⟨List.isChain_cons_cons.2 ⟨hfurther, hchain⟩,
          fresh RawEntry.id dumpPage d.last s.entries ++ xs, front ++ lines, ?_,
          hfront.append hlines, ?_⟩
        · rw [List.map_cons, readViews, hlast]
          show (readViews _ _ (some last.id) _).map _ = _
          rw [hread]
          rfl
        · -- the records of all pages stand in the order they were read
          have hlastPage : (({ d' with last := some last.id } :: rest).getLast?.getD d) =
              rest.getLast?.getD { d' with last := some last.id } := by
            rw [List.getLast?_cons]
            rfl
          rw [hlastPage, hrecords, ← List.append_assoc, ← hwritten]

/-! ### The claim -/

/-- What the dump is to have: a line for what stays, no line twice, all in order, and every page
written moves it on. -/
structure Dumped (b64 : List UInt8 → String) (seen : List LiveStream) (pages : List Dump) : Prop where
  stays : ∀ entry, Stays seen entry → ∃ line, record b64 entry = .ok line ∧
    (result pages).records.filter (fun r => r.streamId = entry.id) = [line]
  ascending : Ascending Record.streamId (result pages).records
  progress : (Dump.start :: pages).IsChain Further

/-- **A dump has what stays** exactly where at every page behind the first the entry written last is
still in the stream, or the first entry behind it is one that came after the first page or is gone at
the last. -/
theorem dumped_iff (b64 : List UInt8 → String) (seen : List LiveStream)
    (hgrows : seen.IsChain LiveStream.Grows) (pages : List Dump)
    (h : dumpLoop b64 Dump.start seen = some (.ok pages)) :
    Dumped b64 seen pages ↔
      Keeps RawEntry.id dumpPage (Stays seen) none (seen.map LiveStream.entries) := by
  obtain ⟨hchain, xs, lines, hread, hlines, hrecords⟩ := dumpLoop_spec h
  have hresult : (result pages).records = lines := hrecords
  have hviews : ∀ view ∈ seen.map LiveStream.entries, Ascending RawEntry.id view := by
    intro view hview
    obtain ⟨s, -, rfl⟩ := List.mem_map.1 hview
    exact s.entries_ascending
  have hstays : ∀ entry, Stays seen entry → ∀ view ∈ seen.map LiveStream.entries, entry ∈ view := by
    intro entry hentry view hview
    obtain ⟨s, hs, rfl⟩ := List.mem_map.1 hview
    exact hentry.mem hgrows hs
  have hasc := hlines.ascending (readViews_ascending (by decide) hviews hread)
  have hiff := readViews_iff (by decide) hviews hstays hread
  change _ ↔ Keeps RawEntry.id dumpPage (Stays seen) none _ at hiff
  rw [← hiff]
  constructor
  · intro hdumped entry hentry _
    obtain ⟨line, hline, hfilter⟩ := hdumped.stays entry hentry
    have hmem : line ∈ lines := by
      rw [← hresult]
      exact List.mem_of_mem_filter (hfilter ▸ List.mem_singleton_self line)
    -- the line was written for an entry of that id, which is the entry itself
    obtain ⟨other, hother, hrecord⟩ := hlines.exists_entry hmem
    obtain ⟨view, hview, hin⟩ := mem_of_mem_readViews hread other hother
    have hid : other.id = entry.id := by
      rw [← record_streamId hrecord, ← record_streamId hline]
    rw [← eq_of_key (hviews view hview) (hstays entry hentry view hview) hin hid]
    exact hother
  · intro hall
    refine ⟨?_, hresult ▸ hasc, hchain⟩
    intro entry hentry
    obtain ⟨line, hline, hrecord⟩ := hlines.exists_line (hall entry hentry fun _ hb => absurd hb (Option.not_mem_none _))
    refine ⟨line, hrecord, ?_⟩
    rw [hresult, ← record_streamId hrecord]
    exact filter_key_eq hasc hline

/-! ### A stream that is trimmed past the reader -/

def bare (n : Nat) : RawEntry := ⟨toLex (n + 1, 0), []⟩

/-- The first entries of a stream. -/
def bareLog (n : Nat) : List RawEntry := (List.range n).map bare

theorem bareLog_ascending (n : Nat) : Ascending RawEntry.id (bareLog n) := by
  refine List.pairwise_map.2 (List.pairwise_lt_range.imp ?_)
  intro i j hij
  exact Prod.Lex.toLex_lt_toLex.2 (Or.inl (Nat.succ_lt_succ hij))

theorem length_bareLog (n : Nat) : (bareLog n).length = n := by
  rw [bareLog, List.length_map, List.length_range]

theorem bareLog_succ (n : Nat) : bareLog (n + 1) = bareLog n ++ [bare n] := by
  rw [bareLog, List.range_succ, List.map_append]
  rfl

/-- Its stream with the oldest of them trimmed. -/
def trimmedTo (n k : Nat) (h : k ≤ n) : LiveStream :=
  ⟨bareLog n, bareLog_ascending n, k, h.trans_eq (length_bareLog n).symm⟩

theorem trimmedTo_grows (n k : Nat) : ∀ h : k ≤ n,
    LiveStream.Grows (trimmedTo n 0 (Nat.zero_le n)) (trimmedTo n k h) := by
  induction k with
  | zero => exact fun _ => Relation.ReflTransGen.refl
  | succ k ih =>
    intro h
    have hstep := LiveStream.Step.trim (trimmedTo n k (by omega)) (by
      show k < (bareLog n).length
      rw [length_bareLog]
      omega)
    exact (ih (by omega)).tail hstep

variable (b64) in
/-- Entries without fields are written and counted. -/
theorem foldlM_writeEntry_bare {batch : List RawEntry} (h : ∀ entry ∈ batch, entry.fields = [])
    (d : Dump) : batch.foldlM (writeEntry b64) d =
      .ok ⟨d.last, d.records ++ batch.map fun entry => ⟨entry.id, []⟩, d.n + batch.length,
        d.noId + batch.length, d.redisUuids⟩ := by
  induction batch generalizing d with
  | nil =>
    rw [List.map_nil, List.append_nil]
    rfl
  | cons entry batch ih =>
    obtain ⟨hentry, hbatch⟩ := List.forall_mem_cons.1 h
    have hwrite : writeEntry b64 d entry =
        .ok ⟨d.last, d.records ++ [⟨entry.id, []⟩], d.n + 1, d.noId + 1, d.redisUuids⟩ := by
      rw [writeEntry, record, hentry]
      rfl
    rw [List.foldlM_cons, hwrite]
    refine (ih hbatch _).trans ?_
    simp only [List.append_assoc, List.singleton_append, List.map_cons, List.length_cons]
    congr 2 <;> omega

/-- The older of two entries is trimmed while the reader is at the newer. -/
theorem dumped_iff_trimmed :
    Dumped (fun _ => "") [trimmedTo 2 0 (by decide), trimmedTo 2 1 (by decide)]
        [⟨some (bare 1).id, [⟨(bare 0).id, []⟩, ⟨(bare 1).id, []⟩], 2, 2, []⟩] ↔
      Keeps RawEntry.id dumpPage (Stays [trimmedTo 2 0 (by decide), trimmedTo 2 1 (by decide)]) none
        [bareLog 2, [bare 1]] :=
  dumped_iff (fun _ => "") _
    (List.isChain_cons_cons.2 ⟨trimmedTo_grows 2 1 _, List.IsChain.singleton _⟩) _ rfl

theorem entries_trimmedTo_zero (n : Nat) :
    (trimmedTo (n + 1) 0 (Nat.zero_le _)).entries = bareLog n ++ [bare n] := bareLog_succ n

theorem entries_trimmedTo_succ (n : Nat) :
    (trimmedTo (n + 1) n (Nat.le_succ n)).entries = [bare n] := by
  show (bareLog (n + 1)).drop n = [bare n]
  rw [bareLog_succ, List.drop_left' (length_bareLog n)]

/-- A page and one entry, of which the page is trimmed once it is written. -/
def overtaken : List LiveStream :=
  [trimmedTo (dumpPage + 1) 0 (Nat.zero_le _), trimmedTo (dumpPage + 1) dumpPage (Nat.le_succ _)]

/-- **The entry behind a page that was trimmed** is never written. -/
theorem overtaken_missed : overtaken.IsChain LiveStream.Grows ∧
    ∃ pages, dumpLoop (fun _ => "") Dump.start overtaken = some (.ok pages) ∧
      ¬Dumped (fun _ => "") overtaken pages := by
  have hpage : fresh RawEntry.id dumpPage none (bareLog dumpPage ++ [bare dumpPage]) =
      bareLog dumpPage := by
    rw [fresh_none, List.take_left' (length_bareLog dumpPage)]
  have hlast : (bareLog dumpPage).getLast? = some (bare 4999) := by
    rw [dumpPage, bareLog_succ 4999, List.getLast?_concat]
  have hbare : ∀ entry ∈ bareLog dumpPage, entry.fields = [] := by
    intro entry hentry
    obtain ⟨i, -, rfl⟩ := List.mem_map.1 hentry
    rfl
  have hfold := foldlM_writeEntry_bare (fun _ => "") hbare Dump.start
  rw [← entries_trimmedTo_zero] at hpage
  obtain ⟨first, hfirst, hbound, hrecords⟩ : ∃ first : Dump,
      dumpTurn (fun _ => "") Dump.start (trimmedTo (dumpPage + 1) 0 (Nat.zero_le _)).entries =
        .ok (.inl first) ∧ first.last = some (bare 4999).id ∧
      first.records = (bareLog dumpPage).map fun entry => ⟨entry.id, []⟩ :=
    ⟨_, dumpTurn_page (d := Dump.start) hpage hlast hfold, rfl, List.nil_append _⟩
  -- the only entry of the second page is the one that is left out of it
  have hnext : fresh RawEntry.id dumpPage first.last [bare dumpPage] = [] := by
    rw [hbound, fresh_some]
    apply List.eq_nil_of_length_eq_zero
    have hone := List.length_filter_le
      (fun x : RawEntry => (some (bare 4999).id).all (· ≤ x.id)) [bare dumpPage]
    rw [List.length_singleton] at hone
    rw [List.length_tail, List.length_take, atLeast]
    omega
  refine ⟨List.isChain_cons_cons.2 ⟨trimmedTo_grows _ _ _, List.IsChain.singleton _⟩, [first],
    ?_, ?_⟩
  · rw [overtaken, dumpLoop, hfirst]
    show (dumpLoop _ _ [trimmedTo (dumpPage + 1) dumpPage _]).map _ = _
    rw [dumpLoop, entries_trimmedTo_succ, dumpTurn_end (congrArg List.getLast? hnext)]
    rfl
  · intro hdumped
    have hstays : Stays overtaken (bare dumpPage) := by
      refine ⟨⟨trimmedTo (dumpPage + 1) 0 (Nat.zero_le _), rfl, ?_⟩,
        trimmedTo (dumpPage + 1) dumpPage (Nat.le_succ _), rfl, ?_⟩
      · rw [entries_trimmedTo_zero]
        exact List.mem_append_right _ (List.mem_singleton_self _)
      · rw [entries_trimmedTo_succ]
        exact List.mem_singleton_self _
    obtain ⟨line, -, hline⟩ := hdumped.stays _ hstays
    have hfound := List.mem_filter.1 (hline ▸ List.mem_singleton_self line)
    have hmem : line ∈ first.records := hfound.1
    have hid : line.streamId = (bare dumpPage).id := of_decide_eq_true hfound.2
    -- the lines are those of the first page
    rw [hrecords] at hmem
    obtain ⟨entry, hentry, rfl⟩ := List.mem_map.1 hmem
    obtain ⟨i, hi, rfl⟩ := List.mem_map.1 hentry
    have hsame : i = dumpPage := Nat.succ.inj (congrArg (fun id => (ofLex id).1) hid)
    exact absurd (List.mem_range.1 hi) (by omega)

end Dump

end AgentHub.Export
