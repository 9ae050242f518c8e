import AgentHub.Outbox.Equiv.Steps

/-!
# The journal and its file agree

`Owned d f j s` is the invariant of an open journal: its durable records load to the state the
journal holds in memory, and what a failed append left behind still loads.  Every record a writer
appends is one a reader accepts (`Writes.accepted`), so the invariant is kept by every step
(`HandleInv.step`) and established by `load` (`load_cases`).

`Balanced` is the arithmetic of a report; the same step lemma proves it of every report returned.
-/

namespace AgentHub.Outbox

open AgentHub.Json AgentHub.Validation

/-! ### What `load` does -/

@[simp] theorem JournalFile.events_readBack (f : JournalFile) : f.readBack.events = f.events := by
  simp [JournalFile.readBack, JournalFile.events]

@[simp] theorem JournalFile.len_readBack (f : JournalFile) : f.readBack.len = f.len := by
  simp [JournalFile.len]

theorem JournalFile.len_synced (f : JournalFile) (e : Event) :
    (f.synced e).len = f.len + recordLen e := by
  simp [JournalFile.len]

/-- The ways a `load` can end. -/
theorem load_cases (f : JournalFile) (expected : Option String) (o : Uuid) (io : AppendIo) :
    (∃ err f', load f expected o io = (.error err, f') ∧ (f' = f ∨ f' = f.readBack)) ∨
    (∃ d s, load f expected o io = (.ok (s.journal, some d), f.readBack) ∧ f.torn = false ∧
      LoadsTo d f.events s ∧ (∀ x ∈ expected, d = x) ∧
      s.journal.pending.length ≤ requestLimit ∧ f.len ≤ journalLimit) ∨
    (f.events = [] ∧ expected = none ∧ f.torn = false ∧
      load f expected o io = (.ok ((Loading.start o).journal, none), f.readBack)) ∨
    (f.events = [] ∧ f.torn = false ∧ ∃ d, expected = some d ∧
      ((load f expected o io =
          (.ok ((Loading.start o).journal, some d), f.readBack.synced (.header o d)) ∧
        Fits f.readBack (.header o d)) ∨
      ∃ err j' f', load f expected o io = (.error err, f') ∧
        Failed (Loading.start o).journal f.readBack (.header o d) j' f')) := by
  unfold load
  by_cases hlen : f.len > journalLimit
  · rw [if_pos hlen]
    -- a file over the limit is refused as it is
    exact .inl ⟨_, _, rfl, .inl rfl⟩
  · rw [if_neg hlen]
    by_cases htorn : f.torn = true
    · rw [if_pos htorn]
      -- so is one that ends in a torn record
      exact .inl ⟨_, _, rfl, .inl rfl⟩
    · rw [if_neg htorn]
      have htorn' : f.torn = false := by simpa using htorn
      cases happly : applyEvents expected (Loading.start o) f.events with
      | error err => exact .inl ⟨_, _, rfl, .inl rfl⟩
      | ok s =>
        simp only [JournalFile.events_readBack]
        rcases applyEvents_start_ok happly with ⟨hnil, rfl⟩ | ⟨d, hloads, hd⟩
        · -- an empty file: without a scope nothing is written, otherwise a header
          have hheader : (Loading.start o).headerSeen = false := rfl
          simp only [hheader, hnil, Bool.false_eq_true, if_false, ne_eq, not_true_eq_false]
          refine .inr (.inr ?_)
          cases expected with
          | none => exact .inl ⟨trivial, rfl, htorn', rfl⟩
          | some d =>
            refine .inr ⟨trivial, htorn', d, rfl, ?_⟩
            simp only
            rcases append_cases (Loading.start o).journal f.readBack (.header o d) io with
              ⟨h, -, hfits⟩ | ⟨err, j', f', h, hfailed⟩
            · rw [h]
              exact .inl ⟨rfl, hfits⟩
            · rw [h]
              exact .inr ⟨err, j', f', rfl, hfailed⟩
        · -- a file with a header is taken as it is, unless too much is pending
          rw [if_pos hloads.state.headerSeen]
          by_cases hcap : s.journal.pending.length > requestLimit
          · rw [if_pos hcap]
            exact .inl ⟨_, _, rfl, .inr rfl⟩
          · rw [if_neg hcap, hloads.bound]
            exact .inr (.inl ⟨d, s, rfl, htorn', hloads, hd, by omega, by omega⟩)

/-- **A log that loads is read back**, whatever identifier the reader drew. -/
theorem load_of_loadsTo {f : JournalFile} {d : String} {s : Loading} (h : LoadsTo d f.events s)
    (htorn : f.torn = false) (hlen : f.len ≤ journalLimit)
    (hcap : s.journal.pending.length ≤ requestLimit) {expected : Option String}
    (hexpected : ∀ x ∈ expected, d = x) (o : Uuid) (io : AppendIo) :
    load f expected o io = (.ok (s.journal, some d), f.readBack) := by
  unfold load
  rw [if_neg (by omega), if_neg (by simp [htorn]), h.applyEvents_start o hexpected]
  simp only [h.state.headerSeen, if_true, h.bound]
  rw [if_neg (by omega)]

/-! ### The invariant of an open journal -/

/-- The durable records of `f` load to `s`, which the journal `j` holds in memory. -/
structure Owned (d : String) (f : JournalFile) (j : Journal) (s : Loading) : Prop where
  loads : LoadsTo d f.durable s
  journal_eq : j = { s.journal with poisoned := j.poisoned }
  clean : j.poisoned = false → f.unsynced = [] ∧ f.torn = false
  events : ∃ t, LoadsTo d f.events t ∧ t.journal.pending.length ≤ requestLimit
  capacity : s.journal.pending.length ≤ requestLimit
  len : f.len ≤ journalLimit

namespace Owned

variable {d : String} {f f' : JournalFile} {j j' : Journal} {s t : Loading} {e : Event}

theorem pending_eq (h : Owned d f j s) : j.pending = s.journal.pending := by
  rw [h.journal_eq]

theorem attempted_eq (h : Owned d f j s) : j.attempted = s.journal.attempted := by
  rw [h.journal_eq]

theorem eq_of_clean (h : Owned d f j s) (hclean : j.poisoned = false) : j = s.journal := by
  rw [h.journal_eq, hclean, ← h.loads.state.clean]

theorem events_of_clean (h : Owned d f j s) (hclean : j.poisoned = false) :
    f.events = f.durable := by
  simp [JournalFile.events, (h.clean hclean).1]

/-- A successful append of a record the reader accepts. -/
theorem wrote (h : Owned d f j s) (hclean : j.poisoned = false) (hfits : Fits f e)
    (he : applyEvent none s e = .ok t) (hcap : t.journal.pending.length ≤ requestLimit) :
    Owned d (f.synced e) t.journal t := by
  have hloads : LoadsTo d (f.events ++ [e]) t := by
    rw [h.events_of_clean hclean]
    exact h.loads.snoc he
  have htclean : t.journal.poisoned = false := hloads.state.clean
  exact
    { loads := hloads
      journal_eq := rfl
      clean := fun _ => ⟨rfl, (h.clean hclean).2⟩
      events := ⟨t, by rw [JournalFile.events_synced]; exact hloads, hcap⟩
      capacity := hcap
      len := by
        rw [JournalFile.len_synced]
        exact hfits.2 }

/-- A failed append of a record the reader would accept. -/
theorem failed (h : Owned d f j s) (hfailed : Failed j f e j' f')
    (he : Fits f e → ∃ t, applyEvent none s e = .ok t ∧
      t.journal.pending.length ≤ requestLimit) : Owned d f' j' s := by
  have hjournal : ({ j with poisoned := true } : Journal) = { s.journal with poisoned := true } := by
    rw [h.journal_eq]
  cases hfailed with
  -- nothing was written and the journal stays usable
  | unchanged => exact h
  | lost hclean =>
    exact { h with journal_eq := hjournal, clean := by simp }
  | torn hclean =>
    exact
      { loads := h.loads
        journal_eq := hjournal
        clean := by simp
        events := h.events
        capacity := h.capacity
        len := h.len }
  -- the record is there for every later reader, but the journal is poisoned
  | unsynced hclean hfits =>
    obtain ⟨t, ht, hcap⟩ := he hfits
    have hunsynced : f.unsynced = [] := (h.clean hclean).1
    have hevents : f.durable ++ (f.unsynced ++ [e]) = f.events ++ [e] := by
      simp [JournalFile.events]
    exact
      { loads := h.loads
        journal_eq := hjournal
        clean := by simp
        events := by
          refine ⟨t, ?_, hcap⟩
          show LoadsTo d (f.durable ++ (f.unsynced ++ [e])) t
          rw [hevents, h.events_of_clean hclean]
          exact h.loads.snoc ht
        capacity := h.capacity
        len := by
          show ((f.durable ++ (f.unsynced ++ [e])).map recordLen).sum ≤ journalLimit
          rw [hevents]
          have := hfits.2
          simpa [JournalFile.len] using this }

end Owned

/-! ### Where a flush stands -/

/-- The part of the snapshot still to come is the front of what is pending, and a request that was
handed to the transport is marked. -/
def PhaseInv (hd : Handle) : Prop :=
  match hd.phase with
  | .idle => True
  | .scanning fl => fl.queue <+: hd.journal.pending
  | .calling fl r | .answered fl r _ =>
    r :: fl.queue <+: hd.journal.pending ∧ r.requestId ∈ hd.journal.attempted

namespace FlushReport

/-- The requests a report counts. -/
def total (report : FlushReport) : Nat :=
  report.applied + report.expired + report.superseded + report.rejected

/-- **The arithmetic of a report**: its counts, its dispositions and what is left add up to what
was pending before. -/
def Balanced (report : FlushReport) (before : Nat) : Prop :=
  report.total = report.dispositions.length ∧ report.total + report.remaining = before

theorem total_count (report : FlushReport) (id : Uuid) (x : Disposition) :
    (report.count id x).total = report.total + 1 := by
  cases x <;> simp only [count, total] <;> omega

theorem dispositions_count (report : FlushReport) (id : Uuid) (x : Disposition) :
    (report.count id x).dispositions = insertEntry id x report.dispositions := by
  cases x <;> rfl

@[simp] theorem total_note (report : FlushReport) (id : Uuid) (a : Answer) :
    (report.note id a).total = report.total := by
  unfold note
  split <;> rfl

@[simp] theorem dispositions_note (report : FlushReport) (id : Uuid) (a : Answer) :
    (report.note id a).dispositions = report.dispositions := by
  unfold note
  split <;> rfl

end FlushReport

theorem insertEntry_of_notMem {α : Type} {id : Uuid} {m : List (Uuid × α)}
    (h : id ∉ m.map Prod.fst) (a : α) : insertEntry id a m = m ++ [(id, a)] := by
  unfold insertEntry
  rw [List.filter_eq_self.mpr]
  intro kv hkv
  have hne : kv.1 ≠ id := fun heq => h (heq ▸ List.mem_map_of_mem hkv)
  simpa using hne

/-- A running flush has counted what it settled, and none of it is still pending. -/
structure Counted (j : Journal) (fl : Flush) : Prop where
  total_eq : fl.report.total = fl.report.dispositions.length
  total_add : fl.report.total + j.pending.length = fl.before
  settled : ∀ id ∈ fl.report.dispositions.map Prod.fst, id ∉ requestIds j.pending

/-- The flush a handle is running, if any. -/
def Phase.flush? : Phase → Option Flush
  | .idle => none
  | .scanning fl | .calling fl _ | .answered fl _ _ => some fl

/-! ### Every record a writer appends is accepted -/

theorem length_insertPending_le (r : ReplayRequest) (ps : List ReplayRequest) :
    (insertPending r ps).length ≤ ps.length + 1 := by
  induction ps with
  | nil => simp [insertPending]
  | cons p ps ih =>
    simp only [insertPending]
    split_ifs <;> simp only [List.length_cons] <;> omega

theorem length_removePending_le (n : UInt64) (ps : List ReplayRequest) :
    (removePending n ps).length ≤ ps.length :=
  List.length_filter_le _ _

theorem applyQueued_of_fresh {s : Loading} {r : ReplayRequest} {next : UInt64}
    (hs : s.headerSeen = true) (hvalid : r.validate = .ok ())
    (horigin : r.originId = s.journal.originId) (hseq : r.sequence = s.journal.nextSequence)
    (hid : r.requestId ∉ s.allIds) (hnext : checkedAdd s.journal.nextSequence 1 = some next) :
    applyQueued s r = .ok { s with
      journal := { s.journal with
        nextSequence := next
        pending := insertPending r s.journal.pending }
      allIds := insert r.requestId s.allIds } := by
  unfold applyQueued
  rw [hvalid]
  simp only [hs, horigin, hseq, hid, hnext, Bool.not_true, Bool.false_eq_true, ne_eq,
    not_true_eq_false, or_self, if_false]

theorem applyAttempted_of_mem {s : Loading} {r : ReplayRequest} (hr : r ∈ s.journal.pending)
    (hnew : r.requestId ∉ s.journal.attempted) :
    applyAttempted s r.requestId = .ok { s with journal := s.journal.marked r } := by
  unfold applyAttempted
  have hany : (s.journal.pending.any fun p => p.requestId = r.requestId) = true := by
    simpa using ⟨r, hr, rfl⟩
  rw [if_neg (by simp only [hany, Bool.not_true, Bool.false_eq_true, false_or]; exact hnew)]
  rfl

theorem applySettled_of_mem {es : List Event} {s : Loading} (hs : LogState es s)
    {r : ReplayRequest} (hr : r ∈ s.journal.pending) :
    applySettled s r.requestId = .ok { s with journal := s.journal.without r } := by
  unfold applySettled
  cases hfind : s.journal.pending.find? fun p => p.requestId = r.requestId with
  | none =>
    rw [List.find?_eq_none] at hfind
    have hne := hfind r hr
    simp at hne
  | some p =>
    have hp : p ∈ s.journal.pending := List.mem_of_find?_eq_some hfind
    have hid : p.requestId = r.requestId := by simpa using List.find?_some hfind
    obtain rfl := eq_of_requestId_eq hs.pending_ids_nodup hp hr hid
    rfl

theorem applyEvent_queued {s : Loading} {r : ReplayRequest}
    (h : recordLen (.queued r) - 1 ≤ recordLimit) :
    applyEvent none s (.queued r) = applyQueued s r := by
  unfold applyEvent applyRecord
  rw [if_neg (by omega)]

theorem applyEvent_attempted {s : Loading} {id : Uuid}
    (h : recordLen (.attempted id) - 1 ≤ recordLimit) :
    applyEvent none s (.attempted id) = applyAttempted s id := by
  unfold applyEvent applyRecord
  rw [if_neg (by omega)]

theorem applyEvent_settled {s : Loading} {id : Uuid} {x : Disposition}
    (h : recordLen (.settled id x) - 1 ≤ recordLimit) :
    applyEvent none s (.settled id x) = applySettled s id := by
  unfold applyEvent applyRecord
  rw [if_neg (by omega)]

/-- **The reader accepts what the writer appends**, and reads the journal the writer holds. -/
theorem Writes.accepted {d : String} {f : JournalFile} {hd : Handle} {call : Call} {s : Loading}
    {e : Event} {j : Journal} (hw : Writes hd call e j) (h : Owned d f hd.journal s)
    (hphase : PhaseInv hd) (hclean : hd.journal.poisoned = false)
    (hfresh : ∀ id ∈ call.newId?, id ∉ s.allIds) (hfits : Fits f e) :
    ∃ t, applyEvent none s e = .ok t ∧ t.journal = j ∧
      t.journal.pending.length ≤ requestLimit := by
  have hj : hd.journal = s.journal := h.eq_of_clean hclean
  have hlen : recordLen e - 1 ≤ recordLimit := by
    have := hfits.1
    omega
  have hstate := h.loads.state
  have hcap := h.capacity
  -- Three of the five write sites settle a pending request.
  have settles : ∀ (r : ReplayRequest) (x : Disposition), r ∈ hd.journal.pending →
      recordLen (.settled r.requestId x) - 1 ≤ recordLimit →
      ∃ t, applyEvent none s (.settled r.requestId x) = .ok t ∧
        t.journal = hd.journal.without r ∧ t.journal.pending.length ≤ requestLimit := by
    intro r x hr hlen
    rw [hj] at hr
    refine ⟨_, (applyEvent_settled hlen).trans (applySettled_of_mem hstate hr), ?_, ?_⟩
    · rw [hj]
    · exact (length_removePending_le _ _).trans hcap
  unfold PhaseInv at hphase
  cases hw with
  | queued hcall hidle hprepare =>
    obtain ⟨hroom, hvalid, rfl, horigin, hseq, -, -, -, -, hnext⟩ := prepare_ok hprepare
    rw [hj] at horigin hseq hnext hroom
    have hid : _ ∉ s.allIds := hfresh _ (by rw [hcall]; rfl)
    refine ⟨_, (applyEvent_queued hlen).trans
      (applyQueued_of_fresh hstate.headerSeen hvalid horigin hseq hid hnext), ?_, ?_⟩
    · rw [hj]
    · exact (length_insertPending_le _ _).trans (by omega)
  | @expired fl r queue hscan hqueue hnew hexpires hnow =>
    rw [hscan] at hphase
    have hphase : fl.queue <+: hd.journal.pending := hphase
    exact settles r _ (hphase.subset (by simp [hqueue])) hlen
  | @overtaken fl r queue hscan hqueue hnew hoperation hnewer =>
    rw [hscan] at hphase
    have hphase : fl.queue <+: hd.journal.pending := hphase
    exact settles r _ (hphase.subset (by simp [hqueue])) hlen
  | @attempted fl r queue hscan hqueue hnew =>
    rw [hscan] at hphase
    have hphase : fl.queue <+: hd.journal.pending := hphase
    have hr : r ∈ s.journal.pending := by
      rw [← hj]
      exact hphase.subset (by simp [hqueue])
    rw [hj] at hnew
    refine ⟨_, (applyEvent_attempted hlen).trans (applyAttempted_of_mem hr hnew), ?_, ?_⟩
    · rw [hj]
    · exact hcap
  | @answered fl r a x hanswered ha =>
    rw [hanswered] at hphase
    have hphase : r :: fl.queue <+: hd.journal.pending ∧ _ := hphase
    exact settles r x (hphase.1.subset (by simp)) hlen

/-! ### One step keeps the invariant -/

/-- Settling the first pending request leaves the others. -/
theorem without_pending {j : Journal} {r : ReplayRequest} {queue : List ReplayRequest}
    (hseq : j.pending.Pairwise fun a b => a.sequence < b.sequence)
    (h : r :: queue <+: j.pending) :
    ∃ rest, j.pending = r :: rest ∧ (j.without r).pending = rest ∧ queue <+: rest := by
  obtain ⟨more, hmore⟩ := h
  rw [← hmore] at hseq
  refine ⟨queue ++ more, hmore.symm, ?_, List.prefix_append _ _⟩
  unfold Journal.without removePending
  simp only [← hmore, List.cons_append, ne_eq, List.filter_cons, not_true_eq_false, decide_false,
    Bool.false_eq_true, if_false]
  rw [List.filter_eq_self]
  intro p hp
  have hlt := (List.pairwise_cons.mp hseq).1 p hp
  simpa using (sequence_ne_of_lt hlt).symm

theorem Counted.settle {j : Journal} {fl : Flush} {r : ReplayRequest} {rest : List ReplayRequest}
    (h : Counted j fl) (hids : (requestIds j.pending).Nodup) (hpending : j.pending = r :: rest)
    (hrest : (j.without r).pending = rest) {fl' : Flush} {report : FlushReport} {x : Disposition}
    (htotal : report.total = fl.report.total)
    (hdispositions : report.dispositions = fl.report.dispositions)
    (hbefore : fl'.before = fl.before) (hreport : fl'.report = report.count r.requestId x) :
    Counted (j.without r) fl' := by
  -- the request was pending, so the report did not have it
  have hnew : r.requestId ∉ fl.report.dispositions.map Prod.fst := fun hmem =>
    h.settled _ hmem (by simp [hpending, requestIds])
  have hentry : (report.count r.requestId x).dispositions =
      fl.report.dispositions ++ [(r.requestId, x)] := by
    rw [FlushReport.dispositions_count, hdispositions, insertEntry_of_notMem hnew]
  have hlen : j.pending.length = rest.length + 1 := by simp [hpending]
  have htotal_eq := h.total_eq
  have htotal_add := h.total_add
  refine ⟨?_, ?_, ?_⟩
  · rw [hreport, FlushReport.total_count, hentry, List.length_append, List.length_singleton]
    omega
  · rw [hreport, FlushReport.total_count, hrest, hbefore]
    omega
  · intro id hid
    rw [hreport, hentry, List.map_append, List.mem_append] at hid
    rw [hrest]
    rw [hpending] at hids
    have hids' := List.nodup_cons.mp (show (r.requestId :: requestIds rest).Nodup from hids)
    rcases hid with hid | hid
    · -- what was settled before is not pending now
      have hnot := h.settled id hid
      rw [hpending] at hnot
      intro hmem
      exact hnot (List.mem_cons_of_mem _ hmem)
    · simp only [List.map_cons, List.map_nil, List.mem_singleton] at hid
      rw [hid]
      exact hids'.1

/-- **The invariant of an open journal and its owner.** -/
structure HandleInv (d : String) (f : JournalFile) (hd : Handle) (s : Loading) : Prop where
  owned : Owned d f hd.journal s
  phase : PhaseInv hd
  counted : ∀ fl ∈ hd.phase.flush?, Counted hd.journal fl

namespace HandleInv

variable {d : String} {f f' : JournalFile} {hd hd' : Handle} {s : Loading} {call : Call}
  {outs : List Output}

/-- An idle owner of a journal that agrees with its file. -/
theorem idle {j : Journal} (h : Owned d f j s) :
    HandleInv d f { journal := j, phase := .idle } s where
  owned := h
  phase := trivial
  counted := by simp [Phase.flush?]

theorem pending_sequences (h : HandleInv d f hd s) :
    hd.journal.pending.Pairwise fun a b => a.sequence < b.sequence := by
  rw [h.owned.pending_eq]
  exact h.owned.loads.state.pending_sequences

theorem pending_ids_nodup (h : HandleInv d f hd s) : (requestIds hd.journal.pending).Nodup := by
  rw [h.owned.pending_eq]
  exact h.owned.loads.state.pending_ids_nodup

theorem scanning (h : HandleInv d f hd s) {fl : Flush} (hphase : hd.phase = .scanning fl) :
    fl.queue <+: hd.journal.pending ∧ Counted hd.journal fl := by
  have hp := h.phase
  unfold PhaseInv at hp
  rw [hphase] at hp
  exact ⟨hp, h.counted fl (by simp [hphase, Phase.flush?])⟩

theorem calling (h : HandleInv d f hd s) {fl : Flush} {r : ReplayRequest}
    (hphase : hd.phase = .calling fl r) :
    r :: fl.queue <+: hd.journal.pending ∧ r.requestId ∈ hd.journal.attempted ∧
      Counted hd.journal fl := by
  have hp := h.phase
  unfold PhaseInv at hp
  rw [hphase] at hp
  exact ⟨hp.1, hp.2, h.counted fl (by simp [hphase, Phase.flush?])⟩

theorem answered (h : HandleInv d f hd s) {fl : Flush} {r : ReplayRequest} {a : Answer}
    (hphase : hd.phase = .answered fl r a) :
    r :: fl.queue <+: hd.journal.pending ∧ r.requestId ∈ hd.journal.attempted ∧
      Counted hd.journal fl := by
  have hp := h.phase
  unfold PhaseInv at hp
  rw [hphase] at hp
  exact ⟨hp.1, hp.2, h.counted fl (by simp [hphase, Phase.flush?])⟩

/-- A successful write keeps the journal and its file in agreement. -/
theorem wrote (h : HandleInv d f hd s) (hfresh : ∀ id ∈ call.newId?, id ∉ s.allIds) {e : Event}
    {j : Journal} (hw : Writes hd call e j) (hclean : hd.journal.poisoned = false)
    (hfits : Fits f e) : ∃ t, applyEvent none s e = .ok t ∧ Owned d (f.synced e) j t := by
  obtain ⟨t, ht, rfl, hcap⟩ := hw.accepted h.owned h.phase hclean hfresh hfits
  exact ⟨t, ht, h.owned.wrote hclean hfits ht hcap⟩

/-- So does a failed one. -/
theorem failed (h : HandleInv d f hd s) (hfresh : ∀ id ∈ call.newId?, id ∉ s.allIds) {e : Event}
    {j j' : Journal} (hw : Writes hd call e j) (hfailed : Failed hd.journal f e j' f') :
    Owned d f' j' s := by
  by_cases hclean : hd.journal.poisoned = false
  · refine h.owned.failed hfailed fun hfits => ?_
    obtain ⟨t, ht, -, hcap⟩ := hw.accepted h.owned h.phase hclean hfresh hfits
    exact ⟨t, ht, hcap⟩
  · cases hfailed with
    | unchanged => exact h.owned
    | lost hc => exact absurd hc hclean
    | torn hc => exact absurd hc hclean
    | unsynced hc _ => exact absurd hc hclean

/-- **One step of the owner keeps the invariant**, and a report it returns is balanced. -/
theorem step (h : HandleInv d f hd s) (hfresh : ∀ id ∈ call.newId?, id ∉ s.allIds)
    (hstep : Step hd f call hd' f' outs) :
    (∃ s', HandleInv d f' hd' s') ∧
      ∀ before report, .flushed before (.ok report) ∈ outs → report.Balanced before := by
  cases hstep with
  | stutter => exact ⟨⟨s, h⟩, by simp⟩
  | refused hphase => exact ⟨⟨s, h⟩, by simp⟩
  | enqueued hphase hw hclean hfits =>
    obtain ⟨t, -, ht⟩ := h.wrote hfresh hw hclean hfits
    exact ⟨⟨t, .idle ht⟩, by simp⟩
  | enqueueFailed hphase hw hfailed =>
    exact ⟨⟨s, .idle (h.failed hfresh hw hfailed)⟩, by simp⟩
  | began hphase =>
    refine ⟨⟨s, h.owned, List.take_prefix _ _, ?_⟩, by simp⟩
    intro fl hfl
    simp only [Phase.flush?, Option.mem_def, Option.some.injEq] at hfl
    -- a flush begins with an empty report
    subst hfl
    exact ⟨rfl, by simp [FlushReport.total], by simp⟩
  | @finished fl hphase hqueue =>
    -- the queue is empty: the report is the one that is returned
    obtain ⟨-, hcounted⟩ := h.scanning hphase
    refine ⟨⟨s, .idle h.owned⟩, ?_⟩
    intro before report hmem
    simp only [List.mem_singleton, Output.flushed.injEq, Except.ok.injEq] at hmem
    obtain ⟨rfl, rfl⟩ := hmem
    exact ⟨hcounted.total_eq, hcounted.total_add⟩
  | @dropped fl r queue x hphase hqueue hw hclean hfits =>
    obtain ⟨hfront, hcounted⟩ := h.scanning hphase
    rw [hqueue] at hfront
    obtain ⟨rest, hpending, hrest, hqueue'⟩ := without_pending h.pending_sequences hfront
    obtain ⟨t, -, ht⟩ := h.wrote hfresh hw hclean hfits
    -- the request leaves the front of the pending ones
    refine ⟨⟨t, ht, ?_, ?_⟩, by simp⟩
    · show queue <+: (hd.journal.without r).pending
      rw [hrest]
      exact hqueue'
    · intro fl' hfl
      simp only [Phase.flush?, Option.mem_def, Option.some.injEq] at hfl
      subst hfl
      exact hcounted.settle h.pending_ids_nodup hpending hrest rfl rfl rfl rfl
  | @attempted fl r queue hphase hqueue hw hclean hfits =>
    obtain ⟨hfront, hcounted⟩ := h.scanning hphase
    rw [hqueue] at hfront
    -- the mark changes neither the queue nor the report
    obtain ⟨t, -, ht⟩ := h.wrote hfresh hw hclean hfits
    refine ⟨⟨t, ht, ⟨hfront, Finset.mem_insert_self _ _⟩, ?_⟩, by simp⟩
    intro fl' hfl
    simp only [Phase.flush?, Option.mem_def, Option.some.injEq] at hfl
    subst hfl
    exact ⟨hcounted.total_eq, hcounted.total_add, hcounted.settled⟩
  | @recalled fl r queue hphase hqueue hold =>
    obtain ⟨hfront, hcounted⟩ := h.scanning hphase
    rw [hqueue] at hfront
    refine ⟨⟨s, h.owned, ⟨hfront, hold⟩, ?_⟩, by simp⟩
    intro fl' hfl
    simp only [Phase.flush?, Option.mem_def, Option.some.injEq] at hfl
    subst hfl
    exact ⟨hcounted.total_eq, hcounted.total_add, hcounted.settled⟩
  | @answered fl r a hcall hphase =>
    obtain ⟨hfront, hold, hcounted⟩ := h.calling hphase
    refine ⟨⟨s, h.owned, ⟨hfront, hold⟩, ?_⟩, by simp⟩
    intro fl' hfl
    simp only [Phase.flush?, Option.mem_def, Option.some.injEq] at hfl
    subst hfl
    exact hcounted
  | @settled fl r a x hphase hx hw hclean hfits =>
    obtain ⟨hfront, -, hcounted⟩ := h.answered hphase
    obtain ⟨rest, hpending, hrest, hqueue'⟩ := without_pending h.pending_sequences hfront
    obtain ⟨t, -, ht⟩ := h.wrote hfresh hw hclean hfits
    refine ⟨⟨t, ht, ?_, ?_⟩, by simp⟩
    · show fl.queue <+: (hd.journal.without r).pending
      rw [hrest]
      exact hqueue'
    · intro fl' hfl
      simp only [Phase.flush?, Option.mem_def, Option.some.injEq] at hfl
      subst hfl
      exact hcounted.settle h.pending_ids_nodup hpending hrest (by simp) (by simp) rfl rfl
  | @rejected fl r a hphase hw hclean hfits =>
    obtain ⟨hfront, -, hcounted⟩ := h.answered hphase
    obtain ⟨rest, hpending, hrest, -⟩ := without_pending h.pending_sequences hfront
    obtain ⟨t, -, ht⟩ := h.wrote hfresh hw hclean hfits
    refine ⟨⟨t, .idle ht⟩, ?_⟩
    -- the rejection is counted before the flush ends
    have hcounted' : Counted (hd.journal.without r)
        { fl with report := fl.report.count r.requestId .rejected } :=
      hcounted.settle (x := .rejected) h.pending_ids_nodup hpending hrest rfl rfl rfl rfl
    intro before report hmem
    simp only [List.mem_singleton, Output.flushed.injEq, Except.ok.injEq] at hmem
    obtain ⟨rfl, rfl⟩ := hmem
    exact ⟨hcounted'.total_eq, hcounted'.total_add⟩
  | @blocked fl r a hphase =>
    obtain ⟨-, -, hcounted⟩ := h.answered hphase
    refine ⟨⟨s, .idle h.owned⟩, ?_⟩
    intro before report hmem
    simp only [List.mem_singleton, Output.flushed.injEq, Except.ok.injEq] at hmem
    obtain ⟨rfl, rfl⟩ := hmem
    exact ⟨hcounted.total_eq, hcounted.total_add⟩
  | flushFailed hphase hw hfailed =>
    exact ⟨⟨s, .idle (h.failed hfresh hw hfailed)⟩, by simp⟩

end HandleInv

end AgentHub.Outbox
