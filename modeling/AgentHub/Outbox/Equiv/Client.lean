import AgentHub.Outbox.Client
import AgentHub.Outbox.Equiv.Journal

/-!
# Every run of a client

The results about one journal over process lifetimes: any calls, any storage and transport
outcomes, crashes between any two steps and reopenings.

- `load_faithful`: loading the file gives back the journal in memory.
- `flush_ordered_lossFree`: requests are handed out in order, none is lost, none settled twice, and
  the reports add up.
-/

namespace AgentHub.Outbox

/-- The requests a list of records leaves unsettled. -/
def retained (es : List Event) : List ReplayRequest :=
  (queuedRequests es).filter fun r => r.requestId ∉ settledIds es

/-- What is pending: in memory while the journal is open, else by the records of its file. -/
def Client.pending (c : Client) : List ReplayRequest :=
  match c.handle with
  | some handle => handle.journal.pending
  | none => retained c.file.events

/-! ### The invariant -/

/-- A file that is empty or holds a log of `d`. -/
structure FileInv (d : String) (f : JournalFile) : Prop where
  events : f.events = [] ∨ ∃ t, LoadsTo d f.events t ∧ t.journal.pending.length ≤ requestLimit
  len : f.len ≤ journalLimit

theorem Owned.fileInv {d : String} {f : JournalFile} {j : Journal} {s : Loading}
    (h : Owned d f j s) : FileInv d f :=
  ⟨.inr h.events, h.len⟩

/-- **The invariant of a client** after the inputs `is`, which gave the outputs `outs`. -/
structure ClientInv (d : String) (is : List ClientInput) (c : Client) (outs : List Output) :
    Prop where
  file : FileInv d c.file
  handle : ∀ hd, c.handle = some hd → ∃ s, HandleInv d c.file hd s
  used : ∀ r ∈ queuedRequests c.file.events, r.requestId ∈ drawnIds is
  enqueued : ∀ r, .enqueued (.ok r) ∈ outs → r ∈ queuedRequests c.file.durable
  reports : ∀ before report, .flushed before (.ok report) ∈ outs → report.Balanced before

theorem drawnIds_append (a b : List ClientInput) :
    drawnIds (a ++ b) = drawnIds a ++ drawnIds b := by
  simp [drawnIds]

theorem drawnIds_call (call : Call) : drawnIds [.call call] = call.newId?.toList := by
  cases call <;> rfl

/-- An empty file is bound by a header of its own. -/
theorem loadsTo_header {d : String} {f f' : JournalFile} {o : Uuid} (hnil : f.events = [])
    (hevents : f'.events = f.events ++ [.header o d]) (hfits : Fits f (.header o d)) :
    LoadsTo d f'.events (Loading.boundTo o d) ∧ f'.len ≤ journalLimit := by
  have hevents' : f'.events = [.header o d] := by simpa [hnil] using hevents
  refine ⟨⟨o, [], hevents', by have := hfits.1; omega, rfl⟩, ?_⟩
  have hfile := hfits.2
  simp only [JournalFile.len, hnil, List.map_nil, List.sum_nil] at hfile
  simpa [JournalFile.len, hevents'] using hfile

/-- **Opening a file.**  Its records stay, save that an empty file may get its header, and a
journal or inspection that comes of it agrees with the file. -/
theorem load_opened {d : String} {f : JournalFile} (hf : FileInv d f) {expected : Option String}
    (hexpected : ∀ x ∈ expected, f.events = [] → x = d) (o : Uuid) (io : AppendIo) :
    FileInv d (load f expected o io).2 ∧
      f.durable <+: (load f expected o io).2.durable ∧
      ((load f expected o io).2.events = f.events ∨
        f.events = [] ∧ (load f expected o io).2.events = [.header o d]) ∧
      ∀ j b, (load f expected o io).1 = .ok (j, b) →
        (∀ x ∈ expected, ∃ s, Owned x (load f expected o io).2 j s) ∧
        (expected = none → b = none ∨
          ∃ s, b = some d ∧ LoadsTo d (load f expected o io).2.events s ∧ j = s.journal) := by
  -- a file that was read back has the same records, and all are durable
  have hread : FileInv d f.readBack := ⟨by simpa using hf.events, by simpa using hf.len⟩
  have hgrows : f.durable <+: f.readBack.durable := List.prefix_append _ _
  have hbound : (Loading.boundTo o d).journal.pending.length ≤ requestLimit := by
    simp [Loading.boundTo, Loading.start]
  rcases load_cases f expected o io with
    ⟨err, f', h, hf'⟩ | ⟨d', s, h, htorn, hloads, hd, hcap, hlen⟩ | ⟨hnil, hnone, htorn, h⟩ |
    ⟨hnil, htorn, d', rfl, hcase⟩
  · rw [h]
    rcases hf' with rfl | rfl
    · exact ⟨hf, List.prefix_rfl, .inl rfl, by simp⟩
    · exact ⟨hread, hgrows, .inl (by simp), by simp⟩
  · rw [h]
    -- a file has one scope, that of its header
    have hd' : d' = d := by
      rcases hf.events with hnil | ⟨t, ht, -⟩
      · obtain ⟨o', rest, hcons⟩ := hloads.header
        simp [hcons] at hnil
      · exact (hloads.unique ht).1
    subst hd'
    refine ⟨hread, hgrows, .inl (by simp), ?_⟩
    intro j b hj
    simp only [Except.ok.injEq, Prod.mk.injEq] at hj
    obtain ⟨rfl, rfl⟩ := hj
    refine ⟨?_, fun _ => .inr ⟨s, rfl, by simpa using hloads, rfl⟩⟩
    intro x hx
    obtain rfl := hd x hx
    exact ⟨s,
      { loads := hloads
        journal_eq := rfl
        clean := fun _ => ⟨rfl, htorn⟩
        events := ⟨s, by simpa using hloads, hcap⟩
        capacity := hcap
        len := by simpa using hlen }⟩
  · rw [h]
    refine ⟨hread, hgrows, .inl (by simp), ?_⟩
    intro j b hj
    simp only [Except.ok.injEq, Prod.mk.injEq] at hj
    obtain ⟨rfl, rfl⟩ := hj
    exact ⟨by simp [hnone], fun _ => .inl rfl⟩
  · obtain rfl : d' = d := hexpected d' rfl hnil
    -- an empty file gets a header of its own, or the write of it fails
    have hnil' : f.readBack.events = [] := by simpa using hnil
    rcases hcase with ⟨h, hfits⟩ | ⟨err, j', f', h, hfailed⟩
    · rw [h]
      obtain ⟨hloads, hlen⟩ := loadsTo_header hnil' (JournalFile.events_synced _ _) hfits
      have hevents : (f.readBack.synced (.header o d')).events =
          (f.readBack.synced (.header o d')).durable := by
        simp [JournalFile.events, JournalFile.synced]
      refine ⟨⟨.inr ⟨_, hloads, hbound⟩, hlen⟩, hgrows.trans (f.readBack.durable_grows_synced _),
        .inr ⟨hnil, by simp [hnil]⟩, ?_⟩
      intro j b hj
      simp only [Except.ok.injEq, Prod.mk.injEq] at hj
      obtain ⟨rfl, -⟩ := hj
      refine ⟨?_, by simp⟩
      intro x hx
      obtain rfl : d' = x := by simpa using hx
      exact ⟨Loading.boundTo o d',
        { loads := by rw [← hevents]; exact hloads
          journal_eq := rfl
          clean := fun _ => ⟨rfl, htorn⟩
          events := ⟨_, hloads, hbound⟩
          capacity := hbound
          len := hlen }⟩
    · rw [h]
      refine ⟨?_, by rw [hfailed.durable]; exact hgrows, ?_, by simp⟩
      · cases hfailed with
        | unchanged => exact hread
        | lost => exact hread
        | torn => exact ⟨hread.events, hread.len⟩
        | unsynced _ hfits =>
          -- the header reached the file without being synced: the next load finds it
          have hevents : ({ f.readBack with
              unsynced := f.readBack.unsynced ++ [.header o d'] } : JournalFile).events =
              f.readBack.events ++ [.header o d'] := by
            simp [JournalFile.events]
          obtain ⟨hloads, hlen⟩ := loadsTo_header hnil' hevents hfits
          exact ⟨.inr ⟨_, hloads, hbound⟩, hlen⟩
      · rcases hfailed.events with hevents | ⟨-, hevents⟩
        · exact .inl (by simp [hevents])
        · exact .inr ⟨hnil, by simp [hevents, hnil]⟩

namespace ClientInv

variable {d : String} {is : List ClientInput} {c : Client} {outs : List Output}

theorem init (d : String) : ClientInv d [] {} [] where
  file := ⟨.inl rfl, by simp [JournalFile.len, JournalFile.events]⟩
  handle := by simp
  used := by simp [JournalFile.events]
  enqueued := by simp
  reports := by simp

/-- A larger file under fresh inputs, with nothing said. -/
theorem quiet (h : ClientInv d is c outs) (i : ClientInput) {c' : Client}
    (hfile : FileInv d c'.file)
    (hhandle : ∀ hd, c'.handle = some hd → ∃ s, HandleInv d c'.file hd s)
    (hqueued : queuedRequests c'.file.events = queuedRequests c.file.events)
    (hdurable : c.file.durable <+: c'.file.durable) :
    ClientInv d (is ++ [i]) c' (outs ++ []) where
  file := hfile
  handle := hhandle
  used := by
    intro r hr
    rw [hqueued] at hr
    rw [drawnIds_append]
    exact List.mem_append_left _ (h.used r hr)
  enqueued := by
    intro r hr
    rw [List.append_nil] at hr
    exact mem_queuedRequests.mpr (hdurable.subset (mem_queuedRequests.mp (h.enqueued r hr)))
  reports := by
    intro before report hr
    rw [List.append_nil] at hr
    exact h.reports before report hr

/-- A step of the process that has the journal open. -/
theorem call (h : ClientInv d is c outs) {call : Call} {hd : Handle} (hhd : c.handle = some hd)
    (hfresh : ∀ id ∈ call.newId?, id ∉ drawnIds is) :
    ClientInv d (is ++ [.call call])
      { file := (hd.step c.file call).2.1, handle := some (hd.step c.file call).1 }
      (outs ++ (hd.step c.file call).2.2) := by
  obtain ⟨s, hs⟩ := h.handle hd hhd
  have hstep := step_sound hd c.file call
  -- the identifier is new among all that were drawn, so the file does not have it
  have hnew : ∀ id ∈ call.newId?, id ∉ s.allIds := by
    intro id hid hmem
    obtain ⟨r, hr, rfl⟩ := mem_requestIds.mp ((hs.owned.loads.state.allIds id).mp hmem)
    refine hfresh _ hid (h.used r ?_)
    rw [mem_queuedRequests] at hr ⊢
    exact List.mem_append_left _ hr
  obtain ⟨⟨s', hs'⟩, hreports⟩ := hs.step hnew hstep
  exact
    { file := hs'.owned.fileInv
      handle := by
        intro hd' hhd'
        simp only [Option.some.injEq] at hhd'
        subst hhd'
        exact ⟨s', hs'⟩
      used := by
        intro r hr
        rw [drawnIds_append, drawnIds_call, List.mem_append]
        rcases hstep.events with hevents | ⟨e, j, hw, -, hevents⟩
        · rw [hevents] at hr
          exact .inl (h.used r hr)
        · rw [hevents, queuedRequests_append, List.mem_append] at hr
          rcases hr with hr | hr
          · exact .inl (h.used r hr)
          · have he : Event.queued r = e := by simpa using mem_queuedRequests.mp hr
            -- the record of a new request carries the identifier of the call
            subst he
            rw [hw.newId?]
            exact .inr (by simp)
      enqueued := by
        intro r hr
        rw [mem_queuedRequests]
        rcases List.mem_append.mp hr with hr | hr
        · exact hstep.durable_grows.subset (mem_queuedRequests.mp (h.enqueued r hr))
        · exact hstep.mem_of_enqueued hr
      reports := by
        intro before report hr
        rcases List.mem_append.mp hr with hr | hr
        · exact h.reports before report hr
        · exact hreports before report hr }

/-- **One input keeps the invariant.** -/
theorem step (h : ClientInv d is c outs) (i : ClientInput)
    (hids : (drawnIds (is ++ [i])).Nodup) :
    ClientInv d (is ++ [i]) (c.step d i).1 (outs ++ (c.step d i).2) := by
  cases i with
  | crash =>
    show ClientInv d _ { c with handle := none } (outs ++ [])
    -- the handle is lost and the file stays
    exact h.quiet _ h.file (by simp) rfl List.prefix_rfl
  | reopen o io =>
    unfold Client.step
    cases hhandle : c.handle with
    | some hd => exact h.quiet _ h.file h.handle rfl List.prefix_rfl
    | none =>
      have hd' : ∀ x ∈ some d, c.file.events = [] → x = d := by simp
      obtain ⟨hfile, hdurable, hevents, howned⟩ := load_opened h.file hd' o io
      have hqueued : queuedRequests (load c.file (some d) o io).2.events =
          queuedRequests c.file.events := by
        -- a header holds no request
        rcases hevents with hevents | ⟨hnil, hevents⟩
        · rw [hevents]
        · rw [hevents, hnil, queuedRequests_cons_header]
      clear hevents
      simp only
      revert hfile hdurable hqueued howned
      rcases load c.file (some d) o io with ⟨⟨err⟩ | ⟨j, b⟩, file⟩
      · intro hfile hdurable howned hqueued
        exact h.quiet _ hfile (by simp) hqueued hdurable
      · intro hfile hdurable howned hqueued
        obtain ⟨s, hs⟩ := (howned j b rfl).1 d rfl
        refine h.quiet _ hfile ?_ hqueued hdurable
        intro hd hhd
        simp only [Option.some.injEq] at hhd
        subst hhd
        exact ⟨s, .idle hs⟩
  | call call =>
    unfold Client.step
    cases hhandle : c.handle with
    | none => exact h.quiet _ h.file h.handle rfl List.prefix_rfl
    | some hd =>
      refine h.call hhandle ?_
      intro id hid hmem
      rw [drawnIds_append, drawnIds_call, List.nodup_append] at hids
      exact hids.2.2 id hmem id (by simpa using hid) rfl

end ClientInv

/-- The invariant holds after every run with distinct identifiers. -/
theorem clientInv_exec (d : String) (is : List ClientInput) (hids : (drawnIds is).Nodup) :
    ClientInv d is ((Client.machine d).exec {} is).1 ((Client.machine d).exec {} is).2 := by
  have hrule := (Client.machine d).exec_induction (s := ({} : Client))
    (P := fun is c outs => (drawnIds is).Nodup → ClientInv d is c outs)
    (fun _ => ClientInv.init d)
    (fun is c outs i ih hids => by
      have hpre : (drawnIds is).Nodup := by
        rw [drawnIds_append] at hids
        exact (List.nodup_append.mp hids).1
      exact (ih hpre).step i hids) is
  exact hrule hids

/-! ### Results -/

/-- **Loading is faithful.**  In every run, at any point where a process has the journal open and
no append has failed under it, loading the file gives the journal that process holds in memory:
the same origin, next sequence, pending requests and attempted set. -/
theorem load_faithful (d : String) (is : List ClientInput) (hids : (drawnIds is).Nodup)
    (hd : Handle) (hopen : ((Client.machine d).exec {} is).1.handle = some hd)
    (hclean : hd.journal.poisoned = false) (originId : Uuid) (io : AppendIo) :
    (load ((Client.machine d).exec {} is).1.file (some d) originId io).1 =
      .ok (hd.journal, some d) := by
  obtain ⟨s, hs⟩ := (clientInv_exec d is hids).handle hd hopen
  have hevents := hs.owned.events_of_clean hclean
  rw [load_of_loadsTo (by rw [hevents]; exact hs.owned.loads) (hs.owned.clean hclean).2
    hs.owned.len hs.owned.capacity (by simp), hs.owned.eq_of_clean hclean]

/-- A process that opens a new journal, retains one message and starts to replay it. -/
def firstReplay : List ClientInput :=
  [.reopen (Uuid.ofNat 1) .ok,
   .call (.enqueue .send .cli
    [("body", .str "x"), ("recipient", .str "b"), ("sender", .str "a"), ("topic", .str "t")]
    5 (Uuid.ofNat 2) .ok),
   .call (.flush 6 16),
   .call (.advance .ok)]

/-- A request is with the transport. -/
def Phase.isCalling : Phase → Bool
  | .calling _ _ => true
  | _ => false

/-- The message is with the transport, and the file has its three records. -/
theorem firstReplay_run :
    ((Client.machine "hub").exec {} firstReplay).1.handle.any (fun hd =>
        !hd.journal.poisoned && hd.phase.isCalling) = true ∧
      ((Client.machine "hub").exec {} firstReplay).1.file.torn = false ∧
      ((Client.machine "hub").exec {} firstReplay).1.file.events.length = 3 ∧
      (queuedRequests ((Client.machine "hub").exec {} firstReplay).1.file.events).all (fun r =>
        (Json.Value.obj r.arguments).depth ≤ 1) = true := by
  decide +kernel

theorem firstReplay_handle : ∃ hd, ((Client.machine "hub").exec {} firstReplay).1.handle = some hd ∧
    hd.journal.poisoned = false ∧ hd.phase.isCalling = true := by
  obtain ⟨hd, hhd, hcalling⟩ := (Option.any_eq_true _ _).mp firstReplay_run.1
  obtain ⟨hclean, hphase⟩ := Bool.and_eq_true_iff.1 hcalling
  exact ⟨hd, hhd, by simpa using hclean, hphase⟩

theorem load_faithful_firstReplay :
    ∃ hd, ((Client.machine "hub").exec {} firstReplay).1.handle = some hd ∧
      (load ((Client.machine "hub").exec {} firstReplay).1.file (some "hub") (Uuid.ofNat 9)
        .ok).1 = .ok (hd.journal, some "hub") := by
  obtain ⟨hd, hhd, hclean, -⟩ := firstReplay_handle
  exact ⟨hd, hhd, load_faithful "hub" firstReplay (by decide) hd hhd hclean (Uuid.ofNat 9) .ok⟩

/-- In an open journal everything before the request being replayed is settled. -/
theorem HandleInv.calling_ordered {d : String} {f : JournalFile} {hd : Handle} {s : Loading}
    (h : HandleInv d f hd s) {fl : Flush} {r : ReplayRequest} (hphase : hd.phase = .calling fl r) :
    (∀ q ∈ queuedRequests f.durable, q.sequence < r.sequence →
        q.requestId ∈ settledIds f.durable) ∧
      r ∈ queuedRequests f.durable ∧ r.requestId ∉ settledIds f.durable := by
  have hstate := h.owned.loads.state
  obtain ⟨⟨more, hmore⟩, -, -⟩ := h.calling hphase
  have hr : r ∈ s.journal.pending := by
    rw [← h.owned.pending_eq, ← hmore]
    simp
  refine ⟨?_, (hstate.mem_pending.mp hr).1, (hstate.mem_pending.mp hr).2⟩
  intro q hq hlt
  by_contra hunsettled
  have hmem : q ∈ s.journal.pending := hstate.mem_pending.mpr ⟨hq, hunsettled⟩
  -- `r` is the first of the pending requests, which ascend.
  have hsorted := hstate.pending_sequences
  rw [← h.owned.pending_eq, ← hmore, List.cons_append] at hmem hsorted
  rcases List.mem_cons.mp hmem with rfl | hmem
  · rw [UInt64.lt_iff_toNat_lt] at hlt
    omega
  · have hgt := (List.pairwise_cons.mp hsorted).1 q hmem
    rw [UInt64.lt_iff_toNat_lt] at hlt hgt
    omega

/-- A request on the file is pending or settled, and settled at most once. -/
theorem LogState.retained_or_settled {es : List Event} {s : Loading} (h : LogState es s)
    {r : ReplayRequest} (hr : r ∈ queuedRequests es) :
    (settledIds es).count r.requestId ≤ 1 ∧
      (r ∈ retained es ∨ (settledIds es).count r.requestId = 1) := by
  have hle := List.nodup_iff_count_le_one.mp h.settled_nodup r.requestId
  refine ⟨hle, ?_⟩
  by_cases hmem : r.requestId ∈ settledIds es
  · have hpos := List.count_pos_iff.mpr hmem
    exact .inr (by omega)
  · exact .inl (by simp [retained, hr, hmem])

/-- **Ordered, loss-free draining.**  In every run:

1. while the transport is called for a request, every request with a smaller sequence has a
   durable settlement, and the request itself has none;
2. every request ever returned by `enqueue` is pending or has exactly one settlement on the file,
   and none that is pending has a durable one;
3. every report a flush returned accounts for exactly the requests that left the queue. -/
theorem flush_ordered_lossFree (d : String) (is : List ClientInput)
    (hids : (drawnIds is).Nodup) :
    (∀ hd fl r, ((Client.machine d).exec {} is).1.handle = some hd → hd.phase = .calling fl r →
      (∀ q ∈ queuedRequests ((Client.machine d).exec {} is).1.file.durable,
        q.sequence < r.sequence →
          q.requestId ∈ settledIds ((Client.machine d).exec {} is).1.file.durable) ∧
      r.requestId ∉ settledIds ((Client.machine d).exec {} is).1.file.durable) ∧
    (∀ r, .enqueued (.ok r) ∈ ((Client.machine d).exec {} is).2 →
      (settledIds ((Client.machine d).exec {} is).1.file.events).count r.requestId ≤ 1 ∧
      (r ∈ ((Client.machine d).exec {} is).1.pending ∨
        (settledIds ((Client.machine d).exec {} is).1.file.events).count r.requestId = 1) ∧
      (r ∈ ((Client.machine d).exec {} is).1.pending →
        r.requestId ∉ settledIds ((Client.machine d).exec {} is).1.file.durable)) ∧
    ∀ before report, .flushed before (.ok report) ∈ ((Client.machine d).exec {} is).2 →
      report.applied + report.expired + report.superseded + report.rejected =
        report.dispositions.length ∧
      report.dispositions.length = before - report.remaining ∧ report.remaining ≤ before := by
  have hinv := clientInv_exec d is hids
  generalize (Client.machine d).exec {} is = run at hinv ⊢
  obtain ⟨c, outs⟩ := run
  simp only at hinv ⊢
  refine ⟨?_, ?_, ?_⟩
  · intro hd fl r hopen hphase
    obtain ⟨s, hs⟩ := hinv.handle hd hopen
    obtain ⟨hbefore, -, hown⟩ := hs.calling_ordered hphase
    exact ⟨hbefore, hown⟩
  · intro r hr
    -- what was retained is durable when the call returns
    have hdurable := hinv.enqueued r hr
    have hqueued : r ∈ queuedRequests c.file.events := by
      rw [mem_queuedRequests] at hdurable ⊢
      exact List.mem_append_left _ hdurable
    have hsettled : ∀ id, id ∈ settledIds c.file.durable → id ∈ settledIds c.file.events := by
      intro id hid
      simp only [JournalFile.events, settledIds_append]
      exact List.mem_append_left _ hid
    rcases hinv.file.events with hnil | ⟨t, ht, -⟩
    · simp [hnil] at hqueued
    · -- the file that has the request is one that can be loaded
      obtain ⟨hle, hor⟩ := ht.state.retained_or_settled hqueued
      refine ⟨hle, ?_, ?_⟩
      all_goals
        unfold Client.pending
        cases hhandle : c.handle
      · -- without a handle the pending requests are read from the file
        exact hor
      · rename_i hd
        obtain ⟨s, hs⟩ := hinv.handle hd hhandle
        by_cases hmem : r.requestId ∈ settledIds c.file.durable
        · have hpos := List.count_pos_iff.mpr (hsettled _ hmem)
          exact .inr (by omega)
        · refine .inl ?_
          simp only
          rw [hs.owned.pending_eq]
          exact hs.owned.loads.state.mem_pending.mpr ⟨hdurable, hmem⟩
      · intro hmem hbad
        simp only [retained, List.mem_filter, decide_eq_true_eq] at hmem
        exact hmem.2 (hsettled _ hbad)
      · -- the handle has the same requests pending as the file
        rename_i hd
        obtain ⟨s, hs⟩ := hinv.handle hd hhandle
        intro hmem
        simp only at hmem
        rw [hs.owned.pending_eq] at hmem
        exact (hs.owned.loads.state.mem_pending.mp hmem).2
  · intro before report hr
    obtain ⟨htotal, hsum⟩ := hinv.reports before report hr
    unfold FlushReport.total at htotal hsum
    omega

theorem flush_ordered_lossFree_firstReplay :
    ∃ hd fl r, ((Client.machine "hub").exec {} firstReplay).1.handle = some hd ∧
      hd.phase = .calling fl r ∧
      r.requestId ∉ settledIds ((Client.machine "hub").exec {} firstReplay).1.file.durable := by
  obtain ⟨hd, hhd, -, hphase⟩ := firstReplay_handle
  cases hcase : hd.phase with
  | calling fl r =>
    exact ⟨hd, fl, r, hhd, hcase,
      ((flush_ordered_lossFree "hub" firstReplay (by decide)).1 hd fl r hhd hcase).2⟩
  | _ => simp [hcase, Phase.isCalling] at hphase

end AgentHub.Outbox
