import AgentHub.Outbox.Submit
import AgentHub.Outbox.Equiv.Answers

/-!
# What a submission says is so

A flush settles what it counts, and what it does not count stays pending.  `FlushInv` says so of a
running flush, for one request among those it started with; `Reported` of the report it returns.
`submitJournal_truthful` reads the outcome of a submission against them: whatever the transport and
the storage do, the caller is told what became of the request on the file.
-/

namespace AgentHub.Outbox

open AgentHub.Json AgentHub.Validation

/-! ### The maps of a report -/

theorem mem_of_getEntry {α : Type} {id : Uuid} {a : α} {m : List (Uuid × α)}
    (h : getEntry id m = some a) : (id, a) ∈ m := by
  obtain ⟨kv, hfind, rfl⟩ := Option.map_eq_some_iff.mp h
  have hkey : kv.1 = id := by simpa using List.find?_some hfind
  rw [← hkey]
  exact List.mem_of_find?_eq_some hfind

theorem exists_getEntry {α : Type} {id : Uuid} {m : List (Uuid × α)} (h : id ∈ m.map Prod.fst) :
    ∃ a, getEntry id m = some a := by
  obtain ⟨kv, hkv, rfl⟩ := List.mem_map.mp h
  cases hfind : m.find? fun kv' => kv'.1 = kv.1 with
  | none =>
    have hnone := List.find?_eq_none.mp hfind kv hkv
    simp at hnone
  | some kv' => exact ⟨kv'.2, by simp [getEntry, hfind]⟩

theorem keys_insertEntry {α : Type} {id k : Uuid} {a : α} {m : List (Uuid × α)}
    (h : k ∈ m.map Prod.fst ∨ k = id) : k ∈ (insertEntry id a m).map Prod.fst := by
  by_cases hk : k = id
  · exact List.mem_map.mpr ⟨(id, a), by simp [insertEntry], hk.symm⟩
  · obtain ⟨kv, hkv, rfl⟩ := List.mem_map.mp (h.resolve_right hk)
    refine List.mem_map.mpr ⟨kv, ?_, rfl⟩
    exact List.mem_append_left _ (List.mem_filter.mpr ⟨hkv, by simpa using hk⟩)

theorem mem_insertEntry_self {α : Type} (id : Uuid) (a : α) (m : List (Uuid × α)) :
    (id, a) ∈ insertEntry id a m := by
  simp [insertEntry]

theorem mem_insertPending_self (r : ReplayRequest) (ps : List ReplayRequest) :
    r ∈ insertPending r ps := by
  induction ps with
  | nil => simp [insertPending]
  | cons p ps ih =>
    simp only [insertPending]
    split_ifs
    · simp
    · simp
    · simp [ih]

/-! ### What a report records -/

/-- The settlements and results of a report are on the file. -/
structure Noted (f : JournalFile) (outs : List Output) (report : FlushReport) : Prop where
  settled : ∀ id x, (id, x) ∈ report.dispositions → .settled id x ∈ f.durable
  results : ∀ id v, (id, v) ∈ report.results → .settled id .applied ∈ f.durable ∧
    ∃ q, .queued q ∈ f.durable ∧ q.requestId = id ∧ .answered q (.ok (.applied v)) ∈ outs
  applied : ∀ id, (id, .applied) ∈ report.dispositions → id ∈ report.results.map Prod.fst

namespace Noted

variable {f f' : JournalFile} {outs more : List Output} {report : FlushReport}

theorem start (f : JournalFile) (outs : List Output) : Noted f outs {} where
  settled := by simp
  results := by simp
  applied := by simp

theorem mono (h : Noted f outs report) (hfile : f.durable <+: f'.durable) :
    Noted f' (outs ++ more) report where
  settled id x hmem := hfile.subset (h.settled id x hmem)
  results id v hmem := by
    obtain ⟨hsettled, q, hq, hid, hanswer⟩ := h.results id v hmem
    exact ⟨hfile.subset hsettled, q, hfile.subset hq, hid, List.mem_append_left _ hanswer⟩
  applied := h.applied

/-- What a flush writes into its report when it returns. -/
theorem tagged (h : Noted f outs report) (remaining : Nat) (blockedRequest : Option Uuid) :
    Noted f outs { report with remaining, blockedRequest } :=
  ⟨h.settled, h.results, h.applied⟩

/-- A settlement that needs no result. -/
theorem count (h : Noted f outs report) {id : Uuid} {x : Disposition}
    (hx : x = .applied → id ∈ report.results.map Prod.fst) (hsettled : .settled id x ∈ f.durable) :
    Noted f outs (report.count id x) where
  settled k y hmem := by
    rw [FlushReport.dispositions_count] at hmem
    rcases mem_insertEntry hmem with hmem | ⟨rfl, rfl⟩
    · exact h.settled k y hmem
    · exact hsettled
  results := by
    rw [results_count]
    exact h.results
  applied k hmem := by
    rw [results_count]
    rw [FlushReport.dispositions_count] at hmem
    rcases mem_insertEntry hmem with hmem | ⟨rfl, hy⟩
    · exact h.applied k hmem
    · exact hx hy.symm

/-- The result of an applied request. -/
theorem note (h : Noted f outs report) {q : ReplayRequest} {a : Answer}
    (hqueued : .queued q ∈ f.durable) (hanswer : .answered q a ∈ outs)
    (hsettled : Answer.disposition a = some .applied →
      .settled q.requestId .applied ∈ f.durable) :
    Noted f outs (report.note q.requestId a) := by
  unfold FlushReport.note
  split
  · rename_i result
    refine ⟨h.settled, ?_, ?_⟩
    · intro id v hmem
      rcases mem_insertEntry hmem with hmem | ⟨rfl, rfl⟩
      · exact h.results id v hmem
      · exact ⟨hsettled rfl, q, hqueued, rfl, hanswer⟩
    · intro id hmem
      exact keys_insertEntry (.inl (h.applied id hmem))
  · exact h

end Noted

/-- A request that was settled as applied has its result in the report. -/
theorem mem_note_of_applied {report : FlushReport} {id : Uuid} {a : Answer}
    (h : Answer.disposition a = some .applied) :
    id ∈ (report.note id a).results.map Prod.fst := by
  match a, h with
  | .ok (.applied v), _ => exact keys_insertEntry (.inr rfl)

/-! ### A running flush -/

/-- The report of a running flush: nothing is rejected or blocked yet, and `id` is pending or
counted. -/
structure Tells (id : Uuid) (f : JournalFile) (hd : Handle) (outs : List Output)
    (report : FlushReport) : Prop where
  noted : Noted f outs report
  quiet : report.rejected = 0 ∧ report.blockedRequest = none
  unrejected : ∀ k, (k, .rejected) ∉ report.dispositions
  kept : id ∈ requestIds hd.journal.pending ∨ id ∈ report.dispositions.map Prod.fst

/-- A running flush that started with `id` among the pending requests. -/
structure FlushInv (id : Uuid) (f : JournalFile) (hd : Handle) (outs : List Output) : Prop where
  running : hd.phase ≠ .idle
  tells : ∀ fl ∈ hd.phase.flush?, Tells id f hd outs fl.report
  answered : ∀ fl r a, hd.phase = .answered fl r a → .answered r a ∈ outs

/-- The report a flush returned. -/
structure Reported (id : Uuid) (f : JournalFile) (hd : Handle) (outs : List Output)
    (report : FlushReport) : Prop where
  noted : Noted f outs report
  rejected : report.rejected > 0 → ∀ k, report.blockedRequest = some k →
    (k, .rejected) ∈ report.dispositions
  named : ∀ k, (k, .rejected) ∈ report.dispositions →
    report.rejected > 0 ∧ report.blockedRequest = some k
  kept : id ∈ requestIds hd.journal.pending ∨ id ∈ report.dispositions.map Prod.fst

/-- What a flush leaves when it returns. -/
def Returned (id : Uuid) (f : JournalFile) (hd : Handle) (outs : List Output) :
    Except OutboxError FlushReport → Prop
  | .ok report => Reported id f hd outs report
  | .error _ => True

namespace Tells

variable {id : Uuid} {f f' : JournalFile} {hd hd' : Handle} {outs more : List Output}
  {report : FlushReport}

theorem mono (h : Tells id f hd outs report) (hfile : f.durable <+: f'.durable)
    (hpending : hd'.journal.pending = hd.journal.pending) :
    Tells id f' hd' (outs ++ more) report :=
  { noted := h.noted.mono hfile, quiet := h.quiet, unrejected := h.unrejected,
    kept := by
      rw [hpending]
      exact h.kept }

/-- `id` is pending or counted when the request at the front is settled. -/
theorem kept_settle (h : Tells id f hd outs report) {r : ReplayRequest} {rest : List ReplayRequest}
    (hpending : hd.journal.pending = r :: rest) (hrest : (hd.journal.without r).pending = rest)
    (x : Disposition) {m : List (Uuid × Disposition)} (hm : m = report.dispositions) :
    id ∈ requestIds (hd.journal.without r).pending ∨
      id ∈ (insertEntry r.requestId x m).map Prod.fst := by
  rw [hrest, hm]
  rcases h.kept with hmem | hmem
  · rw [hpending] at hmem
    rcases List.mem_cons.mp hmem with heq | hmem
    · exact .inr (keys_insertEntry (.inr heq))
    · exact .inl hmem
  · exact .inr (keys_insertEntry (.inl hmem))

/-- One more settlement, with what was noted of it before. -/
theorem settle (h : Tells id f hd outs report) {r : ReplayRequest} {rest : List ReplayRequest}
    (hpending : hd.journal.pending = r :: rest) (hrest : (hd.journal.without r).pending = rest)
    {report' : FlushReport} (hnoted : Noted f' (outs ++ more) report')
    (hquiet : report'.rejected = report.rejected ∧ report'.blockedRequest = report.blockedRequest)
    (hsame : report'.dispositions = report.dispositions) {x : Disposition} (hx : x ≠ .rejected)
    (happlied : x = .applied → r.requestId ∈ report'.results.map Prod.fst)
    (hsettled : .settled r.requestId x ∈ f'.durable) (phase : Phase) :
    Tells id f' { journal := hd.journal.without r, phase } (outs ++ more)
      (report'.count r.requestId x) where
  noted := hnoted.count happlied hsettled
  quiet := by
    have hq := h.quiet
    rw [← hquiet.1, ← hquiet.2] at hq
    cases x with
    | rejected => exact absurd rfl hx
    | _ => exact hq
  unrejected := by
    intro k hmem
    rw [FlushReport.dispositions_count, hsame] at hmem
    rcases mem_insertEntry hmem with hmem | ⟨-, heq⟩
    · exact h.unrejected k hmem
    · exact hx heq.symm
  kept := by
    rw [FlushReport.dispositions_count]
    exact h.kept_settle hpending hrest x hsame

end Tells

/-- Where a settlement comes from. -/
theorem Writes.settled_cases {hd : Handle} {call : Call} {id : Uuid} {x : Disposition}
    {j : Journal} (h : Writes hd call (.settled id x) j) :
    (∃ fl, hd.phase = .scanning fl ∧ x ≠ .rejected ∧ x ≠ .applied) ∨
      ∃ fl r a, hd.phase = .answered fl r a ∧ Answer.disposition a = some x := by
  cases h with
  | expired hphase => exact .inl ⟨_, hphase, by simp, by simp⟩
  | overtaken hphase => exact .inl ⟨_, hphase, by simp, by simp⟩
  | answered hphase hanswer => exact .inr ⟨_, _, _, hphase, hanswer⟩

namespace FlushInv

variable {id : Uuid} {d : String} {f f' : JournalFile} {hd hd' : Handle} {s : Loading}
  {outs more : List Output} {call : Call}

theorem of_scanning {fl : Flush} (hphase : hd.phase = .scanning fl)
    (htells : Tells id f hd outs fl.report) : FlushInv id f hd outs where
  running := by simp [hphase]
  tells := by simpa [hphase, Phase.flush?] using htells
  answered := by simp [hphase]

theorem of_calling {fl : Flush} {r : ReplayRequest} (hphase : hd.phase = .calling fl r)
    (htells : Tells id f hd outs fl.report) : FlushInv id f hd outs where
  running := by simp [hphase]
  tells := by simpa [hphase, Phase.flush?] using htells
  answered := by simp [hphase]

/-- **One step of a running flush**: it returns, or runs on. -/
theorem step (hs : HandleInv d f hd s) (h : FlushInv id f hd outs)
    (hstep : Step hd f call hd' f' more) :
    (∀ res, more.findSome? Output.flushed? = some res →
      hd'.phase = .idle ∧ Returned id f' hd' (outs ++ more) res) ∧
    (more.findSome? Output.flushed? = none → FlushInv id f' hd' (outs ++ more)) := by
  have hgrows := hstep.durable_grows
  -- a flush is under way, so only its own steps occur
  cases hstep with
  | stutter => exact ⟨by simp, fun _ => by simpa using h⟩
  | refused hphase => exact absurd hphase h.running
  | enqueued hphase => exact absurd hphase h.running
  | enqueueFailed hphase => exact absurd hphase h.running
  | began hphase => exact absurd hphase h.running
  | @finished fl hphase hqueue =>
    have ht := h.tells fl (by simp [hphase, Phase.flush?])
    refine ⟨?_, by simp [Output.flushed?]⟩
    rintro res ⟨⟩
    refine ⟨rfl, (ht.noted.mono hgrows).tagged _ _, ?_, ?_, ht.kept⟩
    · simp [ht.quiet.1]
    · exact fun k hmem => absurd hmem (ht.unrejected k)
  | @dropped fl r queue x hphase hqueue hw hclean hfits =>
    have ht := h.tells fl (by simp [hphase, Phase.flush?])
    obtain ⟨hfront, -⟩ := hs.scanning hphase
    rw [hqueue] at hfront
    obtain ⟨rest, hpending, hrest, -⟩ := without_pending hs.pending_sequences hfront
    -- what is settled without a call was neither rejected nor applied
    have hx : x ≠ .rejected ∧ x ≠ .applied := by
      rcases hw.settled_cases with ⟨-, -, hx⟩ | ⟨fl', r', a, hphase', -⟩
      · exact hx
      · simp [hphase] at hphase'
    refine ⟨by simp, fun _ => of_scanning rfl ?_⟩
    exact (ht.settle hpending hrest (ht.noted.mono hgrows) ⟨rfl, rfl⟩ rfl hx.1
      (fun happlied => absurd happlied hx.2) (by simp [JournalFile.synced]) _)
  | @attempted fl r queue hphase hqueue hw hclean hfits =>
    have ht := h.tells fl (by simp [hphase, Phase.flush?])
    refine ⟨by simp [Output.flushed?], fun _ => of_calling rfl ?_⟩
    exact ht.mono hgrows rfl
  | @recalled fl r queue hphase hqueue hold =>
    have ht := h.tells fl (by simp [hphase, Phase.flush?])
    refine ⟨by simp [Output.flushed?], fun _ => of_calling rfl ?_⟩
    exact ht.mono hgrows rfl
  | @answered fl r a hcall hphase =>
    have ht := h.tells fl (by simp [hphase, Phase.flush?])
    refine ⟨by simp [Output.flushed?], fun _ => ⟨by simp, ?_, ?_⟩⟩
    · rintro fl' ⟨⟩
      exact ht.mono hgrows rfl
    · intro fl' r' a' heq
      simp only [Phase.answered.injEq] at heq
      obtain ⟨-, rfl, rfl⟩ := heq
      simp
  | @settled fl r a x hphase hx hw hclean hfits =>
    have ht := h.tells fl (by simp [hphase, Phase.flush?])
    obtain ⟨hfront, -⟩ := hs.answered hphase
    obtain ⟨rest, hpending, hrest, -⟩ := without_pending hs.pending_sequences hfront
    -- the disposition is that of the answer
    have hanswer : Answer.disposition a = some x := by
      rcases hw.settled_cases with ⟨fl', hphase', -⟩ | ⟨fl', r', a', hphase', hanswer⟩
      · simp [hphase] at hphase'
      · rw [hphase] at hphase'
        cases hphase'
        exact hanswer
    have hqueued : .queued r ∈ f.durable := by
      have hmem : r ∈ s.journal.pending := by
        rw [← hs.owned.pending_eq, hpending]
        exact List.mem_cons_self
      exact mem_queuedRequests.mp (hs.owned.loads.state.mem_pending.mp hmem).1
    have hsettled : .settled r.requestId x ∈ (f.synced (.settled r.requestId x)).durable := by
      simp [JournalFile.synced]
    refine ⟨by simp, fun _ => of_scanning rfl ?_⟩
    refine ht.settle hpending hrest ?_ ?_ (FlushReport.dispositions_note _ _ _) hx ?_ hsettled _
    · have hanswered := List.mem_append_left [] (h.answered fl r a hphase)
      refine (ht.noted.mono hgrows).note (hgrows.subset hqueued) hanswered ?_
      intro happlied
      obtain rfl : x = .applied := by simpa [hanswer] using happlied
      exact hsettled
    · unfold FlushReport.note
      split <;> exact ⟨rfl, rfl⟩
    · rintro rfl
      exact mem_note_of_applied hanswer
  | @rejected fl r a hphase hw hclean hfits =>
    have ht := h.tells fl (by simp [hphase, Phase.flush?])
    obtain ⟨hfront, -⟩ := hs.answered hphase
    obtain ⟨rest, hpending, hrest, -⟩ := without_pending hs.pending_sequences hfront
    refine ⟨?_, by simp [Output.flushed?]⟩
    rintro res ⟨⟩
    -- the report tells of an applied request only when it is settled as applied
    have hsettled : .settled r.requestId .rejected ∈
        (f.synced (.settled r.requestId .rejected)).durable := by
      simp [JournalFile.synced]
    refine ⟨rfl, ((ht.noted.mono hgrows).count (by simp) hsettled).tagged _ _, ?_, ?_, ?_⟩
    · -- the rejection is reported as the error of the flush
      rintro - k ⟨⟩
      exact mem_insertEntry_self _ _ _
    · intro k hmem
      rcases mem_insertEntry hmem with hmem | ⟨rfl, -⟩
      · exact absurd hmem (ht.unrejected k)
      · exact ⟨Nat.succ_pos _, rfl⟩
    · exact ht.kept_settle hpending hrest .rejected rfl
  | @blocked fl r a hphase =>
    have ht := h.tells fl (by simp [hphase, Phase.flush?])
    refine ⟨?_, by simp [Output.flushed?]⟩
    rintro res ⟨⟩
    refine ⟨rfl, (ht.noted.mono hgrows).tagged _ _, ?_, ?_, ht.kept⟩
    · simp [ht.quiet.1]
    · exact fun k hmem => absurd hmem (ht.unrejected k)
  -- the flush ends as the hub is not done, and everything is as it was
  | flushFailed hphase hw hfailed =>
    refine ⟨?_, by simp [Output.flushed?]⟩
    rintro res ⟨⟩
    exact ⟨rfl, trivial⟩

end FlushInv

/-! ### The loop returns -/

/-- Settling returns, or goes back to the head of the loop. -/
theorem settleNext_budget (hd : Handle) (f : JournalFile) (fl : Flush) (r : ReplayRequest)
    (x : Disposition) (io : AppendIo) {b : Nat} (hb : 3 * fl.queue.length + 1 < b) :
    (hd.settleNext fl f r x io).2.2.findSome? Output.flushed? ≠ none ∨
      (hd.settleNext fl f r x io).1.phase ≠ .idle ∧
      (hd.settleNext fl f r x io).1.phase.budget < b := by
  unfold Handle.settleNext Handle.settleThen
  rcases settle_cases hd.journal f r x io with ⟨h, -, -⟩ | ⟨err, j', f', h, -⟩
  · rw [h]
    exact .inr ⟨by simp, hb⟩
  · rw [h]
    exact .inl (by simp [Output.flushed?])

/-- A step of a running flush returns, or leaves fewer to make. -/
theorem budget_step (env : Surroundings) (n : Nat) (hd : Handle) (f : JournalFile) {call : Call}
    (hnext : hd.phase.next env n = some call) :
    (hd.step f call).2.2.findSome? Output.flushed? ≠ none ∨
      (hd.step f call).1.phase ≠ .idle ∧ (hd.step f call).1.phase.budget < hd.phase.budget := by
  cases hphase : hd.phase with
  | idle => simp [hphase, Phase.next] at hnext
  | scanning fl =>
    obtain rfl : Call.advance (env.io n) = call := by simpa [hphase, Phase.next] using hnext
    simp only [Handle.step, hphase, Handle.advance]
    cases hqueue : fl.queue with
    | nil => exact .inl (by simp [Handle.finish, Output.flushed?])
    -- each request takes three calls at most: the mark, the answer and the settlement
    | cons r queue =>
      have hbudget : (Phase.scanning fl).budget = 3 * queue.length + 4 := by
        simp only [Phase.budget, hqueue, List.length_cons]
        omega
      rw [hbudget]
      simp only
      split_ifs
      · exact settleNext_budget hd f { fl with queue } r .expired _ (Nat.lt_add_of_pos_right three_pos)
      · exact settleNext_budget hd f { fl with queue } r .superseded _
          (Nat.lt_add_of_pos_right three_pos)
      · exact .inr ⟨by simp [Handle.callTransport], Nat.lt_succ_self _⟩
      · rcases markAttempted_cases hd.journal f r (env.io n) with ⟨h, -, -⟩ | ⟨err, j', f', h, -⟩
        · rw [h]
          exact .inr ⟨by simp [Handle.callTransport], Nat.lt_succ_self _⟩
        · rw [h]
          exact .inl (by simp [Output.flushed?])
  | calling fl r =>
    obtain rfl : Call.answer (env.answer n) = call := by simpa [hphase, Phase.next] using hnext
    simp only [Handle.step, hphase]
    exact .inr ⟨by simp, Nat.lt_succ_self _⟩
  | answered fl r a =>
    obtain rfl : Call.conclude (env.io n) = call := by simpa [hphase, Phase.next] using hnext
    simp only [Handle.step, hphase]
    cases a with
    | ok outcome =>
      cases outcome with
      | applied v =>
        exact settleNext_budget hd f { fl with report := { fl.report with
          results := insertEntry r.requestId v fl.report.results } } r .applied _
          (Nat.lt_succ_self _)
      | superseded => exact settleNext_budget hd f fl r .superseded _ (Nat.lt_succ_self _)
      | pending => exact .inl (by simp [Handle.conclude, Handle.finish, Output.flushed?])
    -- an answer of the hub that settles nothing ends the flush
    | error failure =>
      cases failure with
      | transport => exact .inl (by simp [Handle.conclude, Handle.finish, Output.flushed?])
      | permanent =>
        refine .inl ?_
        simp only [Handle.conclude, Handle.settleThen]
        rcases settle_cases hd.journal f r .rejected (env.io n) with
          ⟨h, -, -⟩ | ⟨err, j', f', h, -⟩
        · rw [h]
          simp [Handle.finish, Output.flushed?]
        · rw [h]
          simp [Output.flushed?]

/-- **A flush returns**, and its report is true. -/
theorem runFlush_returns {id : Uuid} {d : String} (env : Surroundings) {fuel n : Nat} {hd : Handle}
    {f : JournalFile} {s : Loading} {outs : List Output} (hs : HandleInv d f hd s)
    (h : FlushInv id f hd outs) (hfuel : hd.phase.budget ≤ fuel) :
    ∃ flushed s', runFlush env fuel n hd f outs = some flushed ∧
      flushed.handle.phase = .idle ∧ HandleInv d flushed.file flushed.handle s' ∧
      f.durable <+: flushed.file.durable ∧
      Returned id flushed.file flushed.handle flushed.outs flushed.result := by
  -- the budget bounds the calls that are left
  induction fuel generalizing n hd f s outs with
  | zero =>
    cases hphase : hd.phase with
    | idle => exact absurd hphase h.running
    | _ =>
      rw [hphase] at hfuel
      simp [Phase.budget] at hfuel
  | succ fuel ih =>
    obtain ⟨call, hnext⟩ : ∃ call, hd.phase.next env n = some call := by
      cases hphase : hd.phase with
      | idle => exact absurd hphase h.running
      | _ => exact ⟨_, rfl⟩
    have hstep := step_sound hd f call
    -- a flush enqueues nothing, so it draws no identifier
    have hnew : ∀ id ∈ call.newId?, id ∉ s.allIds := by
      cases hphase : hd.phase with
      | idle => exact absurd hphase h.running
      | _ =>
        rw [hphase] at hnext
        cases hnext
        simp [Call.newId?]
    obtain ⟨⟨s', hs'⟩, -⟩ := hs.step hnew hstep
    obtain ⟨hreturned, hgoes⟩ := FlushInv.step hs h hstep
    have hbudget := budget_step env n hd f hnext
    have hgrows := hstep.durable_grows
    simp only [runFlush, hnext]
    cases hfind : (hd.step f call).2.2.findSome? Output.flushed? with
    | some result =>
      obtain ⟨hidle, hreport⟩ := hreturned result hfind
      exact ⟨_, s', rfl, hidle, hs', hgrows, hreport⟩
    -- no report yet: the next call has less of a budget
    | none =>
      have hless : (hd.step f call).1.phase.budget < hd.phase.budget :=
        (hbudget.resolve_left (by simp [hfind])).2
      obtain ⟨flushed, t, hrun, hidle, ht, hmore, hreport⟩ :=
        ih hs' (hgoes hfind) (n := n + 1) (by omega)
      exact ⟨flushed, t, hrun, hidle, ht, hgrows.trans hmore, hreport⟩

/-! ### The answer -/

/-- **What a submission says of its request is so.** -/
def Truthful (r : ReplayRequest) (x : Submission) : Prop :=
  match x.outcome with
  | .refused => False
  | .recovery q => q = r ∧ .queued r ∈ x.file.durable
  | .rejected q =>
    q = r ∧ .settled r.requestId .rejected ∈ x.file.durable ∧ r ∉ x.handle.journal.pending
  | .dropped q y _ =>
    q = r ∧ (y = .expired ∨ y = .superseded) ∧ .settled r.requestId y ∈ x.file.durable ∧
      r ∉ x.handle.journal.pending
  | .applied q v =>
    q = r ∧ .settled r.requestId .applied ∈ x.file.durable ∧
      .answered r (.ok (.applied v)) ∈ x.outs ∧ r ∉ x.handle.journal.pending
  | .queued q _ =>
    q = r ∧ r ∈ x.handle.journal.pending ∧ r.requestId ∉ settledIds x.file.durable

/-- What is settled on the file is not pending. -/
theorem HandleInv.notMem_pending {d : String} {f : JournalFile} {hd : Handle} {s : Loading}
    (h : HandleInv d f hd s) {r : ReplayRequest} {x : Disposition}
    (hsettled : .settled r.requestId x ∈ f.durable) : r ∉ hd.journal.pending := by
  intro hmem
  rw [h.owned.pending_eq] at hmem
  exact (h.owned.loads.state.mem_pending.mp hmem).2 (mem_settledIds.mpr ⟨x, hsettled⟩)

/-- Requests on the file are told apart by their identifiers. -/
theorem HandleInv.queued_unique {d : String} {f : JournalFile} {hd : Handle} {s : Loading}
    (h : HandleInv d f hd s) {q r : ReplayRequest} (hq : .queued q ∈ f.durable)
    (hr : .queued r ∈ f.durable) (hid : q.requestId = r.requestId) : q = r :=
  eq_of_requestId_eq h.owned.loads.state.ids_nodup (mem_queuedRequests.mpr hq)
    (mem_queuedRequests.mpr hr) hid

/-- The classification of a report. -/
theorem classify_truthful {d : String} {r : ReplayRequest} {f : JournalFile} {hd : Handle}
    {s : Loading} {outs : List Output} {report : FlushReport} (hs : HandleInv d f hd s)
    (hqueued : .queued r ∈ f.durable) (h : Reported r.requestId f hd outs report) :
    Truthful r { outcome := classify r report, handle := hd, file := f, outs } := by
  have hgone := fun x => hs.notMem_pending (r := r) (x := x)
  unfold classify
  by_cases hrejected : report.rejected > 0 ∧ report.blockedRequest = some r.requestId
  · rw [if_pos hrejected]
    have hsettled := h.noted.settled _ _ (h.rejected hrejected.1 _ hrejected.2)
    exact ⟨rfl, hsettled, hgone _ hsettled⟩
  · rw [if_neg hrejected]
    have happlied : ∀ v, getEntry r.requestId report.results = some v →
        Truthful r { outcome := .applied r v, handle := hd, file := f, outs } := by
      intro v hresult
      obtain ⟨hsettled, q, hq, hid, hanswer⟩ := h.noted.results _ _ (mem_of_getEntry hresult)
      obtain rfl := hs.queued_unique hq hqueued hid
      exact ⟨rfl, hsettled, hanswer, hgone _ hsettled⟩
    have hretained : (∀ x, getEntry r.requestId report.dispositions = some x →
        x = .applied ∨ x = .rejected) → getEntry r.requestId report.results = none →
        Truthful r { outcome := .queued r report, handle := hd, file := f, outs } := by
      intro hx hresult
      -- What is counted is applied, with a result, or rejected, which the report names.
      have hcounted : r.requestId ∉ report.dispositions.map Prod.fst := by
        intro hmem
        obtain ⟨x, hget⟩ := exists_getEntry hmem
        have hmem' := mem_of_getEntry hget
        rcases hx x hget with rfl | rfl
        · obtain ⟨v, hv⟩ := exists_getEntry (h.noted.applied _ hmem')
          rw [hv] at hresult
          cases hresult
        · exact hrejected (h.named _ hmem')
      obtain ⟨q, hq, hid⟩ := mem_requestIds.mp (h.kept.resolve_right hcounted)
      rw [hs.owned.pending_eq] at hq
      obtain ⟨hfile, hunsettled⟩ := hs.owned.loads.state.mem_pending.mp hq
      obtain rfl := hs.queued_unique (mem_queuedRequests.mp hfile) hqueued hid
      exact ⟨rfl, by rwa [hs.owned.pending_eq], hunsettled⟩
    simp only
    cases hget : getEntry r.requestId report.dispositions with
    | none =>
      cases hresult : getEntry r.requestId report.results with
      | some v => exact happlied v hresult
      | none => exact hretained (by simp [hget]) hresult
    | some x =>
      have hsettled := h.noted.settled _ _ (mem_of_getEntry hget)
      cases x with
      | expired => exact ⟨rfl, .inl rfl, hsettled, hgone _ hsettled⟩
      | superseded => exact ⟨rfl, .inr rfl, hsettled, hgone _ hsettled⟩
      | applied =>
        cases hresult : getEntry r.requestId report.results with
        | some v => exact happlied v hresult
        | none => exact hretained (by simp [hget]) hresult
      | rejected =>
        cases hresult : getEntry r.requestId report.results with
        | some v => exact happlied v hresult
        | none => exact hretained (by simp [hget]) hresult

/-- An error is only given for a request that is not pending. -/
theorem Truthful.notMem_of_error {r : ReplayRequest} {x : Submission} (h : Truthful r x)
    {err : AgentBusError} (herr : x.outcome.render = .error err) :
    r ∉ x.handle.journal.pending := by
  unfold Truthful at h
  cases hcase : x.outcome with
  | rejected q =>
    rw [hcase] at h
    exact h.2.2
  | refused =>
    rw [hcase] at h
    exact h.elim
  | _ =>
    rw [hcase] at herr
    cases herr

theorem mem_pending_of_enqueue {j j' : Journal} {f f' : JournalFile} {operation : Operation}
    {surface : ClientSurface} {arguments : Fields} {nowMs : UInt64} {requestId : Uuid}
    {io : AppendIo} {r : ReplayRequest}
    (h : j.enqueue f operation surface arguments nowMs requestId io = (.ok r, j', f')) :
    r ∈ j'.pending := by
  unfold Journal.enqueue at h
  cases hprepare : j.prepare operation surface arguments nowMs requestId with
  | error err => simp [hprepare] at h
  | ok prepared =>
    rw [hprepare] at h
    simp only at h
    rcases hadded : j.append f (.queued prepared.1) io with ⟨_ | _, j₁, f₁⟩
    · simp [hadded] at h
    · simp only [hadded, Prod.mk.injEq, Except.ok.injEq] at h
      obtain ⟨rfl, rfl, -⟩ := h
      exact mem_insertPending_self _ _

/-- **A submission tells the truth about retention.**  On every journal a client can hold, with any
backlog, and whatever the storage and the transport do: when `enqueue` retained the request, the
submission returns and what it says of the request is so on the file and in memory.  It fails only
when the request is settled and no longer pending. -/
theorem submitJournal_truthful (d : String) (is : List ClientInput) (env : Surroundings)
    (operation : Operation) (surface : ClientSurface) (arguments : Fields) (nowMs : UInt64)
    (requestId : Uuid)
    (hids : (drawnIds (is ++ [.call
      (.enqueue operation surface arguments nowMs requestId (env.io 0))])).Nodup)
    (hd : Handle) (hopen : ((Client.machine d).exec {} is).1.handle = some hd)
    (hidle : hd.phase = .idle) (r : ReplayRequest)
    (henqueue : (hd.journal.enqueue ((Client.machine d).exec {} is).1.file operation surface
      arguments nowMs requestId (env.io 0)).1 = .ok r) :
    ∃ x, submitJournal env hd ((Client.machine d).exec {} is).1.file operation surface arguments
        nowMs requestId = some x ∧ Truthful r x ∧
      ∀ err, x.outcome.render = .error err → r ∉ x.handle.journal.pending := by
  have hpre : (drawnIds is).Nodup := by
    rw [drawnIds_append] at hids
    exact (List.nodup_append.mp hids).1
  have hinv := clientInv_exec d is hpre
  generalize (Client.machine d).exec {} is = run at hinv hopen henqueue ⊢
  obtain ⟨c, outs⟩ := run
  simp only at hinv hopen henqueue ⊢
  have hfresh : ∀ id ∈ (Call.enqueue operation surface arguments nowMs requestId
      (env.io 0)).newId?, id ∉ drawnIds is := by
    intro id hid hmem
    rw [drawnIds_append, drawnIds_call, List.nodup_append] at hids
    exact hids.2.2 id hmem id (by simpa using hid) rfl
  have hnext := hinv.call hopen hfresh
  unfold submitJournal
  simp only [Handle.step, hidle] at hnext
  cases hresult : hd.journal.enqueue c.file operation surface arguments nowMs requestId
      (env.io 0) with
  | mk result rest =>
    obtain ⟨j, f⟩ := rest
    rw [hresult] at henqueue hnext
    simp only at henqueue hnext ⊢
    subst henqueue
    obtain ⟨s, hs⟩ := hnext.handle _ rfl
    have hqueued : .queued r ∈ f.durable :=
      mem_queuedRequests.mp (hnext.enqueued r (List.mem_append_right _ (by simp)))
    have hpending : r ∈ j.pending := mem_pending_of_enqueue hresult
    -- The flush starts with the new request among the pending ones.
    have hbegin := step_sound ⟨j, .idle⟩ f (.flush nowMs 16)
    obtain ⟨⟨t, ht⟩, -⟩ := hs.step (by simp [Call.newId?]) hbegin
    have hflush : FlushInv r.requestId f (Handle.step ⟨j, .idle⟩ f (.flush nowMs 16)).1 [] :=
      .of_scanning rfl
        { noted := Noted.start f []
          quiet := ⟨rfl, rfl⟩
          unrejected := by simp
          kept := .inl (mem_requestIds.mpr ⟨r, hpending, rfl⟩) }
    obtain ⟨flushed, s', hrun, -, hs', hgrows, hreport⟩ :=
      runFlush_returns env (n := 1) ht hflush le_rfl
    have htruth : Truthful r
        ⟨flushed.outcome r, flushed.handle, flushed.file, flushed.outs⟩ := by
      have hkept := hgrows.subset hqueued
      unfold Flushed.outcome
      cases hres : flushed.result with
      | error err => exact ⟨rfl, hkept⟩
      | ok report =>
        rw [hres] at hreport
        exact classify_truthful hs' hkept hreport
    refine ⟨_, ?_, htruth, fun err herr => htruth.notMem_of_error herr⟩
    rw [hidle]
    exact congrArg (Option.map _) hrun

/-- A client that retained one message. -/
def backlog : List ClientInput :=
  [.reopen (Uuid.ofNat 1) .ok,
   .call (.enqueue .send .cli
    [("body", .str "x"), ("recipient", .str "b"), ("sender", .str "a"), ("topic", .str "t")]
    5 (Uuid.ofNat 2) .ok)]

/-- A transport that rejects what it gets. -/
def rejecting : Surroundings where
  io _ := .ok
  answer _ := .error .permanent

/-- The older message is rejected and the new one stays queued. -/
theorem submitJournal_truthful_backlog :
    ∃ hd r x, ((Client.machine "hub").exec {} backlog).1.handle = some hd ∧
      submitJournal rejecting hd ((Client.machine "hub").exec {} backlog).1.file .ack .cli
        [("agent", .str "a"), ("message_id", .str "m")] 6 (Uuid.ofNat 3) = some x ∧
      Truthful r x := by
  have hrun : ((Client.machine "hub").exec {} backlog).1.handle.any (fun hd =>
      decide (hd.phase = .idle) && (hd.journal.enqueue ((Client.machine "hub").exec {} backlog).1.file
        .ack .cli [("agent", .str "a"), ("message_id", .str "m")] 6 (Uuid.ofNat 3)
        .ok).1.toBool) = true := by
    decide +kernel
  obtain ⟨hd, hhd, hready⟩ := (Option.any_eq_true _ _).mp hrun
  rw [Bool.and_eq_true, decide_eq_true_eq] at hready
  obtain ⟨hidle, hok⟩ := hready
  cases henqueue : (hd.journal.enqueue ((Client.machine "hub").exec {} backlog).1.file
      .ack .cli [("agent", .str "a"), ("message_id", .str "m")] 6 (Uuid.ofNat 3) .ok).1 with
  | error err =>
    rw [henqueue] at hok
    cases hok
  | ok r =>
    obtain ⟨x, hx, htruth, -⟩ := submitJournal_truthful "hub" backlog rejecting .ack .cli _ 6
      (Uuid.ofNat 3) (by decide) hd hhd hidle r henqueue
    exact ⟨hd, r, x, hhd, hx, htruth⟩

end AgentHub.Outbox
