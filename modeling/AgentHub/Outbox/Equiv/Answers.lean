import AgentHub.Outbox.Equiv.Client

/-!
# What a client records of its answers

A journal settles a request as applied or rejected only on an answer its transport gave, and the
results a flush reports are those of such answers: `answersInv_step`.
-/

namespace AgentHub.Outbox

open AgentHub.Json

/-- Opening a file adds nothing but a header. -/
theorem load_events (f : JournalFile) (expected : Option String) (o : Uuid) (io : AppendIo) :
    (load f expected o io).2.events = f.events ∨
      ∃ d, (load f expected o io).2.events = f.events ++ [.header o d] := by
  rcases load_cases f expected o io with
    ⟨err, f', h, rfl | rfl⟩ | ⟨d, s, h, -⟩ | ⟨-, -, -, h⟩ |
    ⟨-, -, d, -, ⟨h, -⟩ | ⟨err, j', f', h, hfailed⟩⟩
  · exact .inl (by rw [h])
  · exact .inl (by rw [h, JournalFile.events_readBack])
  · exact .inl (by rw [h, JournalFile.events_readBack])
  · exact .inl (by rw [h, JournalFile.events_readBack])
  · refine .inr ⟨d, ?_⟩
    rw [h, JournalFile.events_synced, JournalFile.events_readBack]
  · rw [h]
    rcases hfailed.events with hevents | ⟨-, hevents⟩
    · exact .inl (by rw [hevents, JournalFile.events_readBack])
    · exact .inr ⟨d, by rw [hevents, JournalFile.events_readBack]⟩

/-- Every result belongs to a request that was answered with it. -/
def Backed (outs : List Output) (results : List (Uuid × Value)) : Prop :=
  ∀ id v, (id, v) ∈ results → ∃ r, r.requestId = id ∧ .answered r (.ok (.applied v)) ∈ outs

theorem Backed.mono {outs more : List Output} {results : List (Uuid × Value)}
    (h : Backed outs results) : Backed (outs ++ more) results := by
  intro id v hmem
  obtain ⟨r, hr, hanswer⟩ := h id v hmem
  exact ⟨r, hr, List.mem_append_left _ hanswer⟩

theorem mem_insertEntry {α : Type} {id k : Uuid} {a b : α} {m : List (Uuid × α)}
    (h : (k, b) ∈ insertEntry id a m) : (k, b) ∈ m ∨ k = id ∧ b = a := by
  rcases List.mem_append.mp h with h | h
  · exact .inl (List.mem_of_mem_filter h)
  · exact .inr (by simpa using h)

theorem results_count (report : FlushReport) (id : Uuid) (x : Disposition) :
    (report.count id x).results = report.results := by
  cases x <;> rfl

/-- The result of an answer is backed by that answer. -/
theorem Backed.note {outs : List Output} {report : FlushReport} (h : Backed outs report.results)
    {r : ReplayRequest} {a : Answer} (hanswer : .answered r a ∈ outs) :
    Backed outs (report.note r.requestId a).results := by
  unfold FlushReport.note
  split
  · intro id v hmem
    rcases mem_insertEntry hmem with hmem | ⟨rfl, rfl⟩
    · exact h id v hmem
    · exact ⟨r, rfl, hanswer⟩
  · exact h

/-- **What a client records is backed by its answers.** -/
structure AnswersInv (c : Client) (outs : List Output) : Prop where
  settled : ∀ id x, .settled id x ∈ c.file.events → x = .applied ∨ x = .rejected →
    ∃ r a, r.requestId = id ∧ Answer.disposition a = some x ∧ .answered r a ∈ outs
  answered : ∀ hd ∈ c.handle, ∀ fl r a, hd.phase = .answered fl r a → .answered r a ∈ outs
  noted : ∀ hd ∈ c.handle, ∀ fl ∈ hd.phase.flush?, Backed outs fl.report.results
  reported : ∀ before report, .flushed before (.ok report) ∈ outs → Backed outs report.results

namespace AnswersInv

variable {c : Client} {outs : List Output}

theorem init : AnswersInv {} [] where
  settled := by simp [JournalFile.events]
  answered := by simp
  noted := by simp
  reported := by simp

/-- The record a step appends. -/
theorem settled_of_writes (h : AnswersInv c outs) {hd : Handle} (hhd : c.handle = some hd)
    {call : Call} {id : Uuid} {x : Disposition} {j : Journal}
    (hw : Writes hd call (.settled id x) j) (hx : x = .applied ∨ x = .rejected) :
    ∃ r a, r.requestId = id ∧ Answer.disposition a = some x ∧ .answered r a ∈ outs := by
  cases hw with
  | expired => simp at hx
  | overtaken => simp at hx
  | answered hphase hanswer => exact ⟨_, _, rfl, hanswer, h.answered hd hhd _ _ _ hphase⟩

/-- The report of the flush a step runs, finishes or leaves. -/
theorem results_of_step (h : AnswersInv c outs) {hd hd' : Handle} (hhd : c.handle = some hd)
    {call : Call} {f' : JournalFile} {more : List Output}
    (hstep : Step hd c.file call hd' f' more) :
    (∀ fl ∈ hd'.phase.flush?, Backed outs fl.report.results) ∧
      ∀ before report, .flushed before (.ok report) ∈ more → Backed outs report.results := by
  have hnoted := h.noted hd hhd
  cases hstep with
  | stutter => exact ⟨hnoted, by simp⟩
  | refused => exact ⟨hnoted, by simp⟩
  | enqueued hphase => exact ⟨by simp [Phase.flush?], by simp⟩
  | enqueueFailed hphase => exact ⟨by simp [Phase.flush?], by simp⟩
  | began hphase =>
    -- a flush that begins has no results yet
    refine ⟨?_, by simp⟩
    rintro fl ⟨⟩
    intro id v hmem
    cases hmem
  | finished hphase =>
    refine ⟨by simp [Phase.flush?], ?_⟩
    intro before report hmem
    simp only [List.mem_singleton, Output.flushed.injEq, Except.ok.injEq] at hmem
    obtain ⟨rfl, rfl⟩ := hmem
    exact hnoted _ (by simp [hphase, Phase.flush?])
  | dropped hphase =>
    refine ⟨?_, by simp⟩
    rintro fl ⟨⟩
    simp only [results_count]
    exact hnoted _ (by simp [hphase, Phase.flush?])
  | @attempted fl request queue hphase =>
    refine ⟨?_, by simp⟩
    rintro fl' ⟨⟩
    exact hnoted fl (by simp [hphase, Phase.flush?])
  | @recalled fl request queue hphase =>
    refine ⟨?_, by simp⟩
    rintro fl' ⟨⟩
    exact hnoted fl (by simp [hphase, Phase.flush?])
  | answered hcall hphase =>
    refine ⟨?_, by simp⟩
    rintro fl ⟨⟩
    exact hnoted _ (by simp [hphase, Phase.flush?])
  | settled hphase =>
    -- the result is noted from an answer that was given
    refine ⟨?_, by simp⟩
    rintro fl ⟨⟩
    simp only [results_count]
    exact (hnoted _ (by simp [hphase, Phase.flush?])).note (h.answered hd hhd _ _ _ hphase)
  | rejected hphase =>
    refine ⟨by simp [Phase.flush?], ?_⟩
    intro before report hmem
    simp only [List.mem_singleton, Output.flushed.injEq, Except.ok.injEq] at hmem
    obtain ⟨rfl, rfl⟩ := hmem
    simp only [results_count]
    exact hnoted _ (by simp [hphase, Phase.flush?])
  | blocked hphase =>
    refine ⟨by simp [Phase.flush?], ?_⟩
    intro before report hmem
    simp only [List.mem_singleton, Output.flushed.injEq, Except.ok.injEq] at hmem
    obtain ⟨rfl, rfl⟩ := hmem
    exact hnoted _ (by simp [hphase, Phase.flush?])
  | flushFailed hphase => exact ⟨by simp [Phase.flush?], by simp⟩

/-- A step of the process that has the journal open. -/
theorem call (h : AnswersInv c outs) {hd hd' : Handle} (hhd : c.handle = some hd) {call : Call}
    {f' : JournalFile} {more : List Output} (hstep : Step hd c.file call hd' f' more) :
    AnswersInv { file := f', handle := some hd' } (outs ++ more) := by
  obtain ⟨hnoted, hreported⟩ := h.results_of_step hhd hstep
  refine ⟨?_, ?_, ?_, ?_⟩
  · intro id x hmem hx
    have hbacked : ∃ r a, r.requestId = id ∧ Answer.disposition a = some x ∧
        .answered r a ∈ outs := by
      -- the record is an old one, or the one this call wrote
      rcases hstep.events with hevents | ⟨e, j, hw, -, hevents⟩
      · exact h.settled id x (hevents ▸ hmem) hx
      · rw [hevents] at hmem
        rcases List.mem_append.mp hmem with hmem | hmem
        · exact h.settled id x hmem hx
        · rw [← List.mem_singleton.mp hmem] at hw
          exact h.settled_of_writes hhd hw hx
    obtain ⟨r, a, hr, ha, hanswer⟩ := hbacked
    exact ⟨r, a, hr, ha, List.mem_append_left _ hanswer⟩
  · rintro hd'' ⟨⟩ fl r a hphase
    rcases hstep.answered_phase hphase with hnew | hold
    · exact List.mem_append_right _ hnew
    · exact List.mem_append_left _ (h.answered hd hhd fl r a hold)
  · rintro hd'' ⟨⟩ fl hfl
    exact (hnoted fl hfl).mono
  · intro before report hmem
    rcases List.mem_append.mp hmem with hmem | hmem
    · exact (h.reported before report hmem).mono
    · exact (hreported before report hmem).mono

/-- A client without an open journal, or with one at rest. -/
theorem rest (h : AnswersInv c outs) {c' : Client}
    (hsettled : ∀ id x, .settled id x ∈ c'.file.events → .settled id x ∈ c.file.events)
    (hphase : ∀ hd ∈ c'.handle, hd.phase = .idle) : AnswersInv c' outs where
  settled id x hmem hx := h.settled id x (hsettled id x hmem) hx
  answered hd hhd fl r a hanswered := by
    rw [hphase hd hhd] at hanswered
    cases hanswered
  noted hd hhd fl hfl := by
    rw [hphase hd hhd] at hfl
    cases hfl
  reported := h.reported

end AnswersInv

/-- **One input keeps what is recorded backed by answers.** -/
theorem answersInv_step {c : Client} {outs : List Output} (h : AnswersInv c outs) (d : String)
    (i : ClientInput) : AnswersInv (c.step d i).1 (outs ++ (c.step d i).2) := by
  cases i with
  | crash =>
    show AnswersInv { c with handle := none } (outs ++ [])
    rw [List.append_nil]
    exact h.rest (fun _ _ hmem => hmem) (by simp)
  | reopen o io =>
    unfold Client.step
    cases hhandle : c.handle with
    | some hd =>
      rw [List.append_nil]
      exact h
    | none =>
      have hsettled : ∀ id x, .settled id x ∈ (load c.file (some d) o io).2.events →
          .settled id x ∈ c.file.events := by
        -- a load writes at most a header, which settles nothing
        intro id x hmem
        rcases load_events c.file (some d) o io with hevents | ⟨d', hevents⟩
        · rwa [hevents] at hmem
        · rw [hevents] at hmem
          simpa using hmem
      simp only
      revert hsettled
      rcases load c.file (some d) o io with ⟨⟨err⟩ | ⟨j, b⟩, file⟩
      · intro hsettled
        rw [List.append_nil]
        exact h.rest hsettled (by simp)
      · intro hsettled
        rw [List.append_nil]
        exact h.rest hsettled (by simp)
  | call call =>
    unfold Client.step
    cases hhandle : c.handle with
    | none =>
      rw [List.append_nil]
      exact h
    | some hd => exact h.call hhandle (step_sound hd c.file call)

end AgentHub.Outbox
