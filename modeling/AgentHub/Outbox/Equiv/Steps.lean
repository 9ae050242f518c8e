import AgentHub.Outbox.Equiv.Log

/-!
# The transitions of an open journal

`Handle.step` is a function with many branches.  Here it is turned, once, into a relation:
`Writes hd call e j` lists the places that append a record with the guard each has, and `Step`
lists what a step can do.  `step_sound` says that nothing else happens, so an invariant of the
journal is proved by cases on `Step` and never unfolds the code again.
-/

namespace AgentHub.Outbox

open AgentHub.Json AgentHub.Validation

/-! ### The checks before a request is retained -/

/-- The identifier a call draws. -/
def Call.newId? : Call → Option Uuid
  | .enqueue _ _ _ _ requestId _ => some requestId
  | _ => none

theorem prepare_ok {j : Journal} {operation : Operation} {surface : ClientSurface}
    {arguments : Fields} {nowMs : UInt64} {id : Uuid} {r : ReplayRequest} {next : UInt64}
    (h : j.prepare operation surface arguments nowMs id = .ok (r, next)) :
    j.pending.length < requestLimit ∧ r.validate = .ok () ∧ r.requestId = id ∧
      r.originId = j.originId ∧ r.sequence = j.nextSequence ∧ r.operation = operation ∧
      r.surface = surface ∧ r.arguments = arguments ∧ r.createdMs = nowMs ∧
      checkedAdd j.nextSequence 1 = some next := by
  unfold Journal.prepare at h
  by_cases hcap : j.pending.length ≥ requestLimit
  · simp [hcap, bind, Except.bind] at h
  · simp only [hcap, if_false] at h
    -- the new request is built before it is checked
    cases hnew : j.newRequest operation surface arguments nowMs id with
    | error err => simp [hnew, bind, Except.bind] at h
    | ok r' =>
      simp only [hnew, bind, Except.bind] at h
      cases hvalid : r'.validate with
      | error err => simp [hvalid] at h
      | ok _ =>
        simp only [hvalid] at h
        split at h
        case h_1 => simp at h
        case h_2 n hn =>
          simp only [pure, Except.pure, Except.ok.injEq, Prod.mk.injEq] at h
          obtain ⟨rfl, rfl⟩ := h
          -- what the new request carries is read off its construction
          unfold Journal.newRequest at hnew
          split at hnew
          case h_1 => simp at hnew
          case h_2 =>
            split at hnew
            case h_1 => simp at hnew
            case h_2 =>
              simp only [Except.ok.injEq] at hnew
              subst hnew
              exact ⟨by omega, hvalid, rfl, rfl, rfl, rfl, rfl, rfl, rfl, hn⟩

/-! ### Appends -/

/-- The journal after a settlement. -/
def Journal.without (j : Journal) (request : ReplayRequest) : Journal :=
  { j with
    pending := removePending request.sequence j.pending
    attempted := j.attempted.erase request.requestId }

/-- The journal after an attempt was recorded. -/
def Journal.marked (j : Journal) (request : ReplayRequest) : Journal :=
  { j with attempted := insert request.requestId j.attempted }

/-- The file after a successful append. -/
def JournalFile.synced (f : JournalFile) (e : Event) : JournalFile :=
  { f with durable := f.events ++ [e], unsynced := [] }

@[simp] theorem JournalFile.events_synced (f : JournalFile) (e : Event) :
    (f.synced e).events = f.events ++ [e] := by
  simp [JournalFile.synced, JournalFile.events]

/-- The size checks of an append. -/
def Fits (f : JournalFile) (e : Event) : Prop :=
  recordLen e ≤ recordLimit ∧ f.len + recordLen e ≤ journalLimit

/-- An append that failed: it changed nothing, or it poisoned the journal and left nothing, a part
of the record or all of it behind. -/
inductive Failed (j : Journal) (f : JournalFile) (e : Event) : Journal → JournalFile → Prop
  | unchanged : Failed j f e j f
  | lost (hclean : j.poisoned = false) : Failed j f e { j with poisoned := true } f
  | torn (hclean : j.poisoned = false) :
      Failed j f e { j with poisoned := true } { f with torn := true }
  | unsynced (hclean : j.poisoned = false) (hfits : Fits f e) :
      Failed j f e { j with poisoned := true } { f with unsynced := f.unsynced ++ [e] }

theorem append_cases (j : Journal) (f : JournalFile) (e : Event) (io : AppendIo) :
    (j.append f e io = (.ok (), j, f.synced e) ∧ j.poisoned = false ∧ Fits f e) ∨
      ∃ err j' f', j.append f e io = (.error err, j', f') ∧ Failed j f e j' f' := by
  unfold Journal.append
  by_cases hpoisoned : j.poisoned = true
  · rw [if_pos hpoisoned]
    exact .inr ⟨_, _, _, rfl, .unchanged⟩
  · rw [if_neg hpoisoned]
    have hclean : j.poisoned = false := by simpa using hpoisoned
    by_cases hfits : recordLen e > recordLimit ∨ f.len + recordLen e > journalLimit
    · refine .inr ?_
      cases io <;> simp only [if_pos hfits] <;> exact ⟨_, _, _, rfl, .unchanged⟩
    · have hfits' : Fits f e := by
        unfold Fits
        omega
      cases io <;> simp only [if_neg hfits]
      · exact .inl ⟨rfl, hclean, hfits'⟩
      · exact .inr ⟨_, _, _, rfl, .unchanged⟩
      · exact .inr ⟨_, _, _, rfl, .lost hclean⟩
      · exact .inr ⟨_, _, _, rfl, .torn hclean⟩
      · exact .inr ⟨_, _, _, rfl, .unsynced hclean hfits'⟩

theorem settle_cases (j : Journal) (f : JournalFile) (r : ReplayRequest) (x : Disposition)
    (io : AppendIo) :
    (j.settle f r x io = (.ok (), j.without r, f.synced (.settled r.requestId x)) ∧
        j.poisoned = false ∧ Fits f (.settled r.requestId x)) ∨
      ∃ err j' f', j.settle f r x io = (.error err, j', f') ∧
        Failed j f (.settled r.requestId x) j' f' := by
  unfold Journal.settle
  rcases append_cases j f (.settled r.requestId x) io with ⟨h, hclean, hfits⟩ | ⟨err, j', f', h, hf⟩
  · rw [h]
    exact .inl ⟨rfl, hclean, hfits⟩
  · rw [h]
    exact .inr ⟨err, j', f', rfl, hf⟩

theorem markAttempted_cases (j : Journal) (f : JournalFile) (r : ReplayRequest) (io : AppendIo) :
    (j.markAttempted f r io =
        (.ok (), j.marked r, f.synced (.attempted r.requestId)) ∧
        j.poisoned = false ∧ Fits f (.attempted r.requestId)) ∨
      ∃ err j' f', j.markAttempted f r io = (.error err, j', f') ∧
        Failed j f (.attempted r.requestId) j' f' := by
  unfold Journal.markAttempted
  rcases append_cases j f (.attempted r.requestId) io with ⟨h, hclean, hfits⟩ | ⟨err, j', f', h, hf⟩
  · rw [h]
    exact .inl ⟨rfl, hclean, hfits⟩
  · rw [h]
    exact .inr ⟨err, j', f', rfl, hf⟩

/-! ### Writes -/

/-- The evidence an answer settles a request with; none where the request stays pending. -/
def Answer.disposition : Answer → Option Disposition
  | .ok (.applied _) => some .applied
  | .ok .superseded => some .superseded
  | .ok .pending => none
  | .error .transport => none
  | .error .permanent => some .rejected

/-- The result an answer adds to the report. -/
def FlushReport.note (report : FlushReport) (id : Uuid) : Answer → FlushReport
  | .ok (.applied result) => { report with results := insertEntry id result report.results }
  | _ => report

/-- The places that append a record, with their guards and the journal a success leads to. -/
inductive Writes (hd : Handle) (call : Call) : Event → Journal → Prop
  | queued {operation surface arguments nowMs requestId io request next}
      (hcall : call = .enqueue operation surface arguments nowMs requestId io)
      (hphase : hd.phase = .idle)
      (hprepare : hd.journal.prepare operation surface arguments nowMs requestId =
        .ok (request, next)) :
      Writes hd call (.queued request) { hd.journal with
        nextSequence := next
        pending := insertPending request hd.journal.pending }
  | expired {f request queue} (hphase : hd.phase = .scanning f)
      (hqueue : f.queue = request :: queue) (hnew : request.requestId ∉ hd.journal.attempted)
      (hexpires : request.expiresMs ≠ 0) (hnow : request.expiresMs ≤ f.nowMs) :
      Writes hd call (.settled request.requestId .expired) (hd.journal.without request)
  | overtaken {f request queue} (hphase : hd.phase = .scanning f)
      (hqueue : f.queue = request :: queue) (hnew : request.requestId ∉ hd.journal.attempted)
      (hoperation : request.operation = .presence)
      (hnewer : newerPresence hd.journal.pending request = true) :
      Writes hd call (.settled request.requestId .superseded) (hd.journal.without request)
  | attempted {f request queue} (hphase : hd.phase = .scanning f)
      (hqueue : f.queue = request :: queue) (hnew : request.requestId ∉ hd.journal.attempted) :
      Writes hd call (.attempted request.requestId) (hd.journal.marked request)
  | answered {f request answer x} (hphase : hd.phase = .answered f request answer)
      (hanswer : Answer.disposition answer = some x) :
      Writes hd call (.settled request.requestId x) (hd.journal.without request)

/-- **What one step of the owner can do.** -/
inductive Step (hd : Handle) (f : JournalFile) (call : Call) :
    Handle → JournalFile → List Output → Prop
  | stutter : Step hd f call hd f []
  | refused {err} (hphase : hd.phase = .idle) : Step hd f call hd f [.enqueued (.error err)]
  | enqueued {request j} (hphase : hd.phase = .idle)
      (hwrites : Writes hd call (.queued request) j) (hclean : hd.journal.poisoned = false)
      (hfits : Fits f (.queued request)) :
      Step hd f call { journal := j, phase := .idle } (f.synced (.queued request))
        [.enqueued (.ok request)]
  | enqueueFailed {request j j' f' err} (hphase : hd.phase = .idle)
      (hwrites : Writes hd call (.queued request) j)
      (hfailed : Failed hd.journal f (.queued request) j' f') :
      Step hd f call { journal := j', phase := .idle } f' [.enqueued (.error err)]
  | began {nowMs limit} (hphase : hd.phase = .idle) :
      Step hd f call
        { hd with phase := .scanning {
            nowMs
            before := hd.journal.pending.length
            queue := hd.journal.pending.take (min limit requestLimit)
            report := {} } } f []
  | finished {fl} (hphase : hd.phase = .scanning fl) (hqueue : fl.queue = []) :
      Step hd f call { hd with phase := .idle } f
        [.flushed fl.before (.ok { fl.report with remaining := hd.journal.pending.length })]
  | dropped {fl request queue x} (hphase : hd.phase = .scanning fl)
      (hqueue : fl.queue = request :: queue)
      (hwrites : Writes hd call (.settled request.requestId x) (hd.journal.without request))
      (hclean : hd.journal.poisoned = false) (hfits : Fits f (.settled request.requestId x)) :
      Step hd f call
        { journal := hd.journal.without request
          phase := .scanning { fl with
            queue
            report := fl.report.count request.requestId x } }
        (f.synced (.settled request.requestId x)) []
  | attempted {fl request queue} (hphase : hd.phase = .scanning fl)
      (hqueue : fl.queue = request :: queue)
      (hwrites : Writes hd call (.attempted request.requestId) (hd.journal.marked request))
      (hclean : hd.journal.poisoned = false) (hfits : Fits f (.attempted request.requestId)) :
      Step hd f call
        { journal := hd.journal.marked request, phase := .calling { fl with queue } request }
        (f.synced (.attempted request.requestId)) [.replayed request]
  | recalled {fl request queue} (hphase : hd.phase = .scanning fl)
      (hqueue : fl.queue = request :: queue) (hold : request.requestId ∈ hd.journal.attempted) :
      Step hd f call { hd with phase := .calling { fl with queue } request } f [.replayed request]
  | answered {fl request answer} (hcall : call = .answer answer)
      (hphase : hd.phase = .calling fl request) :
      Step hd f call { hd with phase := .answered fl request answer } f
        [.answered request answer]
  | settled {fl request answer x} (hphase : hd.phase = .answered fl request answer)
      (hx : x ≠ .rejected)
      (hwrites : Writes hd call (.settled request.requestId x) (hd.journal.without request))
      (hclean : hd.journal.poisoned = false) (hfits : Fits f (.settled request.requestId x)) :
      Step hd f call
        { journal := hd.journal.without request
          phase := .scanning { fl with
            report := (fl.report.note request.requestId answer).count request.requestId x } }
        (f.synced (.settled request.requestId x)) []
  | rejected {fl request answer} (hphase : hd.phase = .answered fl request answer)
      (hwrites : Writes hd call (.settled request.requestId .rejected)
        (hd.journal.without request))
      (hclean : hd.journal.poisoned = false)
      (hfits : Fits f (.settled request.requestId .rejected)) :
      Step hd f call { journal := hd.journal.without request, phase := .idle }
        (f.synced (.settled request.requestId .rejected))
        [.flushed fl.before (.ok { fl.report.count request.requestId .rejected with
          blockedRequest := some request.requestId
          remaining := (hd.journal.without request).pending.length })]
  | blocked {fl request answer} (hphase : hd.phase = .answered fl request answer) :
      Step hd f call { hd with phase := .idle } f
        [.flushed fl.before (.ok { fl.report with
          blockedRequest := some request.requestId
          remaining := hd.journal.pending.length })]
  | flushFailed {e j j' f' before err} (hphase : hd.phase ≠ .idle) (hwrites : Writes hd call e j)
      (hfailed : Failed hd.journal f e j' f') :
      Step hd f call { journal := j', phase := .idle } f' [.flushed before (.error err)]

/-! ### Every step is one of these -/

section Sound

variable (hd : Handle) (f : JournalFile)

theorem enqueue_sound (hphase : hd.phase = .idle) (operation : Operation)
    (surface : ClientSurface) (arguments : Fields) (nowMs : UInt64) (requestId : Uuid)
    (io : AppendIo) :
    Step hd f (.enqueue operation surface arguments nowMs requestId io)
      (hd.step f (.enqueue operation surface arguments nowMs requestId io)).1
      (hd.step f (.enqueue operation surface arguments nowMs requestId io)).2.1
      (hd.step f (.enqueue operation surface arguments nowMs requestId io)).2.2 := by
  unfold Handle.step
  simp only [hphase]
  unfold Journal.enqueue
  cases hprepare : hd.journal.prepare operation surface arguments nowMs requestId with
  | error err =>
    simp only
    rw [← hphase]
    exact .refused hphase
  | ok prepared =>
    obtain ⟨request, next⟩ := prepared
    have hwrites := fun io => Writes.queued (rfl : Call.enqueue operation surface arguments nowMs
      requestId io = _) hphase hprepare
    simp only
    rcases append_cases hd.journal f (.queued request) io with ⟨h, hclean, hfits⟩ | ⟨err, j', f', h, hf⟩
    · rw [h]
      exact .enqueued hphase (hwrites io) hclean hfits
    · rw [h]
      exact .enqueueFailed hphase (hwrites io) hf

theorem settleNext_sound {fl : Flush} {request : ReplayRequest} {x : Disposition} {call : Call}
    {io : AppendIo} (hphase : hd.phase ≠ .idle)
    (hwrites : Writes hd call (.settled request.requestId x) (hd.journal.without request))
    (hnext : hd.journal.poisoned = false → Fits f (.settled request.requestId x) →
      Step hd f call
        { journal := hd.journal.without request
          phase := .scanning { fl with report := fl.report.count request.requestId x } }
        (f.synced (.settled request.requestId x)) []) :
    Step hd f call (hd.settleNext fl f request x io).1 (hd.settleNext fl f request x io).2.1
      (hd.settleNext fl f request x io).2.2 := by
  unfold Handle.settleNext Handle.settleThen
  rcases settle_cases hd.journal f request x io with ⟨h, hclean, hfits⟩ | ⟨err, j', f', h, hf⟩
  · rw [h]
    exact hnext hclean hfits
  · rw [h]
    exact .flushFailed hphase hwrites hf

theorem advance_sound {fl : Flush} (hphase : hd.phase = .scanning fl) (io : AppendIo) :
    Step hd f (.advance io) (hd.advance fl f io).1 (hd.advance fl f io).2.1
      (hd.advance fl f io).2.2 := by
  have hbusy : hd.phase ≠ .idle := by simp [hphase]
  unfold Handle.advance
  cases hqueue : fl.queue with
  | nil => exact .finished hphase hqueue
  | cons request queue =>
    simp only
    split_ifs with hexpired hovertaken hold
    · -- an expired request is settled without a call
      have hwrites : Writes hd (.advance io) _ _ :=
        .expired hphase hqueue hexpired.1 hexpired.2.1 hexpired.2.2
      refine settleNext_sound hd f hbusy hwrites fun hclean hfits => ?_
      have hstep := Step.dropped hphase hqueue hwrites hclean hfits
      exact hstep
    · -- an overtaken presence is settled without a call
      have hwrites : Writes hd (.advance io) _ _ :=
        .overtaken hphase hqueue hovertaken.1 hovertaken.2.1 hovertaken.2.2
      refine settleNext_sound hd f hbusy hwrites fun hclean hfits => ?_
      have hstep := Step.dropped hphase hqueue hwrites hclean hfits
      exact hstep
    · -- the mark is there from an earlier flush, so it is not written again
      exact .recalled hphase hqueue hold
    · have hwrites : Writes hd (.advance io) _ _ := .attempted hphase hqueue hold
      rcases markAttempted_cases hd.journal f request io with
        ⟨h, hclean, hfits⟩ | ⟨err, j', f', h, hf⟩
      · rw [h]
        exact .attempted hphase hqueue hwrites hclean hfits
      · rw [h]
        exact .flushFailed hbusy hwrites hf

theorem conclude_sound {fl : Flush} {request : ReplayRequest} {answer : Answer}
    (hphase : hd.phase = .answered fl request answer) (io : AppendIo) :
    Step hd f (.conclude io) (hd.conclude fl f request answer io).1
      (hd.conclude fl f request answer io).2.1 (hd.conclude fl f request answer io).2.2 := by
  have hbusy : hd.phase ≠ .idle := by simp [hphase]
  unfold Handle.conclude
  match answer, hphase with
  | .ok (.applied result), hphase =>
    have hwrites : Writes hd (.conclude io) _ _ := .answered hphase rfl
    refine settleNext_sound hd f hbusy hwrites fun hclean hfits => ?_
    have hstep := Step.settled hphase (by simp) hwrites hclean hfits
    exact hstep
  | .ok .superseded, hphase =>
    have hwrites : Writes hd (.conclude io) _ _ := .answered hphase rfl
    refine settleNext_sound hd f hbusy hwrites fun hclean hfits => ?_
    have hstep := Step.settled hphase (by simp) hwrites hclean hfits
    exact hstep
  | .ok .pending, hphase =>
    -- the hub is not done: the request stays and the flush ends
    have hstep : Step hd f (.conclude io) _ _ _ := .blocked hphase
    exact hstep
  | .error .transport, hphase =>
    have hstep : Step hd f (.conclude io) _ _ _ := .blocked hphase
    exact hstep
  | .error .permanent, hphase =>
    have hwrites : Writes hd (.conclude io) _ _ := .answered hphase rfl
    -- a rejected request is settled, and the flush ends with an error
    simp only [Handle.settleThen]
    rcases settle_cases hd.journal f request .rejected io with
      ⟨h, hclean, hfits⟩ | ⟨err, j', f', h, hf⟩
    · rw [h]
      exact .rejected hphase hwrites hclean hfits
    · rw [h]
      exact .flushFailed hbusy hwrites hf

/-- **Nothing else happens.** -/
theorem step_sound (call : Call) :
    Step hd f call (hd.step f call).1 (hd.step f call).2.1 (hd.step f call).2.2 := by
  cases hphase : hd.phase with
  | idle =>
    cases call with
    | enqueue operation surface arguments nowMs requestId io =>
      exact enqueue_sound hd f hphase operation surface arguments nowMs requestId io
    | flush nowMs limit =>
      simp only [Handle.step, hphase]
      exact .began hphase
    -- a call that does not fit the phase changes nothing
    | _ =>
      simp only [Handle.step, hphase]
      exact .stutter
  | scanning fl =>
    cases call with
    | advance io =>
      simp only [Handle.step, hphase]
      exact advance_sound hd f hphase io
    | _ =>
      simp only [Handle.step, hphase]
      exact .stutter
  | calling fl request =>
    cases call with
    | answer answer =>
      simp only [Handle.step, hphase]
      exact .answered rfl hphase
    | _ =>
      simp only [Handle.step, hphase]
      exact .stutter
  | answered fl request answer =>
    cases call with
    | conclude io =>
      simp only [Handle.step, hphase]
      exact conclude_sound hd f hphase io
    | _ =>
      simp only [Handle.step, hphase]
      exact .stutter

end Sound

/-! ### What a step does to the file -/

theorem Failed.durable {j j' : Journal} {f f' : JournalFile} {e : Event}
    (h : Failed j f e j' f') : f'.durable = f.durable := by
  cases h <;> rfl

theorem Failed.events {j j' : Journal} {f f' : JournalFile} {e : Event}
    (h : Failed j f e j' f') :
    f'.events = f.events ∨ j.poisoned = false ∧ f'.events = f.events ++ [e] := by
  cases h with
  | unchanged => exact .inl rfl
  | lost => exact .inl rfl
  | torn => exact .inl rfl
  | unsynced hclean => exact .inr ⟨hclean, by simp [JournalFile.events]⟩

theorem JournalFile.durable_grows_synced (f : JournalFile) (e : Event) :
    f.durable <+: (f.synced e).durable := by
  show f.durable <+: (f.durable ++ f.unsynced) ++ [e]
  rw [List.append_assoc]
  exact List.prefix_append _ _

namespace Step

variable {hd hd' : Handle} {f f' : JournalFile} {call : Call} {outs : List Output}

/-- A step appends at most one record, at one of the known places and only to a sound file. -/
theorem events (h : Step hd f call hd' f' outs) :
    f'.events = f.events ∨ ∃ e j, Writes hd call e j ∧ hd.journal.poisoned = false ∧
      f'.events = f.events ++ [e] := by
  cases h with
  | enqueued _ hw hclean => exact .inr ⟨_, _, hw, hclean, JournalFile.events_synced _ _⟩
  | dropped _ _ hw hclean => exact .inr ⟨_, _, hw, hclean, JournalFile.events_synced _ _⟩
  | attempted _ _ hw hclean => exact .inr ⟨_, _, hw, hclean, JournalFile.events_synced _ _⟩
  | settled _ _ hw hclean => exact .inr ⟨_, _, hw, hclean, JournalFile.events_synced _ _⟩
  | rejected _ hw hclean => exact .inr ⟨_, _, hw, hclean, JournalFile.events_synced _ _⟩
  | enqueueFailed _ hw hfailed => exact hfailed.events.imp_right fun he => ⟨_, _, hw, he⟩
  | flushFailed _ hw hfailed => exact hfailed.events.imp_right fun he => ⟨_, _, hw, he⟩
  | _ => exact .inl rfl

/-- Durable records stay. -/
theorem durable_grows (h : Step hd f call hd' f' outs) : f.durable <+: f'.durable := by
  cases h with
  | enqueued => exact f.durable_grows_synced _
  | dropped => exact f.durable_grows_synced _
  | attempted => exact f.durable_grows_synced _
  | settled => exact f.durable_grows_synced _
  | rejected => exact f.durable_grows_synced _
  | enqueueFailed _ _ hfailed => rw [hfailed.durable]
  | flushFailed _ _ hfailed => rw [hfailed.durable]
  | _ => exact List.prefix_rfl

/-- A request that `enqueue` returned is on the file. -/
theorem mem_of_enqueued (h : Step hd f call hd' f' outs) {r : ReplayRequest}
    (hr : .enqueued (.ok r) ∈ outs) : .queued r ∈ f'.durable := by
  cases h with
  | enqueued =>
    simp only [List.mem_singleton, Output.enqueued.injEq, Except.ok.injEq] at hr
    subst hr
    simp [JournalFile.synced]
  | _ => simp at hr

theorem clean_of_enqueued (h : Step hd f call hd' f' outs) {r : ReplayRequest}
    (hr : .enqueued (.ok r) ∈ outs) : hd'.journal.poisoned = false := by
  cases h with
  | enqueued _ hwrites hclean =>
    cases hwrites with
    | queued => exact hclean
  | _ => simp at hr

/-- A transport that was called is being called. -/
theorem calling_of_replayed (h : Step hd f call hd' f' outs) {r : ReplayRequest}
    (hr : .replayed r ∈ outs) : ∃ fl, hd'.phase = .calling fl r := by
  cases h with
  | attempted =>
    simp only [List.mem_singleton, Output.replayed.injEq] at hr
    subst hr
    exact ⟨_, rfl⟩
  | recalled =>
    simp only [List.mem_singleton, Output.replayed.injEq] at hr
    subst hr
    exact ⟨_, rfl⟩
  | _ => simp at hr

/-- An answer that is about to be recorded was given now or before. -/
theorem answered_phase (h : Step hd f call hd' f' outs) {fl : Flush} {r : ReplayRequest}
    {a : Answer} (hphase' : hd'.phase = .answered fl r a) :
    .answered r a ∈ outs ∨ hd.phase = .answered fl r a := by
  cases h with
  | stutter => exact .inr hphase'
  | refused => exact .inr hphase'
  | answered =>
    simp only [Phase.answered.injEq] at hphase'
    obtain ⟨-, rfl, rfl⟩ := hphase'
    exact .inl (by simp)
  | _ => simp at hphase'

end Step

/-- A queued record carries the identifier the call drew. -/
theorem Writes.newId? {hd : Handle} {call : Call} {r : ReplayRequest} {j : Journal}
    (h : Writes hd call (.queued r) j) : call.newId? = some r.requestId := by
  cases h with
  | queued hcall _ hprepare =>
    rw [hcall]
    exact congrArg some (prepare_ok hprepare).2.2.1.symm

end AgentHub.Outbox
