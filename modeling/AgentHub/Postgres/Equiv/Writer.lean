import AgentHub.Postgres.Writer

/-!
# What the write-behind queue accounts for

`WriterStep` lists what one step can do.  From it come three invariants: `Queue` (items are settled
in the order they were sent, and a completion comes after what was sent before it), `Accounts` (the
counters add up, with what the steps under way still owe) and `Keys` (the requests of a caller carry
ascending numbers).  `writer_accounts` reads the results off them.
-/

namespace AgentHub.Postgres

/-! ### Steps -/

/-- Nothing of a send or of a wait is under way, before or after. -/
def CallerPhase.rests : CallerPhase → Bool
  | .idle | .gone | .stopping => true
  | _ => false

/-- **What one step of the queue can do.** -/
inductive WriterStep : Writer → Writer → List WriterOutput → Prop
  | stutter {w} : WriterStep w w []
  | cloned {w} : WriterStep w { w with callers := w.callers ++ [.idle] } []
  /-- A caller goes on without sending anything. -/
  | moved {w c phase phase' outs} (hcaller : w.callers[c]? = some phase)
      (hphase : phase.rests = true ∨ (∃ id wait, phase = .flushing id wait) ∨
        ∃ id, phase = .awaiting id)
      (hphase' : phase'.rests = true)
      (houts : ∀ o ∈ outs, ∃ n drained, o = .flushed c n drained ∧
        (drained = true → phase = .awaiting n ∧ ((c, n) ∈ w.completed ∨ w.task = .exited))) :
      WriterStep w (w.setCaller c phase') outs
  | beganSend {w c item} (hcaller : w.callers[c]? = some .idle) :
      WriterStep w { w.setCaller c (.sending ⟨c, w.calls, item⟩) with
        calls := w.calls + 1, pending := w.pending + 1 } []
  | beganFlush {w c wait} (hcaller : w.callers[c]? = some .idle) :
      WriterStep w { w.setCaller c (.flushing w.calls wait) with calls := w.calls + 1 } []
  | sent {w c entry} (hcaller : w.callers[c]? = some (.sending entry)) (hopen : w.task ≠ .exited) :
      WriterStep w ((w.push (.item entry)).setCaller c (.counting entry)) []
  | refused {w c entry} (hcaller : w.callers[c]? = some (.sending entry))
      (hclosed : w.task = .exited) :
      WriterStep w { w.setCaller c (.bounced entry) with refused := w.refused ++ [entry] } []
  | bounced {w c entry phase'} (hcaller : w.callers[c]? = some (.bounced entry))
      (hphase' : phase' = .dropping entry ∨ phase' = .counting entry) :
      WriterStep w { w.setCaller c phase' with pending := w.pending - 1 } []
  | dropped {w c entry} (hcaller : w.callers[c]? = some (.dropping entry)) :
      WriterStep w { w.setCaller c (.counting entry) with
        metrics := { w.metrics with droppedWrites := w.metrics.droppedWrites + 1 } } []
  | queued {w c entry} (hcaller : w.callers[c]? = some (.counting entry)) :
      WriterStep w { w.setCaller c .idle with
        metrics := { w.metrics with messagesQueued := w.metrics.messagesQueued + 1 } } []
  | asked {w c id wait} (hcaller : w.callers[c]? = some (.flushing id wait))
      (hopen : w.task ≠ .exited) :
      WriterStep w
        ((w.push (.flush c id wait)).setCaller c (if wait then .awaiting id else .idle)) []
  | stopped {w c} (hcaller : w.callers[c]? = some .stopping) (hopen : w.task ≠ .exited) :
      WriterStep w ((w.push .shutdown).setCaller c .idle) []
  | tookItem {w entry rest} (htask : w.task = .selecting ∨ w.task = .draining)
      (hchannel : w.channel = .item entry :: rest) :
      WriterStep w { w.take (.item entry) rest with batch := w.batch ++ [entry] } []
  | tookShutdown {w rest} (htask : w.task = .selecting ∨ w.task = .draining)
      (hchannel : w.channel = .shutdown :: rest) :
      WriterStep w { w.take .shutdown rest with task := .draining } []
  | tookFlush {w c id wait rest next} (htask : w.task = .selecting ∨ w.task = .draining)
      (hchannel : w.channel = .flush c id wait :: rest) :
      WriterStep w ((w.take (.flush c id wait) rest).flushThen ⟨Writer.completion c id wait, next⟩) []
  | flushing {w next} (htask : w.task = .selecting ∨ w.task = .draining) :
      WriterStep w (w.flushThen ⟨none, next⟩) []
  | persisted {w entry rest after ok stored breaker inserted}
      (htask : w.task = .flushing (entry :: rest) after) :
      WriterStep w { w with breaker, inserted, task := .settling entry ok rest after }
        [.persisted entry stored]
  | batchDone {w after} (htask : w.task = .flushing [] after) :
      WriterStep w { w with
        metrics := { w.metrics with batchesFlushed := w.metrics.batchesFlushed + 1 }
        task := after.phase } []
  | lowered {w entry ok rest after} (htask : w.task = .settling entry ok rest after) :
      WriterStep w { w with pending := w.pending - 1, task := .counting entry ok rest after } []
  | counted {w entry ok rest after} (htask : w.task = .counting entry ok rest after) :
      WriterStep w (w.count entry ok rest after) []
  | droppedWrite {w rest after} (htask : w.task = .dropping rest after) :
      WriterStep w { w with
        metrics := { w.metrics with droppedWrites := w.metrics.droppedWrites + 1 }
        task := .flushing rest after } []
  | completed {w call next} (htask : w.task = .completing call next) :
      WriterStep w { w with completed := w.completed ++ [call], task := next.phase } []
  | exited {w} (htask : w.task = .leaving) :
      WriterStep w { w with channel := [], lost := w.channel, task := .exited } []
  /-- The item that fills the batch. -/
  | tookFull {w entry rest next} (htask : w.task = .selecting ∨ w.task = .draining)
      (hchannel : w.channel = .item entry :: rest) :
      WriterStep w (({ w.take (.item entry) rest with
        batch := w.batch ++ [entry] } : Writer).flushThen ⟨none, next⟩) []

section Sound

variable (parsers : Parsers) (configured : Bool) (w : Writer)

theorem proceed_sound {c : Nat} {phase : CallerPhase} (hcaller : w.callers[c]? = some phase) :
    WriterStep w (w.proceed c phase).1 (w.proceed c phase).2 := by
  -- the channel is closed once the task has ended
  have hclosed : w.closed = true ↔ w.task = .exited := by simp [Writer.closed]
  cases phase with
  | idle => exact .stutter
  | gone => exact .stutter
  | sending entry =>
    simp only [Writer.proceed]
    split_ifs with h
    · exact .refused hcaller (hclosed.mp h)
    · exact .sent hcaller (mt hclosed.mpr h)
  | bounced entry =>
    refine .bounced hcaller ?_
    split
    · exact .inl rfl
    · exact .inr rfl
  | dropping entry => exact .dropped hcaller
  | counting entry => exact .queued hcaller
  -- a flush of a closed channel is over at once
  | flushing id wait =>
    simp only [Writer.proceed]
    by_cases h : w.closed = true
    · rw [if_pos h]
      refine .moved hcaller (.inr (.inl ⟨_, _, rfl⟩)) rfl ?_
      cases wait with
      | false => simp
      | true => simp
    · rw [if_neg h]
      exact .asked hcaller (mt hclosed.mpr h)
  -- the caller waits until its call is completed or the task has ended
  | awaiting id =>
    simp only [Writer.proceed]
    split_ifs with h
    · refine .moved hcaller (.inr (.inr ⟨_, rfl⟩)) rfl ?_
      intro o ho
      obtain rfl := List.mem_singleton.mp ho
      exact ⟨id, true, rfl, fun _ => ⟨rfl, h.imp_right hclosed.mp⟩⟩
    · exact .stutter
  | stopping =>
    simp only [Writer.proceed]
    split_ifs with h
    · exact .moved hcaller (.inl rfl) rfl (by simp)
    · exact .stopped hcaller (mt hclosed.mpr h)

theorem begin_sound {c : Nat} (hcaller : w.callers[c]? = some .idle) (call : WriterCall) :
    WriterStep w (w.begin c call) [] := by
  cases call with
  | send item => exact .beganSend hcaller
  | flush => exact .beganFlush hcaller
  | flushAndWait => exact .beganFlush hcaller
  | shutdown => exact .moved hcaller (.inl rfl) rfl (by simp)

theorem receive_sound (htask : w.task = .selecting) : WriterStep w w.receive [] := by
  unfold Writer.receive
  split
  · split
    · exact .flushing (.inl htask)
    · exact .stutter
  · rename_i rest hchannel
    exact .tookShutdown (.inl htask) hchannel
  · rename_i c id wait rest hchannel
    exact .tookFlush (.inl htask) hchannel
  · rename_i entry rest hchannel
    simp only
    split
    · exact .tookFull (.inl htask) hchannel
    · exact .tookItem (.inl htask) hchannel

theorem drainNext_sound (htask : w.task = .draining) : WriterStep w w.drainNext [] := by
  unfold Writer.drainNext
  split
  · exact .flushing (.inr htask)
  · rename_i rest hchannel
    have htook := WriterStep.tookShutdown (.inr htask) hchannel
    rw [← htask] at htook
    exact htook
  · rename_i c id wait rest hchannel
    exact .tookFlush (.inr htask) hchannel
  · rename_i entry rest hchannel
    exact .tookItem (.inr htask) hchannel

theorem advance_sound : WriterStep w w.advance [] := by
  unfold Writer.advance
  split
  · exact drainNext_sound w ‹_›
  · exact .batchDone ‹_›
  · exact .lowered ‹_›
  · exact .counted ‹_›
  · exact .droppedWrite ‹_›
  · exact .completed ‹_›
  · exact .exited ‹_›
  · exact .stutter

/-- **Nothing else happens.** -/
theorem writerStep_sound (i : WriterInput) :
    -- by the input; an input that finds nothing to do changes nothing
    WriterStep w (w.step parsers configured i).1 (w.step parsers configured i).2 := by
  cases i with
  | clone =>
    simp only [Writer.step]
    split
    · exact .stutter
    · exact .cloned
  | drop c =>
    simp only [Writer.step]
    split
    · exact .moved ‹_› (.inl rfl) rfl (by simp)
    · exact .stutter
  | call c call =>
    simp only [Writer.step]
    split
    · exact begin_sound w ‹_› call
    · exact .stutter
  | proceed c =>
    simp only [Writer.step]
    split
    · exact proceed_sound w ‹_›
    · exact .stutter
  | timeout c =>
    simp only [Writer.step]
    split
    · exact .moved ‹_› (.inr (.inr ⟨_, rfl⟩)) rfl (by simp)
    · exact .stutter
  | tick =>
    simp only [Writer.step]
    split
    · split
      · exact .stutter
      · exact .flushing (.inl ‹_›)
    · exact .stutter
  | receive =>
    simp only [Writer.step]
    split
    · exact receive_sound w ‹_›
    · exact .stutter
  | persist io =>
    simp only [Writer.step, Writer.persistNext]
    split
    · split
      · exact .persisted ‹_›
      · exact .persisted ‹_›
    · exact .stutter
  | advance => exact advance_sound w

end Sound

/-! ### The order of the queue -/

/-- The items of a flush that are not settled yet. -/
def TaskPhase.held : TaskPhase → List Entry
  | .flushing rest _ => rest
  | .settling entry _ rest _ | .counting entry _ rest _ => entry :: rest
  | .dropping rest _ => rest
  | _ => []

/-- The call whose flush is under way. -/
def TaskPhase.target : TaskPhase → Option (Nat × Nat)
  | .flushing _ after | .settling _ _ _ after | .counting _ _ _ after | .dropping _ after =>
    after.complete
  | .completing call _ => some call
  | _ => none

/-- The task may take requests. -/
def TaskPhase.takes : TaskPhase → Bool
  | .selecting | .draining => true
  | _ => false

theorem takes_of {task : TaskPhase} (h : task = .selecting ∨ task = .draining) :
    task.takes = true ∧ task.held = [] ∧ task.target = none ∧ task ≠ .exited := by
  rcases h with rfl | rfl <;> exact ⟨rfl, rfl, rfl, by simp⟩

@[simp] theorem Next.held_phase (next : Next) : next.phase.held = [] := by
  cases next <;> rfl

@[simp] theorem Next.target_phase (next : Next) : next.phase.target = none := by
  cases next <;> rfl

theorem Next.phase_ne_exited (next : Next) : next.phase ≠ .exited := by
  cases next <;> simp [Next.phase]

@[simp] theorem After.held_phase (after : After) : after.phase.held = [] := by
  unfold After.phase
  split
  · rfl
  · simp

@[simp] theorem After.target_phase (after : After) : after.phase.target = after.complete := by
  unfold After.phase
  split
  · rename_i call h
    simp [TaskPhase.target, h]
  · rename_i h
    simp [h]

theorem After.phase_ne_exited (after : After) : after.phase ≠ .exited := by
  unfold After.phase
  split
  · simp
  · exact after.next.phase_ne_exited

@[simp] theorem entries_append (a b : List Request) : entries (a ++ b) = entries a ++ entries b := by
  simp [entries]

theorem mem_entries {rs : List Request} {e : Entry} : e ∈ entries rs ↔ .item e ∈ rs := by
  unfold entries
  rw [List.mem_filterMap]
  constructor
  · rintro ⟨r, hr, he⟩
    cases r with
    | item e' =>
      obtain rfl : e' = e := by simpa [Request.entry?] using he
      exact hr
    | _ => simp [Request.entry?] at he
  · intro h
    exact ⟨_, h, rfl⟩

/-- A flush was completed after everything sent before it was settled. -/
def Drained (sent : List Request) (settled : List Entry) (call : Nat × Nat) : Prop :=
  ∃ before after, sent = before ++ .flush call.1 call.2 true :: after ∧
    ∀ e ∈ entries before, e ∈ settled

/-- **The order of the queue.** -/
structure Queue (w : Writer) : Prop where
  order : entries w.received = w.settled ++ w.task.held ++ w.batch
  sent : w.sent = w.received ++ w.channel ++ w.lost
  lost : w.task ≠ .exited → w.lost = []
  exited : w.task = .exited → w.channel = []
  emptied : w.task.takes = false → w.batch = []
  target : ∀ call ∈ w.task.target, ∃ before, w.received = before ++ [.flush call.1 call.2 true]
  completed : ∀ call ∈ w.completed, Drained w.sent w.settled call

namespace Queue

variable {w : Writer}

/-- A state that differs in nothing the order speaks of. -/
theorem congr (h : Queue w) {w' : Writer} (hreceived : w'.received = w.received)
    (hsent : w'.sent = w.sent) (hchannel : w'.channel = w.channel) (hlost : w'.lost = w.lost)
    (hbatch : w'.batch = w.batch) (htask : w'.task = w.task) (hsettled : w'.settled = w.settled)
    (hcompleted : w'.completed = w.completed) : Queue w' where
  order := by rw [hreceived, hsettled, htask, hbatch, h.order]
  sent := by rw [hsent, hreceived, hchannel, hlost, h.sent]
  lost := by rw [htask, hlost]; exact h.lost
  exited := by rw [htask, hchannel]; exact h.exited
  emptied := by rw [htask, hbatch]; exact h.emptied
  target := by rw [htask, hreceived]; exact h.target
  completed := by rw [hcompleted, hsent, hsettled]; exact h.completed

/-- A request sent while the task runs. -/
theorem push (h : Queue w) (hopen : w.task ≠ .exited) (r : Request) : Queue (w.push r) where
  order := h.order
  sent := by
    show w.sent ++ [r] = w.received ++ (w.channel ++ [r]) ++ w.lost
    rw [h.sent, h.lost hopen]
    simp
  lost := h.lost
  exited hexited := absurd hexited hopen
  emptied := h.emptied
  target := h.target
  completed call hcall := by
    obtain ⟨before, after, hsent, hsettled⟩ := h.completed call hcall
    refine ⟨before, after ++ [r], ?_, hsettled⟩
    show w.sent ++ [r] = _
    rw [hsent]
    simp

/-- The task goes on to another phase with what it holds. -/
theorem moves (h : Queue w) (htask : w.task ≠ .exited) {task : TaskPhase} (hexited : task ≠ .exited)
    (hheld : task.held = w.task.held) (htakes : task.takes = false → w.batch = [])
    (htarget : ∀ call ∈ task.target, call ∈ w.task.target) : Queue { w with task } where
  order := by
    show entries w.received = w.settled ++ task.held ++ w.batch
    rw [hheld, h.order]
  sent := h.sent
  lost _ := h.lost htask
  exited hclosed := absurd hclosed hexited
  emptied := htakes
  target call hcall := h.target call (htarget call hcall)
  completed := h.completed

/-- The task goes on with a flush. -/
theorem goesOn (h : Queue w) {old task : TaskPhase} (htask : w.task = old)
    (hbusy : old.takes = false) (hopen : old ≠ .exited) (hexited : task ≠ .exited)
    (hheld : task.held = old.held) (htarget : task.target = old.target) :
    Queue { w with task } := by
  subst htask
  refine h.moves hopen hexited hheld (fun _ => h.emptied hbusy) ?_
  intro call hcall
  rwa [htarget] at hcall

/-- The start of a flush, where no request is under way. -/
theorem flushThen (h : Queue w) (hheld : w.task.held = [])
    (hopen : w.task ≠ .exited) {after : After}
    (htarget : ∀ call ∈ after.complete, ∃ before,
      w.received = before ++ [.flush call.1 call.2 true]) : Queue (w.flushThen after) := by
  unfold Writer.flushThen
  have horder := h.order
  rw [hheld, List.append_nil] at horder
  split
  · rename_i hbatch
    exact
      { order := by
          show entries w.received = w.settled ++ after.phase.held ++ w.batch
          simpa using horder
        sent := h.sent
        lost := fun _ => h.lost hopen
        exited := fun hclosed => absurd hclosed after.phase_ne_exited
        emptied := fun _ => hbatch
        target := by simpa using htarget
        completed := h.completed }
  · exact
      { order := by simpa [TaskPhase.held] using horder
        sent := h.sent
        lost := fun _ => h.lost hopen
        exited := fun hclosed => by cases hclosed
        emptied := fun _ => rfl
        target := htarget
        completed := h.completed }

/-- The task takes a request. -/
theorem take (h : Queue w) (htask : w.task = .selecting ∨ w.task = .draining) {r : Request}
    {rest : List Request} (hchannel : w.channel = r :: rest) {task : TaskPhase}
    (htask' : task = .selecting ∨ task = .draining) :
    Queue { w.take r rest with batch := w.batch ++ entries [r], task } := by
  obtain ⟨-, hheld, -, hopen⟩ := takes_of htask
  obtain ⟨htakes', hheld', htarget', hopen'⟩ := takes_of htask'
  exact
    { order := by
        show entries (w.received ++ [r]) = w.settled ++ task.held ++ (w.batch ++ entries [r])
        rw [entries_append, h.order, hheld, hheld', List.append_assoc]
      sent := by
        show w.sent = (w.received ++ [r]) ++ rest ++ w.lost
        rw [h.sent, hchannel]
        simp
      lost := fun _ => h.lost hopen
      exited := fun hclosed => absurd hclosed hopen'
      emptied := fun hbusy => by simp [htakes'] at hbusy
      target := by simp [htarget']
      completed := h.completed }

/-- **One step keeps the order.** -/
theorem step {w' : Writer} {outs : List WriterOutput} (hstep : WriterStep w w' outs) (h : Queue w) :
    Queue w' := by
  cases hstep with
  | stutter => exact h
  | cloned => exact h.congr rfl rfl rfl rfl rfl rfl rfl rfl
  | moved => exact h.congr rfl rfl rfl rfl rfl rfl rfl rfl
  | beganSend => exact h.congr rfl rfl rfl rfl rfl rfl rfl rfl
  | beganFlush => exact h.congr rfl rfl rfl rfl rfl rfl rfl rfl
  | sent _ hopen => exact (h.push hopen _).congr rfl rfl rfl rfl rfl rfl rfl rfl
  | refused => exact h.congr rfl rfl rfl rfl rfl rfl rfl rfl
  | bounced => exact h.congr rfl rfl rfl rfl rfl rfl rfl rfl
  | dropped => exact h.congr rfl rfl rfl rfl rfl rfl rfl rfl
  | queued => exact h.congr rfl rfl rfl rfl rfl rfl rfl rfl
  | asked _ hopen => exact (h.push hopen _).congr rfl rfl rfl rfl rfl rfl rfl rfl
  | stopped _ hopen => exact (h.push hopen _).congr rfl rfl rfl rfl rfl rfl rfl rfl
  | tookItem htask hchannel => exact h.take htask hchannel htask
  | tookShutdown htask hchannel =>
    have htook := h.take htask hchannel (.inr rfl : TaskPhase.draining = .selecting ∨ _)
    exact htook.congr rfl rfl rfl rfl (by simp [entries, Request.entry?, Writer.take]) rfl rfl rfl
  | @tookFlush c id wait rest next htask hchannel =>
    obtain ⟨-, hheld, -, hopen⟩ := takes_of htask
    have htook : Queue (w.take (.flush c id wait) rest) :=
      (h.take htask hchannel htask).congr rfl rfl rfl rfl
        (by simp [entries, Request.entry?, Writer.take]) rfl rfl rfl
    refine htook.flushThen hheld hopen ?_
    intro call hcall
    cases wait with
    | false => cases hcall
    | true =>
      cases hcall
      exact ⟨w.received, rfl⟩
  | flushing htask =>
    obtain ⟨-, hheld, -, hopen⟩ := takes_of htask
    exact h.flushThen hheld hopen (by simp)
  | @persisted entry rest after ok stored breaker inserted htask =>
    have hmoved : Queue { w with task := .settling entry ok rest after } :=
      h.goesOn htask rfl (by simp) (by simp) rfl rfl
    exact hmoved.congr rfl rfl rfl rfl rfl rfl rfl rfl
  | @batchDone after htask =>
    have hmoved : Queue { w with task := after.phase } :=
      h.goesOn htask rfl (by simp) after.phase_ne_exited (by rw [After.held_phase]; rfl)
        (by rw [After.target_phase]; rfl)
    exact hmoved.congr rfl rfl rfl rfl rfl rfl rfl rfl
  | @lowered entry ok rest after htask =>
    have hmoved : Queue { w with task := .counting entry ok rest after } :=
      h.goesOn htask rfl (by simp) (by simp) rfl rfl
    exact hmoved.congr rfl rfl rfl rfl rfl rfl rfl rfl
  | @counted entry ok rest after htask =>
    have hbatch : w.batch = [] := h.emptied (by rw [htask]; rfl)
    have horder : entries w.received = w.settled ++ [entry] ++ rest ++ w.batch := by
      rw [h.order, htask]
      simp [TaskPhase.held]
    have hsettled : ∀ call ∈ w.completed, Drained w.sent (w.settled ++ [entry]) call := by
      intro call hcall
      obtain ⟨before, more, hsent, hbefore⟩ := h.completed call hcall
      exact ⟨before, more, hsent, fun e he => List.mem_append_left _ (hbefore e he)⟩
    have hcount : ∀ task : TaskPhase, task.held = rest → task.target = after.complete →
        task ≠ .exited → Queue { w with settled := w.settled ++ [entry], task } := by
      intro task hheld htarget hopen
      exact
        { order := by
            show entries w.received = w.settled ++ [entry] ++ task.held ++ w.batch
            rw [hheld, horder]
          sent := h.sent
          lost := fun _ => h.lost (by simp [htask])
          exited := fun hclosed => absurd hclosed hopen
          emptied := fun _ => hbatch
          target := by
            show ∀ call ∈ task.target, _
            rw [htarget]
            have hold := h.target
            rwa [htask] at hold
          completed := hsettled }
    unfold Writer.count
    split_ifs
    · exact (hcount (.flushing rest after) rfl rfl (by simp)).congr rfl rfl rfl rfl rfl rfl rfl rfl
    · exact (hcount (.dropping rest after) rfl rfl (by simp)).congr rfl rfl rfl rfl rfl rfl rfl rfl
    · exact (hcount (.flushing rest after) rfl rfl (by simp)).congr rfl rfl rfl rfl rfl rfl rfl rfl
  | @droppedWrite rest after htask =>
    have hmoved : Queue { w with task := .flushing rest after } :=
      h.goesOn htask rfl (by simp) (by simp) rfl rfl
    exact hmoved.congr rfl rfl rfl rfl rfl rfl rfl rfl
  | @completed call next htask =>
    have hbatch : w.batch = [] := h.emptied (by rw [htask]; rfl)
    have hmoved := h.moves (by simp [htask]) next.phase_ne_exited
      (by rw [htask, Next.held_phase]; rfl) (fun _ => hbatch) (by simp)
    obtain ⟨before, hreceived⟩ := h.target call (by rw [htask]; rfl)
    -- Nothing is held or in the batch, so all that was received is settled.
    have horder := h.order
    rw [htask, hbatch, hreceived, entries_append] at horder
    have hdrained : Drained w.sent w.settled call := by
      refine ⟨before, w.channel ++ w.lost, by rw [h.sent, hreceived]; simp, ?_⟩
      intro e he
      have hmem : e ∈ entries before ++ entries [.flush call.1 call.2 true] :=
        List.mem_append_left _ he
      rw [horder] at hmem
      simpa [TaskPhase.held] using hmem
    exact
      { hmoved with
        completed := by
          intro call' hcall'
          rcases List.mem_append.mp hcall' with hold | hnew
          · exact h.completed call' hold
          · obtain rfl := List.mem_singleton.mp hnew
            exact hdrained }
  | @exited htask =>
    have horder := h.order
    rw [htask] at horder
    exact
      { order := horder
        sent := by
          show w.sent = w.received ++ [] ++ w.channel
          rw [h.sent, h.lost (by simp [htask])]
          simp
        lost := fun hopen => absurd rfl hopen
        exited := fun _ => rfl
        emptied := fun _ => h.emptied (by rw [htask]; rfl)
        target := by simp [TaskPhase.target]
        completed := h.completed }
  | @tookFull entry rest next htask hchannel =>
    obtain ⟨-, hheld, -, hopen⟩ := takes_of htask
    have htook := h.take htask hchannel htask
    exact htook.flushThen hheld hopen (by simp)

end Queue

/-! ### The counters -/

/-- What a send under way has added to `pending` for an item that is not in the channel. -/
def CallerPhase.owes : CallerPhase → Nat
  | .sending _ | .bounced _ => 1
  | _ => 0

/-- What a send under way still owes `messages_queued`. -/
def CallerPhase.lag : CallerPhase → Nat
  | .sending _ | .dropping _ | .counting _ => 1
  -- Refused and not yet taken back from `pending`: counted twice on the other side.
  | .bounced _ => 2
  | _ => 0

/-- The items of a flush that `pending` still counts. -/
def TaskPhase.owed : TaskPhase → Nat
  | .flushing rest _ | .counting _ _ rest _ | .dropping rest _ => rest.length
  | .settling _ _ rest _ => rest.length + 1
  | _ => 0

/-- An item that neither `pending` nor a counter counts. -/
def TaskPhase.lag : TaskPhase → Nat
  | .counting _ _ _ _ => 1
  | _ => 0

@[simp] theorem Next.owed_phase (next : Next) : next.phase.owed = 0 := by
  cases next <;> rfl

@[simp] theorem Next.lag_phase (next : Next) : next.phase.lag = 0 := by
  cases next <;> rfl

@[simp] theorem After.owed_phase (after : After) : after.phase.owed = 0 := by
  unfold After.phase
  split
  · rfl
  · simp

@[simp] theorem After.lag_phase (after : After) : after.phase.lag = 0 := by
  unfold After.phase
  split
  · rfl
  · simp

/-- A caller's share of a sum over all of them. -/
theorem sum_set {callers : List CallerPhase} {c : Nat} {phase : CallerPhase}
    (h : callers[c]? = some phase) (phase' : CallerPhase) (f : CallerPhase → Nat) :
    ((callers.set c phase').map f).sum + f phase = (callers.map f).sum + f phase' := by
  induction callers generalizing c with
  | nil => simp at h
  | cons head callers ih =>
    cases c with
    | zero =>
      obtain rfl : head = phase := by simpa using h
      simp only [List.set_cons_zero, List.map_cons, List.sum_cons]
      omega
    | succ c =>
      have hrest := ih (c := c) (by simpa using h)
      simp only [List.set_cons_succ, List.map_cons, List.sum_cons]
      omega

/-- **The counters.**  `pending` counts what was sent and is not settled, what was lost with the task
included; and `messages_queued` is the sum of the others. -/
structure Accounts (w : Writer) : Prop where
  pending : w.pending = (w.callers.map CallerPhase.owes).sum + (entries w.channel).length +
    (entries w.lost).length + w.batch.length + w.task.owed
  balance : w.metrics.messagesQueued + (w.callers.map CallerPhase.lag).sum =
    w.metrics.messagesWritten + w.metrics.writeErrors + w.refused.length + w.pending + w.task.lag

namespace Accounts

variable {w : Writer}

theorem caller (h : Accounts w) {c : Nat} {phase phase' : CallerPhase}
    (hcaller : w.callers[c]? = some phase) (howes : phase'.owes = phase.owes)
    (hlag : phase'.lag = phase.lag) : Accounts (w.setCaller c phase') := by
  have hsum := sum_set hcaller phase' CallerPhase.owes
  have hsum' := sum_set hcaller phase' CallerPhase.lag
  have hpending := h.pending
  have hbalance := h.balance
  constructor
  · simp only [Writer.setCaller]
    omega
  · simp only [Writer.setCaller]
    omega

theorem flushThen (h : Accounts w) (htask : w.task = .selecting ∨ w.task = .draining)
    (after : After) : Accounts (w.flushThen after) := by
  have howed : w.task.owed = 0 ∧ w.task.lag = 0 := by
    rcases htask with htask | htask <;> rw [htask] <;> exact ⟨rfl, rfl⟩
  have hpending := h.pending
  have hbalance := h.balance
  unfold Writer.flushThen
  split
  · exact ⟨by simp only [After.owed_phase]; omega, by simp only [After.lag_phase]; omega⟩
  · exact ⟨by simp only [TaskPhase.owed, List.length_nil]; omega,
      by simp only [TaskPhase.lag]; omega⟩

/-- An item goes from the channel to the batch. -/
theorem take (h : Accounts w) {entry : Entry} {rest : List Request}
    (hchannel : w.channel = .item entry :: rest) :
    Accounts { w.take (.item entry) rest with batch := w.batch ++ [entry] } := by
  obtain ⟨hpending, hbalance⟩ := h
  rw [hchannel] at hpending
  have hentry : (entries (.item entry :: rest)).length = (entries rest).length + 1 := rfl
  constructor
  · simp only [Writer.take, List.length_append, List.length_singleton]
    omega
  · exact hbalance

/-- **One step keeps the counters.** -/
theorem step {w' : Writer} {outs : List WriterOutput} (hstep : WriterStep w w' outs)
    (hq : Queue w) (h : Accounts w) : Accounts w' := by
  cases hstep with
  | stutter => exact h
  | cloned =>
    obtain ⟨hpending, hbalance⟩ := h
    constructor
    · simpa [CallerPhase.owes] using hpending
    · simpa [CallerPhase.lag] using hbalance
  | @moved c phase phase' outs hcaller hphase hphase' =>
    -- a resting caller owes nothing
    have hnone : ∀ phase : CallerPhase, (phase.rests = true ∨
        (∃ id wait, phase = .flushing id wait) ∨ ∃ id, phase = .awaiting id) →
        phase.owes = 0 ∧ phase.lag = 0 := by
      intro phase hphase
      cases phase with
      | sending => simp [CallerPhase.rests] at hphase
      | bounced => simp [CallerPhase.rests] at hphase
      | dropping => simp [CallerPhase.rests] at hphase
      | counting => simp [CallerPhase.rests] at hphase
      | _ => exact ⟨rfl, rfl⟩
    obtain ⟨howes, hlag⟩ := hnone phase hphase
    obtain ⟨howes', hlag'⟩ := hnone phase' (.inl hphase')
    exact h.caller hcaller (by rw [howes, howes']) (by rw [hlag, hlag'])
  | @beganSend c item hcaller =>
    -- the sums over the callers change by this caller's part alone
    have hsum := sum_set hcaller (.sending ⟨c, w.calls, item⟩) CallerPhase.owes
    have hsum' := sum_set hcaller (.sending ⟨c, w.calls, item⟩) CallerPhase.lag
    obtain ⟨hpending, hbalance⟩ := h
    simp only [CallerPhase.owes, CallerPhase.lag] at hsum hsum'
    constructor
    · simp only [Writer.setCaller]
      omega
    · simp only [Writer.setCaller]
      omega
  | @beganFlush c wait hcaller =>
    have hcalled : Accounts (w.setCaller c (.flushing w.calls wait)) := h.caller hcaller rfl rfl
    exact ⟨hcalled.pending, hcalled.balance⟩
  | @sent c entry hcaller hopen =>
    have hsum := sum_set hcaller (.counting entry) CallerPhase.owes
    have hsum' := sum_set hcaller (.counting entry) CallerPhase.lag
    obtain ⟨hpending, hbalance⟩ := h
    simp only [CallerPhase.owes, CallerPhase.lag] at hsum hsum'
    -- the item is in the channel, and its count still to come
    have hentry : (entries [.item entry]).length = 1 := rfl
    constructor
    · simp only [Writer.setCaller, Writer.push, entries_append, List.length_append, hentry]
      omega
    · simp only [Writer.setCaller, Writer.push]
      omega
  | @refused c entry hcaller hclosed =>
    have hsum := sum_set hcaller (.bounced entry) CallerPhase.owes
    have hsum' := sum_set hcaller (.bounced entry) CallerPhase.lag
    obtain ⟨hpending, hbalance⟩ := h
    simp only [CallerPhase.owes, CallerPhase.lag] at hsum hsum'
    constructor
    · simp only [Writer.setCaller]
      omega
    · simp only [Writer.setCaller, List.length_append, List.length_singleton]
      omega
  | @bounced c entry phase' hcaller hphase' =>
    have hsum := sum_set hcaller phase' CallerPhase.owes
    have hsum' := sum_set hcaller phase' CallerPhase.lag
    -- a bounced item is counted as dropped next
    have hone : phase'.owes = 0 ∧ phase'.lag = 1 := by
      rcases hphase' with rfl | rfl <;> exact ⟨rfl, rfl⟩
    obtain ⟨hpending, hbalance⟩ := h
    rw [hone.1] at hsum
    rw [hone.2] at hsum'
    simp only [CallerPhase.owes, CallerPhase.lag] at hsum hsum'
    constructor
    · simp only [Writer.setCaller]
      omega
    · simp only [Writer.setCaller]
      omega
  | @dropped c entry hcaller =>
    have hcalled : Accounts (w.setCaller c (.counting entry)) := h.caller hcaller rfl rfl
    exact ⟨hcalled.pending, hcalled.balance⟩
  | @queued c entry hcaller =>
    have hsum := sum_set hcaller .idle CallerPhase.owes
    have hsum' := sum_set hcaller .idle CallerPhase.lag
    obtain ⟨hpending, hbalance⟩ := h
    simp only [CallerPhase.owes, CallerPhase.lag] at hsum hsum'
    constructor
    · simp only [Writer.setCaller]
      omega
    · simp only [Writer.setCaller]
      omega
  | @asked c id wait hcaller hopen =>
    have hphase : ∀ wait : Bool, (if wait then CallerPhase.awaiting id else .idle).owes = 0 ∧
        (if wait then CallerPhase.awaiting id else .idle).lag = 0 := by
      intro wait
      cases wait <;> exact ⟨rfl, rfl⟩
    have hcalled := h.caller hcaller (hphase wait).1 (hphase wait).2
    -- a flush request is no entry
    have hentry : (entries [.flush c id wait]).length = 0 := rfl
    obtain ⟨hpending, hbalance⟩ := hcalled
    constructor
    · simp only [Writer.setCaller, Writer.push, entries_append, List.length_append, hentry] at hpending ⊢
      omega
    · exact hbalance
  | @stopped c hcaller hopen =>
    have hcalled : Accounts (w.setCaller c .idle) := h.caller hcaller rfl rfl
    have hentry : (entries [.shutdown]).length = 0 := rfl
    obtain ⟨hpending, hbalance⟩ := hcalled
    constructor
    · simp only [Writer.setCaller, Writer.push, entries_append, List.length_append, hentry] at hpending ⊢
      omega
    · exact hbalance
  | tookItem htask hchannel => exact h.take hchannel
  | @tookShutdown rest htask hchannel =>
    obtain ⟨hpending, hbalance⟩ := h
    -- the task owes nothing when it takes the shutdown
    have howed : w.task.owed = 0 ∧ w.task.lag = 0 := by
      rcases htask with htask | htask <;> rw [htask] <;> exact ⟨rfl, rfl⟩
    rw [hchannel] at hpending
    have hentry : entries (.shutdown :: rest) = entries rest := rfl
    constructor
    · simp only [Writer.take, TaskPhase.owed]
      rw [hentry] at hpending
      omega
    · simp only [Writer.take, TaskPhase.lag]
      omega
  | @tookFlush c id wait rest next htask hchannel =>
    have htook : Accounts (w.take (.flush c id wait) rest) := by
      obtain ⟨hpending, hbalance⟩ := h
      rw [hchannel] at hpending
      exact ⟨hpending, hbalance⟩
    exact htook.flushThen htask _
  | flushing htask => exact h.flushThen htask _
  | @persisted entry rest after ok stored breaker inserted htask =>
    obtain ⟨hpending, hbalance⟩ := h
    rw [htask] at hpending hbalance
    exact ⟨hpending, hbalance⟩
  | @batchDone after htask =>
    obtain ⟨hpending, hbalance⟩ := h
    rw [htask] at hpending hbalance
    exact ⟨by rw [After.owed_phase]; exact hpending, by rw [After.lag_phase]; exact hbalance⟩
  | @lowered entry ok rest after htask =>
    obtain ⟨hpending, hbalance⟩ := h
    rw [htask] at hpending hbalance
    simp only [TaskPhase.owed, TaskPhase.lag] at hpending hbalance
    constructor
    · simp only [TaskPhase.owed]
      omega
    · simp only [TaskPhase.lag]
      omega
  | @counted entry ok rest after htask =>
    obtain ⟨hpending, hbalance⟩ := h
    rw [htask] at hpending hbalance
    simp only [TaskPhase.owed, TaskPhase.lag] at hpending hbalance
    unfold Writer.count
    split_ifs
    · exact ⟨hpending, by simp only [TaskPhase.lag]; omega⟩
    · exact ⟨hpending, by simp only [TaskPhase.lag]; omega⟩
    · exact ⟨hpending, by simp only [TaskPhase.lag]; omega⟩
  | @droppedWrite rest after htask =>
    obtain ⟨hpending, hbalance⟩ := h
    rw [htask] at hpending hbalance
    exact ⟨hpending, hbalance⟩
  | @completed call next htask =>
    obtain ⟨hpending, hbalance⟩ := h
    rw [htask] at hpending hbalance
    exact ⟨by rw [Next.owed_phase]; exact hpending, by rw [Next.lag_phase]; exact hbalance⟩
  -- at its end the channel is lost, and what it held is owed
  | @exited htask =>
    obtain ⟨hpending, hbalance⟩ := h
    rw [htask] at hpending hbalance
    rw [hq.lost (by simp [htask])] at hpending
    refine ⟨?_, hbalance⟩
    rw [hpending]
    exact Nat.add_right_comm _ _ _
  | tookFull htask hchannel => exact (h.take hchannel).flushThen htask _

end Accounts

/-! ### The requests of a caller -/

/-- The call a request comes from. -/
def Request.call? : Request → Option (Nat × Nat)
  | .item entry => some (entry.caller, entry.id)
  | .flush c id _ => some (c, id)
  | .shutdown => none

/-- The calls whose requests were sent, in order. -/
def sentCalls (rs : List Request) : List (Nat × Nat) := rs.filterMap Request.call?

@[simp] theorem sentCalls_append (a b : List Request) :
    sentCalls (a ++ b) = sentCalls a ++ sentCalls b := by
  simp [sentCalls]

theorem mem_sentCalls {rs : List Request} {r : Request} {call : Nat × Nat} (hr : r ∈ rs)
    (hcall : r.call? = some call) : call ∈ sentCalls rs :=
  List.mem_filterMap.mpr ⟨r, hr, hcall⟩

/-- The calls of each caller come with ascending numbers. -/
def CallsAscend (calls : List (Nat × Nat)) : Prop :=
  calls.Pairwise fun a b => a.1 = b.1 → a.2 < b.2

/-- **The requests of a caller.**  A call that has not sent its request yet is the newest of its
caller, and a caller waits for a flush that was sent. -/
structure Keys (w : Writer) : Prop where
  ascend : CallsAscend (sentCalls w.sent)
  below : ∀ call ∈ sentCalls w.sent, call.2 < w.calls
  sending : ∀ (c : Nat) (entry : Entry), w.callers[c]? = some (CallerPhase.sending entry) →
    entry.caller = c ∧ entry.id < w.calls ∧
      ∀ call ∈ sentCalls w.sent, call.1 = c → call.2 < entry.id
  flushing : ∀ (c id : Nat) (wait : Bool), w.callers[c]? = some (CallerPhase.flushing id wait) →
    id < w.calls ∧ ∀ call ∈ sentCalls w.sent, call.1 = c → call.2 < id
  awaiting : ∀ (c id : Nat), w.callers[c]? = some (CallerPhase.awaiting id) →
    .flush c id true ∈ w.sent

/-- The phase of a caller after one of them has changed. -/
theorem setCaller_get {w : Writer} {c c' : Nat} {phase phase' : CallerPhase}
    (h : (w.setCaller c phase').callers[c']? = some phase) :
    c' = c ∧ phase = phase' ∨ c' ≠ c ∧ w.callers[c']? = some phase := by
  simp only [Writer.setCaller, List.getElem?_set] at h
  split_ifs at h with hc hlen
  · exact .inl ⟨hc.symm, (Option.some.inj h).symm⟩
  · exact .inr ⟨fun heq => hc heq.symm, h⟩

namespace Keys

variable {w : Writer}

/-- A caller goes to a phase that stands for no request. -/
theorem caller (h : Keys w) (c : Nat) {phase' : CallerPhase}
    (hsending : ∀ entry, phase' ≠ .sending entry) (hflushing : ∀ id wait, phase' ≠ .flushing id wait)
    (hawaiting : ∀ id, phase' ≠ .awaiting id) : Keys (w.setCaller c phase') where
  ascend := h.ascend
  below := h.below
  sending c' entry hc' := by
    rcases setCaller_get hc' with ⟨-, heq⟩ | ⟨-, hc'⟩
    · exact absurd heq.symm (hsending entry)
    · exact h.sending c' entry hc'
  flushing c' id wait hc' := by
    rcases setCaller_get hc' with ⟨-, heq⟩ | ⟨-, hc'⟩
    · exact absurd heq.symm (hflushing id wait)
    · exact h.flushing c' id wait hc'
  awaiting c' id hc' := by
    rcases setCaller_get hc' with ⟨-, heq⟩ | ⟨-, hc'⟩
    · exact absurd heq.symm (hawaiting id)
    · exact h.awaiting c' id hc'

/-- The newest call of a caller sends its request. -/
theorem push (h : Keys w) {c n : Nat} {r : Request} (hr : r.call? = some (c, n)) (hn : n < w.calls)
    (hnew : ∀ call ∈ sentCalls w.sent, call.1 = c → call.2 < n) {phase' : CallerPhase}
    (hsending : ∀ entry, phase' ≠ .sending entry) (hflushing : ∀ id wait, phase' ≠ .flushing id wait)
    (hawaiting : ∀ id, phase' = .awaiting id → r = .flush c id true) :
    Keys ((w.push r).setCaller c phase') := by
  have hcalls : sentCalls (w.push r).sent = sentCalls w.sent ++ [(c, n)] := by
    show sentCalls (w.sent ++ [r]) = _
    rw [sentCalls_append]
    simp [sentCalls, hr]
  -- callers other than this one are not affected
  have hother : ∀ c', c' ≠ c → ∀ m, (∀ call ∈ sentCalls w.sent, call.1 = c' → call.2 < m) →
      ∀ call ∈ sentCalls (w.push r).sent, call.1 = c' → call.2 < m := by
    intro c' hne m hm call hcall heq
    rw [hcalls, List.mem_append, List.mem_singleton] at hcall
    rcases hcall with hcall | rfl
    · exact hm call hcall heq
    · exact absurd heq.symm hne
  refine ⟨?_, ?_, ?_, ?_, ?_⟩
  · -- the new call comes last
    show CallsAscend (sentCalls (w.push r).sent)
    rw [hcalls]
    refine List.pairwise_append.mpr ⟨h.ascend, List.pairwise_singleton _ _, ?_⟩
    intro call hcall call' hcall' heq
    obtain rfl := List.mem_singleton.mp hcall'
    exact hnew call hcall heq
  · show ∀ call ∈ sentCalls (w.push r).sent, call.2 < w.calls
    rw [hcalls]
    intro call hcall
    rcases List.mem_append.mp hcall with hcall | hcall
    · exact h.below call hcall
    · obtain rfl := List.mem_singleton.mp hcall
      exact hn
  · intro c' entry hc'
    rcases setCaller_get hc' with ⟨-, heq⟩ | ⟨hne, hc'⟩
    · exact absurd heq.symm (hsending entry)
    · obtain ⟨hcaller, hlt, hbefore⟩ := h.sending c' entry hc'
      exact ⟨hcaller, hlt, hother c' hne _ hbefore⟩
  · intro c' id wait hc'
    rcases setCaller_get hc' with ⟨-, heq⟩ | ⟨hne, hc'⟩
    · exact absurd heq.symm (hflushing id wait)
    · obtain ⟨hlt, hbefore⟩ := h.flushing c' id wait hc'
      exact ⟨hlt, hother c' hne _ hbefore⟩
  · intro c' id hc'
    show _ ∈ w.sent ++ [r]
    rcases setCaller_get hc' with ⟨rfl, heq⟩ | ⟨-, hc'⟩
    · rw [hawaiting id heq.symm]
      simp
    · exact List.mem_append_left _ (h.awaiting c' id hc')

/-- A state with the same callers, calls and requests. -/
theorem congr (h : Keys w) {w' : Writer} (hcallers : w'.callers = w.callers)
    (hcalls : w'.calls = w.calls) (hsent : w'.sent = w.sent) : Keys w' where
  ascend := by rw [hsent]; exact h.ascend
  below := by rw [hsent, hcalls]; exact h.below
  sending := by rw [hcallers, hsent, hcalls]; exact h.sending
  flushing := by rw [hcallers, hsent, hcalls]; exact h.flushing
  awaiting := by rw [hcallers, hsent]; exact h.awaiting

/-- One more call is begun, in a phase that stands for its request. -/
theorem begin (h : Keys w) (c : Nat) {phase' : CallerPhase}
    (hsending : ∀ entry, phase' = .sending entry → entry.caller = c ∧ entry.id = w.calls)
    (hflushing : ∀ id wait, phase' = .flushing id wait → id = w.calls)
    (hawaiting : ∀ id, phase' ≠ .awaiting id) :
    Keys { w.setCaller c phase' with calls := w.calls + 1 } where
  ascend := h.ascend
  below call hcall := (h.below call hcall).trans (Nat.lt_succ_self _)
  sending c' entry hc' := by
    rcases setCaller_get hc' with ⟨rfl, heq⟩ | ⟨-, hc'⟩
    · obtain ⟨hcaller, hid⟩ := hsending entry heq.symm
      rw [hid]
      exact ⟨hcaller, Nat.lt_succ_self _, fun call hcall _ => h.below call hcall⟩
    · obtain ⟨hcaller, hlt, hbefore⟩ := h.sending c' entry hc'
      exact ⟨hcaller, hlt.trans (Nat.lt_succ_self _), hbefore⟩
  flushing c' id wait hc' := by
    rcases setCaller_get hc' with ⟨rfl, heq⟩ | ⟨-, hc'⟩
    · rw [hflushing id wait heq.symm]
      exact ⟨Nat.lt_succ_self _, fun call hcall _ => h.below call hcall⟩
    · obtain ⟨hlt, hbefore⟩ := h.flushing c' id wait hc'
      exact ⟨hlt.trans (Nat.lt_succ_self _), hbefore⟩
  awaiting c' id hc' := by
    rcases setCaller_get hc' with ⟨-, heq⟩ | ⟨-, hc'⟩
    · exact absurd heq.symm (hawaiting id)
    · exact h.awaiting c' id hc'

theorem flushThen (h : Keys w) (after : After) : Keys (w.flushThen after) := by
  unfold Writer.flushThen
  split
  · exact h.congr rfl rfl rfl
  · exact h.congr rfl rfl rfl

/-- **One step keeps the requests of the callers apart.** -/
theorem step {w' : Writer} {outs : List WriterOutput} (hstep : WriterStep w w' outs) (h : Keys w) :
    Keys w' := by
  cases hstep with
  | stutter => exact h
  | @cloned =>
    have hget : ∀ (c : Nat) (phase : CallerPhase), (w.callers ++ [.idle])[c]? = some phase →
        phase = .idle ∨ w.callers[c]? = some phase := by
      intro c phase hc
      -- the clone is the last caller, and idle
      rw [List.getElem?_append] at hc
      split_ifs at hc with hlt
      · exact .inr hc
      · left
        have hmem := List.mem_of_getElem? hc
        simpa using hmem
    exact
      { ascend := h.ascend
        below := h.below
        sending := fun c entry hc => h.sending c entry ((hget c _ hc).resolve_left (by simp))
        flushing := fun c id wait hc => h.flushing c id wait ((hget c _ hc).resolve_left (by simp))
        awaiting := fun c id hc => h.awaiting c id ((hget c _ hc).resolve_left (by simp)) }
  | @moved c phase phase' outs hcaller hphase hphase' =>
    refine h.caller c ?_ ?_ ?_
    · rintro entry rfl
      cases hphase'
    · rintro id wait rfl
      cases hphase'
    · rintro id rfl
      cases hphase'
  | @beganSend c item hcaller =>
    have hbegun : Keys { w.setCaller c (.sending ⟨c, w.calls, item⟩) with calls := w.calls + 1 } := by
      refine h.begin c ?_ ?_ ?_
      · rintro entry ⟨⟩
        exact ⟨rfl, rfl⟩
      · simp
      · simp
    exact hbegun.congr rfl rfl rfl
  | @beganFlush c wait hcaller =>
    refine h.begin c ?_ ?_ ?_
    · simp
    · rintro id wait ⟨⟩
      rfl
    · simp
  | @sent c entry hcaller hopen =>
    obtain ⟨hown, hlt, hbefore⟩ := h.sending c entry hcaller
    have hcall : (Request.item entry).call? = some (c, entry.id) := by
      simp [Request.call?, hown]
    refine h.push hcall hlt hbefore ?_ ?_ ?_
    · simp
    · simp
    · simp
  | @refused c entry hcaller hclosed =>
    exact (h.caller c (by simp) (by simp) (by simp)).congr rfl rfl rfl
  | @bounced c entry phase' hcaller hphase' =>
    have hmoved : Keys (w.setCaller c phase') := by
      rcases hphase' with rfl | rfl
      · exact h.caller c (by simp) (by simp) (by simp)
      · exact h.caller c (by simp) (by simp) (by simp)
    exact hmoved.congr rfl rfl rfl
  | @dropped c entry hcaller =>
    exact (h.caller c (by simp) (by simp) (by simp)).congr rfl rfl rfl
  | @queued c entry hcaller =>
    exact (h.caller c (by simp) (by simp) (by simp)).congr rfl rfl rfl
  -- the request carries the number of the call
  | @asked c id wait hcaller hopen =>
    obtain ⟨hlt, hbefore⟩ := h.flushing c id wait hcaller
    refine h.push rfl hlt hbefore ?_ ?_ ?_
    · intro entry
      cases wait <;> simp
    · intro id' wait'
      cases wait <;> simp
    · intro id' hid'
      cases wait with
      | false => cases hid'
      | true =>
        cases hid'
        rfl
  | @stopped c hcaller hopen =>
    have hpushed : Keys (w.push .shutdown) := by
      have hcalls : sentCalls (w.push .shutdown).sent = sentCalls w.sent := by
        -- a shutdown belongs to no call
        show sentCalls (w.sent ++ [.shutdown]) = _
        rw [sentCalls_append]
        simp [sentCalls, Request.call?]
      exact
        { ascend := by rw [hcalls]; exact h.ascend
          below := by rw [hcalls]; exact h.below
          sending := by rw [hcalls]; exact h.sending
          flushing := by rw [hcalls]; exact h.flushing
          awaiting := fun c id hc => List.mem_append_left _ (h.awaiting c id hc) }
    exact hpushed.caller c (by simp) (by simp) (by simp)
  | tookItem => exact h.congr rfl rfl rfl
  | tookShutdown => exact h.congr rfl rfl rfl
  | tookFlush =>
    refine Keys.flushThen ?_ _
    exact h.congr rfl rfl rfl
  | flushing => exact h.flushThen _
  | persisted => exact h.congr rfl rfl rfl
  | batchDone => exact h.congr rfl rfl rfl
  | lowered => exact h.congr rfl rfl rfl
  | @counted entry ok rest after htask =>
    unfold Writer.count
    split
    · exact h.congr rfl rfl rfl
    · exact h.congr rfl rfl rfl
  | droppedWrite => exact h.congr rfl rfl rfl
  | completed => exact h.congr rfl rfl rfl
  | exited => exact h.congr rfl rfl rfl
  | tookFull =>
    refine Keys.flushThen ?_ _
    exact h.congr rfl rfl rfl

end Keys

end AgentHub.Postgres
