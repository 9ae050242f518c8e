import AgentHub.Postgres.Equiv.Writer

/-!
# What a flush promises

`writer_accounts`: the counters add up at every quiescent point, and a flush that returned `true`
settled what its caller had sent before it, unless some of that was in the channel when the task
returned.
-/

namespace AgentHub.Postgres

/-! ### What a step leaves in place -/

/-- What is remembered of a state stays in a later one. -/
structure Grows (w w' : Writer) : Prop where
  sent : w.sent <+: w'.sent
  settled : w.settled ⊆ w'.settled
  completed : w.completed ⊆ w'.completed
  exited : w.task = .exited → w'.task = .exited

/-- What was lost, if the task has returned: nothing more once it has, and its channel where it
does. -/
def LostFrom (w w' : Writer) : Prop :=
  w'.task = .exited → w.task = .exited ∧ w'.lost = w.lost ∨ w.task = .leaving ∧ w'.lost = w.channel

section Step

variable {w : Writer}

/-- A step that only the callers or the counters see. -/
theorem Grows.congr {w' : Writer} (hsent : w'.sent = w.sent) (hsettled : w'.settled = w.settled)
    (hcompleted : w'.completed = w.completed) (hexited : w.task = .exited → w'.task = .exited) :
    Grows w w' where
  sent := by rw [hsent]
  settled := by rw [hsettled]; exact List.Subset.refl _
  completed := by rw [hcompleted]; exact List.Subset.refl _
  exited := hexited

theorem Grows.trans {w₁ w₂ w₃ : Writer} (h : Grows w₁ w₂) (h' : Grows w₂ w₃) : Grows w₁ w₃ where
  sent := h.sent.trans h'.sent
  settled := List.Subset.trans h.settled h'.settled
  completed := List.Subset.trans h.completed h'.completed
  exited hexited := h'.exited (h.exited hexited)

theorem Grows.push (r : Request) : Grows w (w.push r) where
  sent := List.prefix_append _ _
  settled := List.Subset.refl _
  completed := List.Subset.refl _
  exited := id

theorem flushThen_task_ne (after : After) : (w.flushThen after).task ≠ .exited := by
  unfold Writer.flushThen
  split
  · exact after.phase_ne_exited
  · simp

theorem Grows.flushThen (after : After) (hopen : w.task ≠ .exited) :
    Grows w (w.flushThen after) := by
  unfold Writer.flushThen
  split
  · exact .congr rfl rfl rfl fun hexited => absurd hexited hopen
  · exact .congr rfl rfl rfl fun hexited => absurd hexited hopen

/-- Nothing is forgotten in a step. -/
theorem WriterStep.grows {w' : Writer} {outs : List WriterOutput} (hstep : WriterStep w w' outs) :
    Grows w w' := by
  cases hstep with
  | stutter => exact .congr rfl rfl rfl id
  | cloned => exact .congr rfl rfl rfl id
  | moved => exact .congr rfl rfl rfl id
  | beganSend => exact .congr rfl rfl rfl id
  | beganFlush => exact .congr rfl rfl rfl id
  -- the channel grows by what is sent
  | sent => exact (Grows.push _).trans (.congr rfl rfl rfl id)
  | refused => exact .congr rfl rfl rfl id
  | bounced => exact .congr rfl rfl rfl id
  | dropped => exact .congr rfl rfl rfl id
  | queued => exact .congr rfl rfl rfl id
  | asked => exact (Grows.push _).trans (.congr rfl rfl rfl id)
  | stopped => exact (Grows.push _).trans (.congr rfl rfl rfl id)
  | tookItem => exact .congr rfl rfl rfl id
  | tookShutdown htask =>
    exact .congr rfl rfl rfl fun hexited => absurd hexited (takes_of htask).2.2.2
  | @tookFlush c id wait rest next htask =>
    have htook : Grows w (w.take (.flush c id wait) rest) := .congr rfl rfl rfl fun h => h
    exact htook.trans (.flushThen _ (takes_of htask).2.2.2)
  | flushing htask => exact .flushThen _ (takes_of htask).2.2.2
  | persisted htask => exact .congr rfl rfl rfl (by simp [htask])
  | batchDone htask => exact .congr rfl rfl rfl (by simp [htask])
  | lowered htask => exact .congr rfl rfl rfl (by simp [htask])
  | @counted entry ok rest after htask =>
    -- an item is settled when it has been counted
    have hcounted : ∀ task metrics, Grows w
        { w with metrics, settled := w.settled ++ [entry], task } := by
      intro task metrics
      exact
        { sent := List.prefix_rfl
          settled := List.subset_append_left _ _
          completed := List.Subset.refl _
          exited := by simp [htask] }
    unfold Writer.count
    split
    · exact hcounted _ _
    · exact hcounted _ _
  | droppedWrite htask => exact .congr rfl rfl rfl (by simp [htask])
  | completed htask =>
    -- a call is completed once
    exact
      { sent := List.prefix_rfl
        settled := List.Subset.refl _
        completed := List.subset_append_left _ _
        exited := by simp [htask] }
  | exited htask => exact .congr rfl rfl rfl fun _ => rfl
  | @tookFull entry rest next htask =>
    have htook : Grows w { w.take (.item entry) rest with batch := w.batch ++ [entry] } :=
      .congr rfl rfl rfl fun h => h
    exact htook.trans (.flushThen _ (takes_of htask).2.2.2)

theorem WriterStep.lostFrom {w' : Writer} {outs : List WriterOutput}
    (hstep : WriterStep w w' outs) : LostFrom w w' := by
  intro hexited
  cases hstep with
  | tookShutdown => cases hexited
  | tookFlush => exact absurd hexited (flushThen_task_ne _)
  | flushing => exact absurd hexited (flushThen_task_ne _)
  | persisted => cases hexited
  | @batchDone after => exact absurd hexited after.phase_ne_exited
  | lowered => cases hexited
  | @counted entry ok rest after =>
    unfold Writer.count at hexited
    split_ifs at hexited
  | droppedWrite => cases hexited
  | @completed call next => exact absurd hexited next.phase_ne_exited
  | exited htask => exact .inr ⟨htask, rfl⟩
  | tookFull => exact absurd hexited (flushThen_task_ne _)
  | _ => exact .inl ⟨hexited, rfl⟩

/-- What a step that answers a flush with `true` goes by. -/
theorem WriterStep.flushed {w' : Writer} {outs : List WriterOutput} (hstep : WriterStep w w' outs)
    (hkeys : Keys w) {c n : Nat} (h : .flushed c n true ∈ outs) :
    .flush c n true ∈ w.sent ∧ ((c, n) ∈ w.completed ∨ w.task = .exited) := by
  cases hstep with
  | moved hcaller hphase hphase' houts =>
    obtain ⟨n', drained, hanswered, htrue⟩ := houts _ h
    cases hanswered
    obtain ⟨rfl, hanswer⟩ := htrue rfl
    exact ⟨hkeys.awaiting _ _ hcaller, hanswer⟩
  | persisted => simp at h
  | _ => simp at h

end Step

/-! ### Runs -/

/-- **What holds of every run.** -/
structure WriterInv (w : Writer) (outs : List WriterOutput) : Prop where
  queue : Queue w
  accounts : Accounts w
  keys : Keys w
  answered : ∀ c n, .flushed c n true ∈ outs →
    .flush c n true ∈ w.sent ∧ ((c, n) ∈ w.completed ∨ w.task = .exited)

theorem WriterInv.start : WriterInv {} [] where
  queue :=
    { order := rfl
      sent := rfl
      lost := fun _ => rfl
      exited := fun h => by cases h
      emptied := fun _ => rfl
      target := by simp [TaskPhase.target]
      completed := by simp }
  accounts := ⟨rfl, rfl⟩
  keys :=
    { ascend := List.Pairwise.nil
      below := by simp [sentCalls]
      sending := by
        intro c entry h
        cases c <;> simp at h
      flushing := by
        intro c id wait h
        cases c <;> simp at h
      awaiting := by
        intro c id h
        cases c <;> simp at h }
  answered := by simp

theorem WriterInv.step {w w' : Writer} {outs new : List WriterOutput} (h : WriterInv w outs)
    (hstep : WriterStep w w' new) : WriterInv w' (outs ++ new) where
  queue := h.queue.step hstep
  accounts := h.accounts.step hstep h.queue
  keys := h.keys.step hstep
  answered c n hmem := by
    have hbefore : .flush c n true ∈ w.sent ∧ ((c, n) ∈ w.completed ∨ w.task = .exited) := by
      rcases List.mem_append.mp hmem with hold | hnew
      · exact h.answered c n hold
      · exact hstep.flushed h.keys hnew
    obtain ⟨hsent, hanswer⟩ := hbefore
    have hgrows := hstep.grows
    refine ⟨hgrows.sent.subset hsent, ?_⟩
    rcases hanswer with hcompleted | hexited
    · exact .inl (hgrows.completed hcompleted)
    · exact .inr (hgrows.exited hexited)

section Run

variable (parsers : Parsers) (configured : Bool)

theorem writerInv_exec (is : List WriterInput) :
    WriterInv ((Writer.machine parsers configured).exec {} is).1
      ((Writer.machine parsers configured).exec {} is).2 := by
  refine Machine.exec_induction (P := fun _ w outs => WriterInv w outs) _ .start ?_ is
  intro is w outs i h
  exact h.step (writerStep_sound parsers configured w i)

/-- What is lost was in the channel where the task returned. -/
theorem lost_exec (is : List WriterInput)
    (h : ((Writer.machine parsers configured).exec {} is).1.lost ≠ []) :
    ∃ pre i, pre ++ [i] <+: is ∧
      ((Writer.machine parsers configured).exec {} pre).1.task = .leaving ∧
      ((Writer.machine parsers configured).exec {} (pre ++ [i])).1.task = .exited ∧
      ((Writer.machine parsers configured).exec {} is).1.lost =
        ((Writer.machine parsers configured).exec {} pre).1.channel := by
  induction is using List.reverseRecOn with
  | nil => exact absurd rfl h
  | append_singleton is i ih =>
    have hqueue := (writerInv_exec parsers configured (is ++ [i])).queue
    have hexited : ((Writer.machine parsers configured).exec {} (is ++ [i])).1.task = .exited := by
      by_contra hopen
      exact h (hqueue.lost hopen)
    have hstep := writerStep_sound parsers configured
      ((Writer.machine parsers configured).exec {} is).1 i
    have hlost := hstep.lostFrom
    have hnext : ((Writer.machine parsers configured).exec {} (is ++ [i])).1 =
        (Writer.step parsers configured
          ((Writer.machine parsers configured).exec {} is).1 i).1 := by
      rw [Machine.exec_snoc]
      rfl
    rw [← hnext] at hlost
    rcases hlost hexited with ⟨-, hsame⟩ | ⟨hleaving, hchannel⟩
    · rw [hsame] at h ⊢
      obtain ⟨pre, j, hpre, hleaving, hleft, hchannel⟩ := ih h
      exact ⟨pre, j, hpre.trans (List.prefix_append _ _), hleaving, hleft, hchannel⟩
    · exact ⟨is, i, List.prefix_rfl, hleaving, hexited, hchannel⟩

end Run

/-! ### Results -/

/-- No send is under way, and the task is not between `pending` and a counter. -/
def Quiescent (w : Writer) : Prop :=
  (∀ phase ∈ w.callers, ∀ entry, phase ≠ .sending entry ∧ phase ≠ .bounced entry ∧
    phase ≠ .dropping entry ∧ phase ≠ .counting entry) ∧
  ∀ entry ok rest after, w.task ≠ .counting entry ok rest after

/-- Where the task returns, no item in the channel has a flush of its own caller after it. -/
def SafeExit (w : Writer) : Prop :=
  ∀ before c n after, w.channel = before ++ .flush c n true :: after →
    ∀ e ∈ entries before, e.caller ≠ c

/-- Every item that a caller sent before its call was written or counted as an error. -/
def SettledBefore (w : Writer) (c n : Nat) : Prop :=
  ∀ e ∈ entries w.sent, e.caller = c → e.id < n → e ∈ w.settled

section Results

variable {w : Writer} {outs : List WriterOutput}

theorem Accounts.quiescent (h : Accounts w) (hquiet : Quiescent w) :
    w.metrics.messagesQueued = w.metrics.messagesWritten + w.metrics.writeErrors + w.pending +
      w.refused.length := by
  obtain ⟨hcallers, htask⟩ := hquiet
  have hlag : (w.callers.map CallerPhase.lag).sum = 0 := by
    rw [List.sum_eq_zero_iff_forall_eq_nat]
    intro n hn
    obtain ⟨phase, hphase, rfl⟩ := List.mem_map.mp hn
    have hrest := hcallers phase hphase
    cases phase with
    | sending entry => exact absurd rfl (hrest entry).1
    | bounced entry => exact absurd rfl (hrest entry).2.1
    | dropping entry => exact absurd rfl (hrest entry).2.2.1
    | counting entry => exact absurd rfl (hrest entry).2.2.2
    | _ => rfl
  have htask' : w.task.lag = 0 := by
    cases hphase : w.task with
    | counting entry ok rest after => exact absurd hphase (htask _ _ _ _)
    | _ => rfl
  have hbalance := h.balance
  omega

/-- An entry that follows a call of its caller has a greater number. -/
theorem Keys.lt_of_append (h : Keys w) {a b : List Request} (hsent : w.sent = a ++ b)
    {r r' : Request} (hr : r ∈ a) (hr' : r' ∈ b) {c n n' : Nat} (hcall : r.call? = some (c, n))
    (hcall' : r'.call? = some (c, n')) : n < n' := by
  have hascend := h.ascend
  rw [hsent, sentCalls_append] at hascend
  exact (List.pairwise_append.mp hascend).2.2 _ (mem_sentCalls hr hcall) _
    (mem_sentCalls hr' hcall') rfl

/-- After a completed flush everything its caller had sent is settled. -/
theorem settledBefore_of_drained (hkeys : Keys w) {c n : Nat}
    (h : Drained w.sent w.settled (c, n)) : SettledBefore w c n := by
  obtain ⟨before, after, hsent, hsettled⟩ := h
  intro e he hcaller hlt
  rw [hsent, entries_append] at he
  rcases List.mem_append.mp he with hmem | hmem
  · exact hsettled e hmem
  · -- The item follows the flush, so its number is greater.
    have hafter : .item e ∈ after := by
      have hitem := mem_entries.mp hmem
      simpa using hitem
    have hgt : n < e.id := by
      refine hkeys.lt_of_append (a := before ++ [.flush c n true]) (b := after) ?_
        (List.mem_append_right _ (List.mem_singleton_self _)) hafter rfl ?_
      · rw [hsent]
        simp
      · rw [← hcaller]
        rfl
    omega

theorem mem_sent_of_lost (hqueue : Queue w) {r : Request} (h : r ∈ w.lost) : r ∈ w.sent := by
  rw [hqueue.sent]
  exact List.mem_append_right _ h

/-- Nothing lost is settled. -/
theorem notMem_settled_of_lost (hqueue : Queue w) (hkeys : Keys w) {e : Entry}
    (h : e ∈ entries w.lost) : e ∉ w.settled := by
  intro hsettled
  have hreceived : .item e ∈ w.received := by
    apply mem_entries.mp
    rw [hqueue.order, List.append_assoc]
    exact List.mem_append_left _ hsettled
  have hlt : e.id < e.id :=
    hkeys.lt_of_append hqueue.sent (List.mem_append_left _ hreceived) (mem_entries.mp h) rfl rfl
  exact Nat.lt_irrefl _ hlt

/-- Once the task has returned, what was sent is settled or lost. -/
theorem settled_or_lost (hqueue : Queue w) (hexited : w.task = .exited) {e : Entry}
    (he : e ∈ entries w.sent) : e ∈ w.settled ∨ e ∈ entries w.lost := by
  have horder := hqueue.order
  rw [hqueue.emptied (by rw [hexited]; rfl), hexited] at horder
  simp only [TaskPhase.held, List.append_nil] at horder
  rw [hqueue.sent, hqueue.exited hexited, List.append_nil, entries_append, horder] at he
  exact List.mem_append.mp he

/-- An answered flush settled what its caller had sent unless some of it was lost. -/
theorem settledBefore_iff (h : WriterInv w outs) {c n : Nat} (hflushed : .flushed c n true ∈ outs) :
    SettledBefore w c n ↔ ∀ e ∈ entries w.lost, e.caller = c → ¬e.id < n := by
  constructor
  · intro hsettled e he hcaller hlt
    have hsent : e ∈ entries w.sent :=
      mem_entries.mpr (mem_sent_of_lost h.queue (mem_entries.mp he))
    exact notMem_settled_of_lost h.queue h.keys he (hsettled e hsent hcaller hlt)
  · intro hlost
    obtain ⟨-, hcompleted | hexited⟩ := h.answered c n hflushed
    · exact settledBefore_of_drained h.keys (h.queue.completed _ hcompleted)
    · intro e he hcaller hlt
      rcases settled_or_lost h.queue hexited he with hsettled | hmem
      · exact hsettled
      · exact absurd hlt (hlost e hmem hcaller)

/-- The flush that answers for a lost item was lost after it. -/
theorem flush_after_lost (h : WriterInv w outs) {c n : Nat} (hflushed : .flushed c n true ∈ outs)
    {e : Entry} (he : e ∈ entries w.lost) (hcaller : e.caller = c) (hlt : e.id < n) :
    ∃ before after, w.lost = before ++ .flush c n true :: after ∧ e ∈ entries before := by
  obtain ⟨hsent, -⟩ := h.answered c n hflushed
  obtain ⟨l₁, l₂, hlost⟩ := List.append_of_mem (mem_entries.mp he)
  have hsplit : w.sent = (w.received ++ w.channel ++ l₁) ++ .item e :: l₂ := by
    rw [h.queue.sent, hlost]
    simp only [List.append_assoc]
  have hcall : (Request.item e).call? = some (c, e.id) := by
    rw [← hcaller]
    rfl
  rw [hsplit] at hsent
  rcases List.mem_append.mp hsent with hbefore | hafter
  · have hgt : n < e.id :=
      h.keys.lt_of_append hsplit hbefore List.mem_cons_self rfl hcall
    omega
  · have hmem : .flush c n true ∈ l₂ := by simpa using hafter
    obtain ⟨m, after, hl₂⟩ := List.append_of_mem hmem
    refine ⟨l₁ ++ .item e :: m, after, ?_, ?_⟩
    · rw [hlost, hl₂]
      simp
    · rw [mem_entries]
      simp

end Results

/-- **The queue accounts for every item, and a flush answers for those it drained.**  In every run:
at a quiescent point the counters add up; a flush that returned `true` settled everything its caller
had sent before it exactly when none of that was in the channel as the task returned; and where the
task never returns with an item and a later flush of one caller in its channel, every flush that
returned `true` did. -/
theorem writer_accounts (parsers : Parsers) (configured : Bool) (is : List WriterInput) :
    (Quiescent ((Writer.machine parsers configured).exec {} is).1 →
      ((Writer.machine parsers configured).exec {} is).1.metrics.messagesQueued =
        ((Writer.machine parsers configured).exec {} is).1.metrics.messagesWritten +
        ((Writer.machine parsers configured).exec {} is).1.metrics.writeErrors +
        ((Writer.machine parsers configured).exec {} is).1.pending +
        ((Writer.machine parsers configured).exec {} is).1.refused.length) ∧
    (∀ c n, .flushed c n true ∈ ((Writer.machine parsers configured).exec {} is).2 →
      (SettledBefore ((Writer.machine parsers configured).exec {} is).1 c n ↔
        ∀ e ∈ entries ((Writer.machine parsers configured).exec {} is).1.lost,
          e.caller = c → ¬e.id < n)) ∧
    ((∀ pre i, pre ++ [i] <+: is →
        ((Writer.machine parsers configured).exec {} pre).1.task = .leaving →
        ((Writer.machine parsers configured).exec {} (pre ++ [i])).1.task = .exited →
        SafeExit ((Writer.machine parsers configured).exec {} pre).1) →
      ∀ c n, .flushed c n true ∈ ((Writer.machine parsers configured).exec {} is).2 →
        SettledBefore ((Writer.machine parsers configured).exec {} is).1 c n) := by
  have hinv := writerInv_exec parsers configured is
  refine ⟨hinv.accounts.quiescent, fun c n => settledBefore_iff hinv, ?_⟩
  intro hsafe c n hflushed
  refine (settledBefore_iff hinv hflushed).mpr ?_
  intro e he hcaller hlt
  obtain ⟨before, after, hlost, hmem⟩ := flush_after_lost hinv hflushed he hcaller hlt
  obtain ⟨pre, i, hpre, hleaving, hexited, hchannel⟩ := lost_exec parsers configured is
    (by rw [hlost]; simp)
  rw [hchannel] at hlost
  exact hsafe pre i hpre hleaving hexited before c n after hlost e hmem hcaller

/-- A presence like the ones an agent sends. -/
def hello : Item := .presence
  { agent := "alice"
    status := "online"
    protocolVersion := "1.0"
    timestampUtc := "2026-01-01T00:00:00.000000Z"
    sessionId := "s"
    capabilities := []
    metadata := .obj []
    ttlSeconds := 60 }

/-- Parsers that take anything. -/
def lenient : Parsers := ⟨fun _ => true, fun _ => true⟩

/-- An item is sent, flushed and persisted. -/
def drainedFlush : List WriterInput :=
  [.call 0 (.send hello), .proceed 0, .proceed 0, .receive, .call 0 .flushAndWait, .proceed 0,
   .receive, .persist ⟨0, 0, fun _ => .accepted⟩, .advance, .advance, .advance, .advance,
   .proceed 0]

/-- What was sent before the flush is settled as it returns. -/
theorem writer_accounts_drainedFlush :
    .flushed 0 1 true ∈ ((Writer.machine lenient true).exec {} drainedFlush).2 ∧
    SettledBefore ((Writer.machine lenient true).exec {} drainedFlush).1 0 1 := by
  obtain ⟨-, hflush, -⟩ := writer_accounts lenient true drainedFlush
  have hflushed : .flushed 0 1 true ∈ ((Writer.machine lenient true).exec {} drainedFlush).2 := by
    decide
  have hlost : ((Writer.machine lenient true).exec {} drainedFlush).1.lost = [] := by
    decide
  refine ⟨hflushed, (hflush 0 1 hflushed).mpr ?_⟩
  rw [hlost]
  simp [entries]

/-- One clone asks for a shutdown.  The task has found its channel empty when another sends an item
and a flush, and returns before it sees them. -/
def lateFlush : List WriterInput :=
  [.clone, .call 0 .shutdown, .proceed 0, .receive, .advance,
   .call 1 (.send hello), .proceed 1, .proceed 1, .call 1 .flushAndWait, .proceed 1,
   .advance, .proceed 1]

/-- The flush returns `true`, and the item before it is neither written nor counted. -/
theorem flush_true_of_lost :
    .flushed 1 1 true ∈ ((Writer.machine lenient true).exec {} lateFlush).2 ∧
    ¬SettledBefore ((Writer.machine lenient true).exec {} lateFlush).1 1 1 := by
  refine ⟨by decide, fun hsettled => ?_⟩
  have hsent : ⟨1, 0, hello⟩ ∈
      entries ((Writer.machine lenient true).exec {} lateFlush).1.sent := by
    decide
  have hmem := hsettled ⟨1, 0, hello⟩ hsent rfl (by decide)
  have hnone : ((Writer.machine lenient true).exec {} lateFlush).1.settled = [] := by
    decide
  rw [hnone] at hmem
  cases hmem

end AgentHub.Postgres
