import AgentHub.Postgres.Equiv.Writer

/-!
# What a bad write costs

While the database takes every well-formed insert, a message is refused on its own account or because
the breaker is open.  The breaker is opened by an item that fails its own checks, so a malformed item
costs the well-formed ones of the next minute.
-/

namespace AgentHub.Postgres

/-! ### One item -/

section Persist

variable {parsers : Parsers} {breaker : Option Nat} {item : Item} {io : PersistIo}

theorem persist_open (configured : Bool) (hopen : isPgCircuitOpen breaker io.start = true) :
    persist parsers configured breaker item io = (.error .circuitOpen, breaker) := by
  unfold persist withPgRetry
  rw [if_pos hopen]

theorem attempt_accepted (parsers : Parsers) (item : Item) :
    attempt parsers true item .accepted = (checkItem parsers item).map fun _ => true := by
  unfold attempt
  cases checkItem parsers item with
  | error err => rfl
  | ok _ => rfl

/-- An item that passes its checks is stored, and closes the breaker. -/
theorem persist_ok (hclosed : isPgCircuitOpen breaker io.start = false)
    (haccepts : ∀ k, io.attempts k = .accepted) (hcheck : checkItem parsers item = .ok ()) :
    persist parsers true breaker item io = (.ok true, none) := by
  have hattempt : attempt parsers true item .accepted = .ok true := by
    rw [attempt_accepted, hcheck]
    rfl
  simp only [persist, withPgRetry, hclosed, pgMaxRetries, tryAttempts, haccepts, hattempt]
  rfl

/-- An item that fails them opens it. -/
theorem persist_bad {err : PgError} (hclosed : isPgCircuitOpen breaker io.start = false)
    (haccepts : ∀ k, io.attempts k = .accepted) (hcheck : checkItem parsers item = .error err) :
    persist parsers true breaker item io = (.error err, some io.finish) := by
  have hattempt : attempt parsers true item .accepted = .error err := by
    rw [attempt_accepted, hcheck]
    rfl
  simp only [persist, withPgRetry, hclosed, pgMaxRetries, tryAttempts, haccepts, hattempt]
  rfl

/-- What the caller of an insert makes of its result. -/
def storedBy (result : Except PgError Bool) : Bool := result.toOption.getD false

theorem storedBy_iff (haccepts : ∀ k, io.attempts k = .accepted) :
    storedBy (persist parsers true breaker item io).1 = true ↔
      isPgCircuitOpen breaker io.start = false ∧ checkItem parsers item = .ok () := by
  cases hopen : isPgCircuitOpen breaker io.start with
  | true =>
    rw [persist_open true hopen]
    simp [storedBy, Except.toOption]
  | false =>
    cases hcheck : checkItem parsers item with
    | error err =>
      rw [persist_bad hopen haccepts hcheck]
      simp [storedBy, Except.toOption]
    | ok _ =>
      rw [persist_ok hopen haccepts hcheck]
      simp [storedBy, Except.toOption]

end Persist

/-- A message whose id is a UUID and whose timestamp is RFC 3339. -/
def WellFormed (parsers : Parsers) (m : Sync.Message) : Prop :=
  parsers.isUuid m.id = true ∧ parsesTimestamp parsers m.timestampUtc = true

/-- Its `origin_seq` fits the column. -/
def SeqFits (m : Sync.Message) : Prop := ∀ seq ∈ m.originSeq, seq.toNat < 2 ^ 63

theorem checkItem_message {parsers : Parsers} {m : Sync.Message} (h : WellFormed parsers m) :
    checkItem parsers (.message m) = .ok () ↔ SeqFits m := by
  obtain ⟨hid, htimestamp⟩ := h
  cases hseq : m.originSeq with
  | none => simp [checkItem, hid, htimestamp, SeqFits, hseq]
  | some seq => simp [checkItem, hid, htimestamp, SeqFits, hseq, fitsI64]

/-! ### One step -/

section Step

variable (parsers : Parsers) (configured : Bool) {w : Writer}

theorem persistNext_spec {entry : Entry} {rest : List Entry} {after : After} (io : PersistIo)
    (htask : w.task = .flushing (entry :: rest) after) :
    (w.persistNext parsers configured io).2 =
      [.persisted entry (storedBy (persist parsers configured w.breaker entry.item io).1)] ∧
    (w.persistNext parsers configured io).1.breaker =
      (persist parsers configured w.breaker entry.item io).2 ∧
    (w.persistNext parsers configured io).1.inserted =
      w.inserted ++
        if storedBy (persist parsers configured w.breaker entry.item io).1 then [entry] else [] := by
  unfold Writer.persistNext
  rw [htask]
  rcases hresult : persist parsers configured w.breaker entry.item io with ⟨_ | stored, breaker⟩
  · simp [hresult, storedBy, Except.toOption]
  · cases stored with
    | false => simp [hresult, storedBy, Except.toOption]
    | true => simp [hresult, storedBy, Except.toOption]

/-- A step that persists nothing leaves the breaker and the table alone. -/
theorem WriterStep.quiet {w' : Writer} {outs : List WriterOutput} (hstep : WriterStep w w' outs)
    (hnone : ∀ entry stored, .persisted entry stored ∉ outs) :
    w'.breaker = w.breaker ∧ w'.inserted = w.inserted := by
  have hflush : ∀ (w : Writer) after, (w.flushThen after).breaker = w.breaker ∧
      (w.flushThen after).inserted = w.inserted := by
    intro w after
    unfold Writer.flushThen
    split
    · exact ⟨rfl, rfl⟩
    · exact ⟨rfl, rfl⟩
  cases hstep with
  | tookFlush => exact hflush _ _
  | flushing => exact hflush _ _
  | tookFull => exact hflush _ _
  | @persisted entry rest after ok stored => exact absurd List.mem_cons_self (hnone entry stored)
  | @counted entry ok rest after =>
    unfold Writer.count
    split
    · exact ⟨rfl, rfl⟩
    · exact ⟨rfl, rfl⟩
  | _ => exact ⟨rfl, rfl⟩

/-- The item that was handed over and is not counted yet. -/
def TaskPhase.handed : TaskPhase → List Entry
  | .settling entry _ _ _ | .counting entry _ _ _ => [entry]
  | _ => []

@[simp] theorem Next.handed_phase (next : Next) : next.phase.handed = [] := by
  cases next <;> rfl

@[simp] theorem After.handed_phase (after : After) : after.phase.handed = [] := by
  unfold After.phase
  split
  · rfl
  · simp

/-- What is settled or handed over was so before, or is handed over in this step. -/
theorem WriterStep.handed {w' : Writer} {outs : List WriterOutput} (hstep : WriterStep w w' outs) :
    ∀ e ∈ w'.settled ++ w'.task.handed, e ∈ w.settled ++ w.task.handed ∨
      ∃ stored, .persisted e stored ∈ outs := by
  -- the start of a flush hands nothing out yet
  have hflush : ∀ (w : Writer) after, (w.flushThen after).settled = w.settled ∧
      (w.flushThen after).task.handed = [] := by
    intro w after
    unfold Writer.flushThen
    split
    · exact ⟨rfl, after.handed_phase⟩
    · exact ⟨rfl, rfl⟩
  intro e he
  cases hstep with
  | tookShutdown =>
    left
    exact List.mem_append_left _ (by simpa [TaskPhase.handed, Writer.take] using he)
  | tookFlush =>
    rw [(hflush _ _).1, (hflush _ _).2, List.append_nil] at he
    exact .inl (List.mem_append_left _ he)
  | flushing =>
    rw [(hflush _ _).1, (hflush _ _).2, List.append_nil] at he
    exact .inl (List.mem_append_left _ he)
  | tookFull =>
    rw [(hflush _ _).1, (hflush _ _).2, List.append_nil] at he
    exact .inl (List.mem_append_left _ he)
  -- an item is handed out with the answer of its write
  | @persisted entry rest after ok stored =>
    rcases List.mem_append.mp he with hold | hnew
    · exact .inl (List.mem_append_left _ hold)
    · obtain rfl := List.mem_singleton.mp hnew
      exact .inr ⟨stored, List.mem_singleton_self _⟩
  | batchDone =>
    left
    exact List.mem_append_left _ (by simpa using he)
  | lowered htask =>
    left
    rw [htask]
    exact he
  | @counted entry ok rest after htask =>
    left
    rw [htask]
    -- the counted item moves from the task to what is settled
    have hcounted : (w.count entry ok rest after).settled = w.settled ++ [entry] ∧
        (w.count entry ok rest after).task.handed = [] := by
      unfold Writer.count
      split_ifs <;> exact ⟨rfl, rfl⟩
    rw [hcounted.1, hcounted.2, List.append_nil] at he
    exact he
  | droppedWrite =>
    left
    exact List.mem_append_left _ (by simpa [TaskPhase.handed] using he)
  | completed =>
    left
    exact List.mem_append_left _ (by simpa using he)
  | exited =>
    left
    exact List.mem_append_left _ (by simpa [TaskPhase.handed] using he)
  | _ => exact .inl he

/-- A caller shows nothing but the answers of its flushes. -/
theorem flushed_of_mem_proceed {w : Writer} {c : Nat} {phase : CallerPhase} {o : WriterOutput}
    (h : o ∈ (w.proceed c phase).2) : ∃ n drained, o = .flushed c n drained := by
  cases phase with
  | flushing id wait =>
    simp only [Writer.proceed] at h
    split at h
    · split at h
      · exact ⟨id, false, List.mem_singleton.mp h⟩
      · cases h
    · cases h
  | awaiting id =>
    simp only [Writer.proceed] at h
    split at h
    · exact ⟨id, true, List.mem_singleton.mp h⟩
    · cases h
  | sending entry =>
    simp only [Writer.proceed] at h
    split at h <;> cases h
  | stopping =>
    simp only [Writer.proceed] at h
    split at h <;> cases h
  | _ => cases h

/-- An item is handed to PostgreSQL in one kind of step. -/
theorem persist_of_mem {i : WriterInput} {entry : Entry} {stored : Bool}
    (h : .persisted entry stored ∈ (w.step parsers configured i).2) :
    ∃ io rest after, i = .persist io ∧ w.task = .flushing (entry :: rest) after ∧
      stored = storedBy (persist parsers configured w.breaker entry.item io).1 := by
  have hempty : ∀ {outs : List WriterOutput}, .persisted entry stored ∈ outs → outs ≠ [] := by
    intro outs hmem heq
    rw [heq] at hmem
    cases hmem
  -- only a turn of the flush answers for an item
  cases i with
  | persist io =>
    simp only [Writer.step] at h
    cases htask : w.task with
    | flushing batch after =>
      cases batch with
      | nil => exact absurd (by simp [Writer.persistNext, htask]) (hempty h)
      | cons head rest =>
        rw [(persistNext_spec parsers configured io htask).1] at h
        obtain ⟨rfl, rfl⟩ : entry = head ∧ _ := by simpa using h
        exact ⟨io, rest, after, rfl, rfl, rfl⟩
    | _ => exact absurd (by simp [Writer.persistNext, htask]) (hempty h)
  | proceed c =>
    simp only [Writer.step] at h
    split at h
    · obtain ⟨n, drained, hflushed⟩ := flushed_of_mem_proceed h
      cases hflushed
    · cases h
  | timeout c =>
    simp only [Writer.step] at h
    split at h
    · simp at h
    · cases h
  | clone =>
    simp only [Writer.step] at h
    split at h <;> cases h
  | drop c =>
    simp only [Writer.step] at h
    split at h <;> cases h
  | call c call =>
    simp only [Writer.step] at h
    split at h <;> cases h
  | tick =>
    simp only [Writer.step] at h
    split at h <;> cases h
  | receive =>
    simp only [Writer.step] at h
    split at h <;> cases h
  | advance => cases h

end Step

/-! ### Runs -/

section Run

variable (parsers : Parsers) (configured : Bool)

/-- The table holds what was stored. -/
theorem inserted_exec (is : List WriterInput) (e : Entry) :
    e ∈ ((Writer.machine parsers configured).exec {} is).1.inserted ↔
      .persisted e true ∈ ((Writer.machine parsers configured).exec {} is).2 := by
  refine Machine.exec_induction
    (P := fun _ (w : Writer) outs => e ∈ w.inserted ↔ WriterOutput.persisted e true ∈ outs) _
    (by simp) ?_ is
  intro is w outs i ih
  show e ∈ (w.step parsers configured i).1.inserted ↔
    _ ∈ outs ++ (w.step parsers configured i).2
  rw [List.mem_append, ← ih]
  by_cases hpersist : ∃ entry stored, .persisted entry stored ∈ (w.step parsers configured i).2
  · obtain ⟨entry, stored, hmem⟩ := hpersist
    obtain ⟨io, rest, after, rfl, htask, -⟩ := persist_of_mem parsers configured hmem
    obtain ⟨houts, -, hinserted⟩ := persistNext_spec parsers configured io htask
    simp only [Writer.step]
    rw [houts, hinserted]
    cases storedBy (persist parsers configured w.breaker entry.item io).1 with
    | false => simp
    | true => simp
  · push Not at hpersist
    rw [((writerStep_sound parsers configured w i).quiet hpersist).2]
    simp [hpersist]

/-- Everything settled was handed to PostgreSQL. -/
theorem settled_exec (is : List WriterInput) {e : Entry}
    (he : e ∈ ((Writer.machine parsers configured).exec {} is).1.settled) :
    ∃ stored, .persisted e stored ∈ ((Writer.machine parsers configured).exec {} is).2 := by
  have hinv := Machine.exec_induction (M := Writer.machine parsers configured) (s := {})
    (P := fun _ w outs => ∀ e ∈ w.settled ++ w.task.handed,
      ∃ stored, WriterOutput.persisted e stored ∈ outs) (by simp [TaskPhase.handed]) ?_ is
  · exact hinv e (List.mem_append_left _ he)
  · intro is w outs i ih e he
    rcases (writerStep_sound parsers configured w i).handed e he with hold | ⟨stored, hnew⟩
    · obtain ⟨stored, hmem⟩ := ih e hold
      exact ⟨stored, List.mem_append_left _ hmem⟩
    · exact ⟨stored, List.mem_append_right _ hnew⟩

/-- **Only a malformed item opens the breaker.** -/
theorem breaker_exec (is : List WriterInput)
    (haccepts : ∀ io, .persist io ∈ is → ∀ k, io.attempts k = .accepted) {t : Nat}
    (h : ((Writer.machine parsers true).exec {} is).1.breaker = some t) :
    ∃ pre io e rest after, pre ++ [.persist io] <+: is ∧
      ((Writer.machine parsers true).exec {} pre).1.task = .flushing (e :: rest) after ∧
      checkItem parsers e.item ≠ .ok () ∧ io.finish = t := by
  induction is using List.reverseRecOn with
  | nil => cases h
  | append_singleton is i ih =>
    -- the breaker may have been set by an earlier step
    have hearlier : ((Writer.machine parsers true).exec {} is).1.breaker = some t →
        ∃ pre io e rest after, pre ++ [.persist io] <+: is ++ [i] ∧
          ((Writer.machine parsers true).exec {} pre).1.task = .flushing (e :: rest) after ∧
          checkItem parsers e.item ≠ .ok () ∧ io.finish = t := by
      intro hbreaker
      obtain ⟨pre, io, e, rest, after, hpre, hcause⟩ :=
        ih (fun io hio => haccepts io (List.mem_append_left _ hio)) hbreaker
      exact ⟨pre, io, e, rest, after, hpre.trans (List.prefix_append _ _), hcause⟩
    have hnext : ((Writer.machine parsers true).exec {} (is ++ [i])).1 =
        (Writer.step parsers true ((Writer.machine parsers true).exec {} is).1 i).1 := by
      rw [Machine.exec_snoc]
      rfl
    rw [hnext] at h
    by_cases hpersist : ∃ e stored, .persisted e stored ∈
        (Writer.step parsers true ((Writer.machine parsers true).exec {} is).1 i).2
    · obtain ⟨e, stored, hmem⟩ := hpersist
      obtain ⟨io, rest, after, rfl, htask, -⟩ := persist_of_mem parsers true hmem
      have hio := haccepts io (by simp)
      obtain ⟨-, hbreaker, -⟩ := persistNext_spec parsers true io htask
      simp only [Writer.step] at h
      rw [hbreaker] at h
      -- an open breaker keeps its time
      cases hopen : isPgCircuitOpen ((Writer.machine parsers true).exec {} is).1.breaker io.start with
      | true =>
        rw [persist_open true hopen] at h
        exact hearlier h
      | false =>
        -- a closed one is cleared by a good item and set by a bad one
        cases hcheck : checkItem parsers e.item with
        | ok _ =>
          rw [persist_ok hopen hio hcheck] at h
          cases h
        | error err =>
          rw [persist_bad hopen hio hcheck] at h
          exact ⟨is, io, e, rest, after, List.prefix_rfl, htask, by simp [hcheck], by simpa using h⟩
    · push Not at hpersist
      rw [((writerStep_sound parsers true _ i).quiet hpersist).1] at h
      exact hearlier h

end Run

/-- The turn of a well-formed message finds the breaker closed, and its `origin_seq` fits. -/
def Unhindered (parsers : Parsers) (w : Writer) (io : PersistIo) : Prop :=
  ∀ e rest after m, w.task = .flushing (e :: rest) after → e.item = .message m →
    WellFormed parsers m → isPgCircuitOpen w.breaker io.start = false ∧ SeqFits m

/-- **What a bad write costs.**  While the database takes every well-formed insert: every well-formed
message that had its turn was stored exactly when each turn found the breaker closed and an
`origin_seq` that fits; where they all did, every well-formed message that is settled is in the
table; and the breaker was opened by an item that failed its own checks. -/
theorem writer_persists (parsers : Parsers) (is : List WriterInput)
    (haccepts : ∀ io, .persist io ∈ is → ∀ k, io.attempts k = .accepted) :
    ((∀ e stored m, .persisted e stored ∈ ((Writer.machine parsers true).exec {} is).2 →
        e.item = .message m → WellFormed parsers m → stored = true) ↔
      ∀ pre io, pre ++ [.persist io] <+: is →
        Unhindered parsers ((Writer.machine parsers true).exec {} pre).1 io) ∧
    ((∀ pre io, pre ++ [.persist io] <+: is →
        Unhindered parsers ((Writer.machine parsers true).exec {} pre).1 io) →
      ∀ e ∈ ((Writer.machine parsers true).exec {} is).1.settled, ∀ m, e.item = .message m →
        WellFormed parsers m → e ∈ ((Writer.machine parsers true).exec {} is).1.inserted) ∧
    ∀ t, ((Writer.machine parsers true).exec {} is).1.breaker = some t →
      ∃ pre io e rest after, pre ++ [.persist io] <+: is ∧
        ((Writer.machine parsers true).exec {} pre).1.task = .flushing (e :: rest) after ∧
        checkItem parsers e.item ≠ .ok () ∧ io.finish = t := by
  -- one turn: stored iff the breaker is closed and the sequence fits
  have hturn : ∀ {io}, .persist io ∈ is → ∀ {w : Writer} {e : Entry} {m : Sync.Message},
      e.item = .message m → WellFormed parsers m →
      (storedBy (persist parsers true w.breaker e.item io).1 = true ↔
        isPgCircuitOpen w.breaker io.start = false ∧ SeqFits m) := by
    intro io hio w e m hitem hwell
    rw [storedBy_iff (haccepts io hio), hitem, checkItem_message hwell]
  have hiff : (∀ e stored m, .persisted e stored ∈ ((Writer.machine parsers true).exec {} is).2 →
        e.item = .message m → WellFormed parsers m → stored = true) ↔
      ∀ pre io, pre ++ [.persist io] <+: is →
        Unhindered parsers ((Writer.machine parsers true).exec {} pre).1 io := by
    constructor
    · -- the turn shows up in the outputs
      intro hstored pre io hpre e rest after m htask hitem hwell
      have hio : .persist io ∈ is := hpre.subset (by simp)
      have hshown := (persistNext_spec parsers true io htask).1
      refine (hturn hio hitem hwell).mp (hstored e _ m ?_ hitem hwell)
      refine (Machine.mem_exec _).mpr ⟨pre, .persist io, hpre, ?_⟩
      show _ ∈ (Writer.persistNext parsers true _ io).2
      rw [hshown]
      exact List.mem_singleton_self _
    · -- each output comes from a turn
      intro hclear e stored m hmem hitem hwell
      obtain ⟨pre, i, hpre, hshown⟩ := (Machine.mem_exec _).mp hmem
      obtain ⟨io, rest, after, rfl, htask, rfl⟩ := persist_of_mem parsers true hshown
      have hio : .persist io ∈ is := hpre.subset (by simp)
      exact (hturn hio hitem hwell).mpr (hclear pre io hpre e rest after m htask hitem hwell)
  refine ⟨hiff, ?_, fun t => breaker_exec parsers is haccepts⟩
  -- what is settled was handed out, and so inserted
  intro hclear e he m hitem hwell
  obtain ⟨stored, hmem⟩ := settled_exec parsers true is he
  obtain rfl := hiff.mpr hclear e stored m hmem hitem hwell
  exact (inserted_exec parsers true is e).mpr hmem

/-! ### A run -/

/-- Parsers that know one id and one timestamp. -/
def strict : Parsers where
  isUuid text := text = "6fe2a2c7-6f2f-4c52-8a33-6d1a4b8f4a10"
  isRfc3339 text := text = "2026-01-01T00:00:00.000000+00:00"

/-- A message with a given id. -/
def note (id : String) : Sync.Message where
  id
  timestampUtc := "2026-01-01T00:00:00.000000Z"
  protocolVersion := "1.0"
  fromAgent := "alice"
  toAgent := "bob"
  topic := "note"
  body := "hello"
  threadId := none
  tags := []
  priority := "normal"
  requestAck := false
  replyTo := none
  metadata := .obj []
  streamId := none
  clientMsgId := none
  originHub := none
  originSeq := none
  hlc := none
  sensitivity := none

def goodNote : Sync.Message := note "6fe2a2c7-6f2f-4c52-8a33-6d1a4b8f4a10"

/-- A message with a bad id and a good one, each sent and both written in the next batch.  The turn of
the good one comes `delay` nanoseconds after the bad one has failed. -/
def badThenGood (delay : Nat) : List WriterInput :=
  [.call 0 (.send (.message (note "id"))), .proceed 0, .proceed 0,
   .call 0 (.send (.message goodNote)), .proceed 0, .proceed 0, .receive, .receive, .tick,
   .persist ⟨0, 0, fun _ => .accepted⟩, .advance, .advance, .advance,
   .persist ⟨delay, delay, fun _ => .accepted⟩, .advance, .advance]

/-- After a minute the breaker is closed again, and the good one is stored. -/
theorem writer_persists_minuteLater :
    .persisted ⟨0, 0, .message (note "id")⟩ false ∈
      ((Writer.machine strict true).exec {} (badThenGood 60000000000)).2 ∧
    ⟨0, 1, .message goodNote⟩ ∈
      ((Writer.machine strict true).exec {} (badThenGood 60000000000)).1.inserted := by
  have houts : ((Writer.machine strict true).exec {} (badThenGood 60000000000)).2 =
      [.persisted ⟨0, 0, .message (note "id")⟩ false,
       .persisted ⟨0, 1, .message goodNote⟩ true] := by
    decide
  have hsettled : ⟨0, 1, .message goodNote⟩ ∈
      ((Writer.machine strict true).exec {} (badThenGood 60000000000)).1.settled := by
    decide
  obtain ⟨hiff, hinserted, -⟩ :=
    writer_persists strict (badThenGood 60000000000) (by simp [badThenGood])
  have hclear := hiff.mp fun e stored m hmem hitem hwell => by
    rw [houts] at hmem
    rcases List.mem_cons.mp hmem with hbad | hgood
    · -- the bad one is not among the well-formed
      cases hbad
      cases hitem
      exact absurd hwell.1 (by decide)
    · cases List.mem_singleton.mp hgood
      rfl
  refine ⟨?_, hinserted hclear _ hsettled goodNote rfl ⟨by decide, by decide⟩⟩
  rw [houts]
  exact List.mem_cons_self

/-- A second later it is still open, and the good one is not stored, though the database takes
everything. -/
theorem goodNote_lost :
    (∀ io, .persist io ∈ badThenGood 1000000000 → ∀ k, io.attempts k = .accepted) ∧
    .persisted ⟨0, 1, .message goodNote⟩ false ∈
      ((Writer.machine strict true).exec {} (badThenGood 1000000000)).2 ∧
    WellFormed strict goodNote := by
  refine ⟨by simp [badThenGood], by decide, ?_, ?_⟩
  · decide
  · decide

end AgentHub.Postgres
