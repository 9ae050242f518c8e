import AgentHub.Cloud.Equiv.BusLog
import AgentHub.Cloud.Store

/-!
# What a call does to the tables

One lemma for each table: which rows of it are new after a call and which are gone.  An insertion
adds a message and the acknowledgement it asks for (`insertMessage_cases`); a batch does what its
insertions do, one after the other (`insertMessageBatch_keeps`).
-/

namespace AgentHub.Cloud

open AgentHub.Json BusLog

/-- The messages a call is to insert for its caller. -/
def Call.inputs : Call → List InsertMessageInput
  | .insertMessage input => [input]
  | .insertMessageBatch inputs => inputs
  | _ => []

/-- The row that awaits the acknowledgement of a message. -/
def awaited (input : InsertMessageInput) : PendingAck := ⟨input.id, input.toAgent, input.timestampUtc⟩

namespace Store

variable {worker : Worker} {choose : List Row → Nat} {store : Store}

/-! ### Insertion -/

/-- The store stays, or a row is new at the end of its log. -/
theorem insertMessage_cases (choose : List Row → Nat) (store : Store) (input : InsertMessageInput)
    (now : Int) (fault : Fault) (late : Bool) :
    (store.insertMessage choose input now fault late).1 = store ∨
      ∃ (log : BusLog) (row : Row), row.toMessageFields = input.toMessageFields ∧
        input.originHub = some row.originHub ∧ log.rows = store.log.rows ++ [row] ∧
        ((store.insertMessage choose input now fault late).1 = { store with log } ∨
          (store.insertMessage choose input now fault late).1 =
            awaitAck { store with log } input) := by
  unfold insertMessage
  split
  case h_1 => exact Or.inl rfl
  case h_2 originHub horigin =>
    split
    case h_1 => exact Or.inl rfl
    case h_2 => exact Or.inl rfl
    case h_3 log row hinserted =>
      right
      obtain ⟨hrow, hrows, -⟩ := insertMessage_inserted hinserted
      obtain ⟨hhub, hfields⟩ := newRow_holds store.log input.toMessageFields originHub now
      refine ⟨log, row, by rw [hrow, hfields], ?_, hrows, ?_⟩
      · rw [hrow, hhub]
        exact (Option.filter_eq_some_iff.1 horigin).1
      · cases late
        · exact Or.inr rfl
        · exact Or.inl rfl

theorem awaitAck_log (store : Store) (input : InsertMessageInput) :
    (awaitAck store input).log = store.log := by
  unfold awaitAck
  split <;> rfl

theorem awaitAck_presence (store : Store) (input : InsertMessageInput) :
    (awaitAck store input).presence = store.presence ∧
      (awaitAck store input).presenceHistory = store.presenceHistory := by
  unfold awaitAck
  split <;> exact ⟨rfl, rfl⟩

theorem insertMessage_rows {input : InsertMessageInput} {now : Int} {fault : Fault} {late : Bool}
    {row : Row} (h : row ∈ (store.insertMessage choose input now fault late).1.log.rows) :
    row ∈ store.log.rows ∨
      (row.toMessageFields = input.toMessageFields ∧ input.originHub = some row.originHub) := by
  rcases insertMessage_cases choose store input now fault late with
    hsame | ⟨log, new, hfields, hhub, hrows, hafter⟩
  · rw [hsame] at h
    exact Or.inl h
  · have hlog : (store.insertMessage choose input now fault late).1.log = log := by
      rcases hafter with hafter | hafter
      · rw [hafter]
      · rw [hafter, awaitAck_log]
    rw [hlog, hrows] at h
    rcases List.mem_append.1 h with h | h
    · exact Or.inl h
    · rw [List.mem_singleton.1 h]
      exact Or.inr ⟨hfields, hhub⟩

theorem insertMessage_presence (choose : List Row → Nat) (store : Store)
    (input : InsertMessageInput) (now : Int) (fault : Fault) (late : Bool) :
    (store.insertMessage choose input now fault late).1.presence = store.presence ∧
      (store.insertMessage choose input now fault late).1.presenceHistory =
        store.presenceHistory := by
  rcases insertMessage_cases choose store input now fault late with
    hsame | ⟨log, new, -, -, -, hafter | hafter⟩
  · rw [hsame]
    exact ⟨rfl, rfl⟩
  · rw [hafter]
    exact ⟨rfl, rfl⟩
  · rw [hafter]
    exact awaitAck_presence _ _

/-- Of the acknowledgements only the message's own is written. -/
theorem insertMessage_pendingAcks (choose : List Row → Nat) (store : Store)
    (input : InsertMessageInput) (now : Int) (fault : Fault) (late : Bool) :
    (store.insertMessage choose input now fault late).1.pendingAcks = store.pendingAcks ∨
      (input.requestAck = true ∧
        (store.insertMessage choose input now fault late).1.pendingAcks =
          store.pendingAcks.put (awaited input)) := by
  rcases insertMessage_cases choose store input now fault late with
    hsame | ⟨log, new, -, -, -, hafter | hafter⟩
  · rw [hsame]
    exact Or.inl rfl
  · rw [hafter]
    exact Or.inl rfl
  · rw [hafter, awaitAck]
    split
    case isTrue hrequest => exact Or.inr ⟨hrequest, rfl⟩
    case isFalse => exact Or.inl rfl

/-! ### Batches -/

theorem insertAll_keeps {visit : Visit} {P : Store → Prop} {inputs : List InsertMessageInput}
    (hstep : ∀ s input now fault late, input ∈ inputs → P s →
      P (insertMessage choose s input now fault late).1) :
    ∀ {i : Nat} {store : Store} {result : Store × List Stored},
      insertAll choose visit i store inputs = some result → P store → P result.1 := by
  induction inputs with
  | nil =>
    intro i store result h hP
    cases h
    exact hP
  | cons input inputs ih =>
    intro i store result h hP
    have hnext := hstep store input visit.now (visit.fault i) (visit.late i) (by simp) hP
    rw [insertAll] at h
    generalize insertMessage choose store input visit.now (visit.fault i) (visit.late i) = inserted
      at h hnext
    obtain ⟨after, _ | stored⟩ := inserted
    · cases h
    · simp only [Option.map_eq_some_iff] at h
      obtain ⟨rest, hrest, rfl⟩ := h
      have hkept : P rest.1 :=
        ih (fun s input now fault late hin => hstep s input now fault late (by simp [hin])) hrest
          hnext
      exact hkept

/-- What each insertion of a batch keeps, the batch keeps, whether it is carried out or not. -/
theorem insertMessageBatch_keeps {visit : Visit} {P : Store → Prop}
    {inputs : List InsertMessageInput}
    (hstep : ∀ s input now fault late, input ∈ inputs → P s →
      P (insertMessage choose s input now fault late).1)
    (h : P store) : P (store.insertMessageBatch choose inputs visit).1 := by
  unfold insertMessageBatch
  cases hall : insertAll choose visit 0 store inputs with
  | none => exact h
  | some result => exact insertAll_keeps hstep hall h

/-- What the insertions of a call keep, a call that only inserts keeps. -/
theorem execute_inserts_keeps {visit : Visit} {P : Store → Prop} {c : Call}
    (hc : (∃ input, c = .insertMessage input) ∨ ∃ inputs, c = .insertMessageBatch inputs)
    (hstep : ∀ s input now fault late, input ∈ c.inputs → P s →
      P (insertMessage worker.choose s input now fault late).1)
    (h : P store) : P (store.execute worker visit c).1 := by
  rcases hc with ⟨input, rfl⟩ | ⟨inputs, rfl⟩
  · exact hstep store input _ _ _ (List.mem_singleton_self input) h
  · exact insertMessageBatch_keeps hstep h

/-! ### Presence -/

theorem syncPresenceEvent_messages (dates : Dates) (store : Store) (originHub : String)
    (ev : PresenceEvent) (now : Int) (fault : PresenceFault) :
    (store.syncPresenceEvent dates originHub ev now fault).1.log = store.log ∧
      (store.syncPresenceEvent dates originHub ev now fault).1.pendingAcks = store.pendingAcks := by
  unfold syncPresenceEvent
  dsimp only
  split_ifs <;> exact ⟨rfl, rfl⟩

theorem syncPresenceEvents_messages (dates : Dates) (originHub : String) (visit : Visit)
    (events : List PresenceEvent) :
    ∀ (i : Nat) (result : PresencePushResult) (store : Store),
      (syncPresenceEvents dates originHub visit i result store events).1.log = store.log ∧
        (syncPresenceEvents dates originHub visit i result store events).1.pendingAcks =
          store.pendingAcks := by
  induction events with
  | nil => exact fun _ _ _ => ⟨rfl, rfl⟩
  | cons ev evs ih =>
    intro i result store
    have hevent :=
      syncPresenceEvent_messages dates store originHub ev visit.now (visit.presenceFault i)
    rw [syncPresenceEvents]
    generalize store.syncPresenceEvent dates originHub ev visit.now (visit.presenceFault i) = done
      at hevent
    obtain ⟨after, _ | r⟩ := done
    · exact hevent
    · obtain ⟨hlog, hacks⟩ := ih (i + 1) (result.add ev r) after
      exact ⟨hlog.trans hevent.1, hacks.trans hevent.2⟩

theorem setPresence_messages (store : Store) (input : Presence) (keyOrigin : String)
    (originHub : Option String) (now : Int) (fault : PresenceFault) :
    (store.setPresence input keyOrigin originHub now fault).1.log = store.log ∧
      (store.setPresence input keyOrigin originHub now fault).1.pendingAcks =
        store.pendingAcks := by
  unfold setPresence
  dsimp only
  split_ifs <;> exact ⟨rfl, rfl⟩

/-! ### Calls -/

@[simp] theorem serve_fst (c : Call) (visit : Visit) :
    (serve worker c visit store).1 = (store.execute worker visit c).1 := rfl

theorem clearPendingAck_other (store : Store) (messageId : Option String) :
    (store.clearPendingAck messageId).log = store.log ∧
      (store.clearPendingAck messageId).presence = store.presence ∧
        (store.clearPendingAck messageId).presenceHistory = store.presenceHistory := by
  cases messageId <;> exact ⟨rfl, rfl, rfl⟩

/-- Unless a hub pushes, the messages that are new are those a call is to insert. -/
theorem execute_rows {visit : Visit} {c : Call} (hc : ∀ hub items, c ≠ .syncPush hub items)
    {row : Row} (h : row ∈ (store.execute worker visit c).1.log.rows) :
    row ∈ store.log.rows ∨
      ∃ input ∈ c.inputs, row.toMessageFields = input.toMessageFields ∧
        input.originHub = some row.originHub := by
  -- both insertions keep the statement one input at a time
  have hinserts (hkind : (∃ input, c = .insertMessage input) ∨
      ∃ inputs, c = .insertMessageBatch inputs) :
      row ∈ store.log.rows ∨ ∃ input ∈ c.inputs, row.toMessageFields = input.toMessageFields ∧
        input.originHub = some row.originHub := by
    refine execute_inserts_keeps (P := fun s => row ∈ s.log.rows → _) hkind ?_ Or.inl h
    intro s input now fault late hin hkept hrow
    rcases insertMessage_rows hrow with hrow | hrow
    · exact hkept hrow
    · exact Or.inr ⟨input, hin, hrow⟩
  cases c with
  | insertMessage input => exact hinserts (Or.inl ⟨input, rfl⟩)
  | insertMessageBatch inputs => exact hinserts (Or.inr ⟨inputs, rfl⟩)
  | clearPendingAck messageId =>
    left
    -- the other calls leave the rows of the log alone
    rw [execute] at h
    split_ifs at h
    · rwa [(clearPendingAck_other store messageId).1] at h
    · exact h
  | getMessageRecipient messageId =>
    left
    rw [execute] at h
    split_ifs at h <;> exact h
  | setPresence input keyOrigin originHub =>
    left
    rwa [execute, (setPresence_messages _ _ _ _ _ _).1] at h
  | syncPush originHub items => exact absurd rfl (hc originHub items)
  | syncPushPresence originHub events =>
    left
    rwa [execute, syncPushPresence, (syncPresenceEvents_messages _ _ _ _ _ _ _).1] at h

/-- Only the calls about presence change it. -/
theorem execute_presence {visit : Visit} {c : Call}
    (hset : ∀ input keyOrigin originHub, c ≠ .setPresence input keyOrigin originHub)
    (hpush : ∀ originHub events, c ≠ .syncPushPresence originHub events) :
    (store.execute worker visit c).1.presence = store.presence ∧
      (store.execute worker visit c).1.presenceHistory = store.presenceHistory := by
  -- an insertion does not touch the presence tables
  have hinserts (hkind : (∃ input, c = .insertMessage input) ∨
      ∃ inputs, c = .insertMessageBatch inputs) :
      (store.execute worker visit c).1.presence = store.presence ∧
        (store.execute worker visit c).1.presenceHistory = store.presenceHistory := by
    refine execute_inserts_keeps (P := fun s => s.presence = store.presence ∧
      s.presenceHistory = store.presenceHistory) hkind ?_ ⟨rfl, rfl⟩
    intro s input now fault late _ hkept
    obtain ⟨hpresence, hhistory⟩ :=
      insertMessage_presence worker.choose s input now fault late
    exact ⟨hpresence.trans hkept.1, hhistory.trans hkept.2⟩
  cases c with
  | insertMessage input => exact hinserts (Or.inl ⟨input, rfl⟩)
  | insertMessageBatch inputs => exact hinserts (Or.inr ⟨inputs, rfl⟩)
  | clearPendingAck messageId =>
    rw [execute]
    split_ifs
    · exact (clearPendingAck_other store messageId).2
    · exact ⟨rfl, rfl⟩
  | getMessageRecipient messageId =>
    rw [execute]
    split_ifs <;> exact ⟨rfl, rfl⟩
  | setPresence input keyOrigin originHub => exact absurd rfl (hset input keyOrigin originHub)
  | syncPush originHub items => exact ⟨rfl, rfl⟩
  | syncPushPresence originHub events => exact absurd rfl (hpush originHub events)

/-- A call changes no acknowledgement but those it is to clear and those of the messages it is to
insert: the rows after it, and the rows that are gone. -/
theorem execute_pendingAcks (store : Store) (visit : Visit) (c : Call) (ack : PendingAck) :
    (ack ∈ (store.execute worker visit c).1.pendingAcks.rows →
        ack ∈ store.pendingAcks.rows ∨
          ∃ input ∈ c.inputs, input.requestAck = true ∧ ack = awaited input) ∧
      (ack ∈ store.pendingAcks.rows →
        ack ∈ (store.execute worker visit c).1.pendingAcks.rows ∨
          c = .clearPendingAck (some ack.messageId) ∨
            ∃ input ∈ c.inputs, input.requestAck = true ∧ input.id = ack.messageId) := by
  -- a call that leaves the table of pending acks alone
  have hsame (h : (store.execute worker visit c).1.pendingAcks = store.pendingAcks) :
      (ack ∈ (store.execute worker visit c).1.pendingAcks.rows →
          ack ∈ store.pendingAcks.rows ∨
            ∃ input ∈ c.inputs, input.requestAck = true ∧ ack = awaited input) ∧
        (ack ∈ store.pendingAcks.rows →
          ack ∈ (store.execute worker visit c).1.pendingAcks.rows ∨
            c = .clearPendingAck (some ack.messageId) ∨
              ∃ input ∈ c.inputs, input.requestAck = true ∧ input.id = ack.messageId) := by
    rw [h]
    exact ⟨Or.inl, Or.inl⟩
  have hinserts (hkind : (∃ input, c = .insertMessage input) ∨
      ∃ inputs, c = .insertMessageBatch inputs) :
      (ack ∈ (store.execute worker visit c).1.pendingAcks.rows →
          ack ∈ store.pendingAcks.rows ∨
            ∃ input ∈ c.inputs, input.requestAck = true ∧ ack = awaited input) ∧
        (ack ∈ store.pendingAcks.rows →
          ack ∈ (store.execute worker visit c).1.pendingAcks.rows ∨
            c = .clearPendingAck (some ack.messageId) ∨
              ∃ input ∈ c.inputs, input.requestAck = true ∧ input.id = ack.messageId) := by
    -- the insertions, one input at a time
    refine execute_inserts_keeps (P := fun s =>
      (ack ∈ s.pendingAcks.rows → ack ∈ store.pendingAcks.rows ∨ _) ∧
        (ack ∈ store.pendingAcks.rows → ack ∈ s.pendingAcks.rows ∨ _)) hkind ?_ ⟨Or.inl, Or.inl⟩
    intro s input now fault late hin hkept
    rcases insertMessage_pendingAcks worker.choose s input now fault late with
      hnone | ⟨hrequest, hput⟩
    · rwa [hnone]
    · rw [hput]
      constructor
      · intro hack
        rcases Table.mem_put.1 hack with ⟨hold, -⟩ | hnew
        · exact hkept.1 hold
        · exact Or.inr ⟨input, hin, hrequest, hnew⟩
      · intro hack
        rcases hkept.2 hack with hold | hgone
        · -- the row of the same message is replaced
          by_cases hid : ack.messageId = input.id
          · exact Or.inr (Or.inr ⟨input, hin, hrequest, hid.symm⟩)
          · exact Or.inl (Table.mem_put.2 (Or.inl ⟨hold, hid⟩))
        · exact Or.inr hgone
  cases c with
  | insertMessage input => exact hinserts (Or.inl ⟨input, rfl⟩)
  | insertMessageBatch inputs => exact hinserts (Or.inr ⟨inputs, rfl⟩)
  | clearPendingAck messageId =>
    cases messageId with
    | none => exact hsame (by rw [execute]; split_ifs <;> rfl)
    | some messageId =>
      by_cases hfault : visit.fault 0 = .none
      · -- the delete statement removes the named row and no other
        have hcleared : (store.execute worker visit (.clearPendingAck (some messageId))).1.pendingAcks =
            store.pendingAcks.delete messageId := by
          rw [execute, if_pos hfault]
          rfl
        rw [hcleared]
        constructor
        · exact fun hack => Or.inl (Table.mem_delete.1 hack).1
        · intro hack
          by_cases hid : ack.messageId = messageId
          · exact Or.inr (Or.inl (by rw [hid]))
          · exact Or.inl (Table.mem_delete.2 ⟨hack, hid⟩)
      · exact hsame (by rw [execute, if_neg hfault])
  | getMessageRecipient messageId => exact hsame (by rw [execute]; split_ifs <;> rfl)
  | setPresence input keyOrigin originHub => exact hsame (setPresence_messages _ _ _ _ _ _).2
  | syncPush originHub items => exact hsame rfl
  | syncPushPresence originHub events =>
    exact hsame (syncPresenceEvents_messages _ _ _ _ _ _ _).2

end Store

end AgentHub.Cloud
