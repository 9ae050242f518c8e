import AgentHub.Cloud.BusLog

/-!
# What the operations do to the log

An insertion adds one row at the end or leaves the log alone, and a message whose row is already
there is found by it, whichever of the rows with one of its keys a query returns first: there is
only that one.  `syncItems_spec` carries this through the loop of a push.
-/

namespace AgentHub.Cloud

open AgentHub.Json AgentHub.Paging

/-- The row holds the message under the hub. -/
def Row.Holds (row : Row) (originHub : String) (fields : MessageFields) : Prop :=
  row.originHub = originHub ∧ row.toMessageFields = fields

/-- The row has the keys of the message and what a conflict is decided by. -/
def Row.Matches (row : Row) (originHub : String) (fields : MessageFields) : Prop :=
  row.originHub = originHub ∧ row.id = fields.id ∧ row.clientMsgId = fields.clientMsgId ∧
    row.fromAgent = fields.fromAgent ∧ row.toAgent = fields.toAgent ∧ row.topic = fields.topic ∧
    row.body = fields.body

theorem Row.Holds.matches {row : Row} {originHub : String} {fields : MessageFields}
    (h : row.Holds originHub fields) : row.Matches originHub fields := by
  obtain ⟨horigin, rfl⟩ := h
  exact ⟨horigin, rfl, rfl, rfl, rfl, rfl, rfl⟩

namespace BusLog

variable {choose : List Row → Nat} {log : BusLog} {originHub : String}

theorem newRow_holds (log : BusLog) (fields : MessageFields) (originHub : String) (now : Int) :
    (log.newRow fields originHub now).Holds originHub fields := ⟨rfl, rfl⟩

theorem insertRow_eq_some {fields : MessageFields} {now : Int} {log' : BusLog} {row : Row}
    (h : log.insertRow fields originHub now = some (log', row)) :
    row = log.newRow fields originHub now ∧ log'.rows = log.rows ++ [row] ∧
      log'.lastSeq = log.lastSeq + 1 := by
  simp only [insertRow] at h
  split at h
  case isTrue =>
    obtain ⟨rfl, rfl⟩ := Prod.mk.inj (Option.some.inj h)
    exact ⟨rfl, rfl, rfl⟩
  case isFalse => cases h

/-! ### Looking a message up -/

theorem limitOne_singleton (row : Row) : limitOne choose [row] = some row := by
  simp [limitOne, Nat.mod_one]

theorem limitOne_mem {rows : List Row} {row : Row} (h : limitOne choose rows = some row) :
    row ∈ rows := List.mem_of_getElem? h

theorem eq_of_clash {a b : Row} (ha : a ∈ log.rows) (hb : b ∈ log.rows) (h : a.Clash b) :
    a = b := by
  by_contra hne
  have hsymm : Std.Symm fun x y : Row => ¬ x.Clash y := by
    constructor
    intro x y hxy hyx
    refine hxy ⟨hyx.1.symm, ?_⟩
    rcases hyx.2 with hid | ⟨hsome, hkey⟩
    · exact Or.inl hid.symm
    · exact Or.inr ⟨hkey ▸ hsome, hkey.symm⟩
  exact log.unique.forall ha hb hne h

/-- A row that every row of a selection clashes with is the only one selected. -/
theorem filter_eq_singleton {p : Row → Bool} {row : Row} (hmem : row ∈ log.rows) (hp : p row = true)
    (h : ∀ other ∈ log.rows, p other = true → other.Clash row) : log.rows.filter p = [row] := by
  have hself : row ∈ log.rows.filter p := List.mem_filter.2 ⟨hmem, hp⟩
  have hall : ∀ other ∈ log.rows.filter p, other = row := by
    intro other hother
    obtain ⟨hin, hsel⟩ := List.mem_filter.1 hother
    exact eq_of_clash hin hmem (h other hin hsel)
  have hnodup : (log.rows.filter p).Nodup := by
    refine (List.Pairwise.imp ?_ log.ascending).filter _
    intro a b hlt heq
    exact absurd hlt (heq ▸ Nat.lt_irrefl _)
  generalize log.rows.filter p = found at hself hall hnodup
  match found, hself, hall, hnodup with
  | [a], _, hall, _ => rw [hall a List.mem_cons_self]
  | a :: b :: rest, _, hall, hnodup =>
    have hab : a = b := by
      rw [hall a List.mem_cons_self, hall b (by simp)]
    simp [hab] at hnodup

/-- A row is the only one with a key of its message. -/
theorem withKey_of_matches {fields : MessageFields} {row : Row} (hmem : row ∈ log.rows)
    (h : row.Matches originHub fields) :
    log.withKey originHub fields.id (fields.clientMsgId.filter fun key => !key.isEmpty) =
      [row] := by
  obtain ⟨horigin, hid, hclient, -⟩ := h
  apply filter_eq_singleton hmem
  · simp [horigin, hid]
  · intro other hin hsel
    simp only [Bool.and_eq_true, Bool.or_eq_true, beq_iff_eq, Option.any_eq_true] at hsel
    obtain ⟨ho, hother | ⟨key, hkey, hother⟩⟩ := hsel
    · exact ⟨ho.trans horigin.symm, Or.inl (hother.trans hid.symm)⟩
    · have hrow : row.clientMsgId = some key :=
        hclient.trans (Option.filter_eq_some_iff.1 hkey).1
      exact ⟨ho.trans horigin.symm, Or.inr ⟨by rw [hother]; rfl, hother.trans hrow.symm⟩⟩

/-! ### Insertion -/

theorem insertMessage_inserted {fields : MessageFields} {now : Int} {fault : Fault} {log' : BusLog}
    {row : Row} (h : insertMessage choose log fields originHub now fault = .inserted log' row) :
    row = log.newRow fields originHub now ∧ log'.rows = log.rows ++ [row] ∧
      log'.lastSeq = log.lastSeq + 1 := by
  unfold insertMessage at h
  split at h
  case isTrue => cases h
  case isFalse =>
    split at h
    case h_1 => cases h
    case h_2 =>
      split at h
      case h_1 => cases h
      case h_2 hinsert _ =>
        cases h
        exact insertRow_eq_some hinsert
      case h_3 => cases h

/-- A message that is in the log is found there, unless the look-up fails. -/
theorem insertMessage_of_matches {fields : MessageFields} {row : Row} (hmem : row ∈ log.rows)
    (h : row.Matches originHub fields) (now : Int) (fault : Fault) :
    insertMessage choose log fields originHub now fault = .failed false ∨
      insertMessage choose log fields originHub now fault = .existing row false := by
  unfold insertMessage
  split
  case isTrue => exact Or.inl rfl
  case isFalse =>
    right
    rw [withKey_of_matches hmem h, limitOne_singleton]
    obtain ⟨-, -, -, hfrom, hto, htopic, hbody⟩ := h
    simp [messageContentDiffers, hfrom, hto, htopic, hbody]

/-! ### The loop of a push -/

/-- The checks `syncPush` repeats before it inserts. -/
def Storable (originHub : String) (item : InsertMessageInput) : Prop :=
  item.sensitivity ≠ some "no-offsite" ∧
    ([item.fromAgent, item.toAgent, item.topic, item.body].any fun s => (Js.trim s).isEmpty) = false ∧
      ((item.originHub.filter fun hub => !hub.isEmpty).any fun hub => hub ≠ originHub) = false

theorem syncItem_of_storable {item : InsertMessageInput} (h : Storable originHub item) (now : Int)
    (fault : Fault) :
    syncItem choose log originHub item now fault =
      match insertMessage choose log item.toMessageFields originHub now fault with
      | .inserted log row => some (log, .accepted row)
      | .existing row true => some (log, .conflict row)
      | .existing row false => some (log, .duplicate row)
      | .failed true => some (log, .rejected "storage rejected the message")
      | .failed false => none := by
  obtain ⟨h₁, h₂, h₃⟩ := h
  unfold syncItem
  exact (if_neg h₁).trans ((if_neg (by rw [h₂]; decide)).trans (if_neg (by rw [h₃]; decide)))

/-- What one item does: it adds its row, or the log stays. -/
theorem syncItem_cases {item : InsertMessageInput} {now : Int} {fault : Fault} {log' : BusLog}
    {result : ItemResult} (h : syncItem choose log originHub item now fault = some (log', result)) :
    (∃ row, result = .accepted row ∧ Storable originHub item ∧
        row = log.newRow item.toMessageFields originHub now ∧ log'.rows = log.rows ++ [row] ∧
        log'.lastSeq = log.lastSeq + 1) ∨
      (result.isAccepted = false ∧ log' = log) := by
  by_cases hs : Storable originHub item
  · rw [syncItem_of_storable hs] at h
    split at h
    -- only the inserting branch gives an accepted item
    case h_1 hinsert =>
      obtain ⟨rfl, rfl⟩ := Prod.mk.inj (Option.some.inj h)
      exact Or.inl ⟨_, rfl, hs, insertMessage_inserted hinsert⟩
    all_goals
      first
      | cases h
        done
      | obtain ⟨rfl, rfl⟩ := Prod.mk.inj (Option.some.inj h)
        exact Or.inr ⟨rfl, rfl⟩
  · -- the item is refused before the log is looked at
    right
    unfold syncItem at h
    split_ifs at h with h₁ h₂ h₃
    · obtain ⟨rfl, rfl⟩ := Prod.mk.inj (Option.some.inj h)
      exact ⟨rfl, rfl⟩
    · obtain ⟨rfl, rfl⟩ := Prod.mk.inj (Option.some.inj h)
      exact ⟨rfl, rfl⟩
    · obtain ⟨rfl, rfl⟩ := Prod.mk.inj (Option.some.inj h)
      exact ⟨rfl, rfl⟩
    · exact absurd ⟨h₁, by simpa using h₂, by simpa using h₃⟩ hs

/-- A message whose row is in the log is answered as a duplicate, or ends the request. -/
theorem syncItem_of_matches {item : InsertMessageInput} {row : Row} (hs : Storable originHub item)
    (hmem : row ∈ log.rows) (h : row.Matches originHub item.toMessageFields) (now : Int)
    (fault : Fault) :
    syncItem choose log originHub item now fault = none ∨
      syncItem choose log originHub item now fault = some (log, .duplicate row) := by
  rw [syncItem_of_storable hs]
  rcases insertMessage_of_matches hmem h now fault with hi | hi
  · rw [hi]
    exact Or.inl rfl
  · rw [hi]
    exact Or.inr rfl

variable (choose) (originHub) in
/-- Everything a push does to the log, by the results of its items. -/
structure Pushed (log log' : BusLog) (items : List InsertMessageInput) (results : List ItemResult) :
    Prop where
  grows : log.rows <+: log'.rows
  lastSeq_le : log.lastSeq ≤ log'.lastSeq
  /-- The rows that are new were accepted. -/
  new : ∀ row ∈ log'.rows, row ∈ log.rows ∨ ItemResult.accepted row ∈ results
  /-- An accepted item has its row, numbered beyond those before. -/
  accepted : ∀ item row, (item, ItemResult.accepted row) ∈ items.zip results →
    Storable originHub item ∧ row ∈ log'.rows ∧ row.Holds originHub item.toMessageFields ∧
      log.lastSeq < row.seq

variable {now : Int}

theorem syncItems_cons (log : BusLog) (item : InsertMessageInput) (fault : Fault)
    (items : List (InsertMessageInput × Fault)) :
    syncItems choose originHub now log ((item, fault) :: items) =
      match syncItem choose log originHub item now fault with
      | none => (log, [], false)
      | some (log, result) =>
        ((syncItems choose originHub now log items).1,
          result :: (syncItems choose originHub now log items).2.1,
          (syncItems choose originHub now log items).2.2) := rfl

/-- **A push adds the rows of its accepted items and nothing else.** -/
theorem syncItems_spec (log : BusLog) (items : List (InsertMessageInput × Fault)) :
    Pushed originHub log (syncItems choose originHub now log items).1 (items.map Prod.fst)
      (syncItems choose originHub now log items).2.1 := by
  induction items generalizing log with
  | nil => exact ⟨List.prefix_rfl, Nat.le_refl _, fun row h => Or.inl h, by simp [syncItems]⟩
  | cons x items ih =>
    obtain ⟨item, fault⟩ := x
    rw [syncItems_cons]
    cases hitem : syncItem choose log originHub item now fault with
    | none => exact ⟨List.prefix_rfl, Nat.le_refl _, fun row h => Or.inl h, by simp⟩
    | some r =>
      obtain ⟨log₁, result⟩ := r
      -- the rest of the items starts from the log the first one left
      have hrest := ih log₁
      rcases syncItem_cases hitem with ⟨row, rfl, hs, hrow, hrows, hlast⟩ | ⟨hresult, rfl⟩
      · -- the first item is stored: it is the last row so far
        have hfirst : row ∈ log₁.rows := by
          rw [hrows]
          exact List.mem_append_right _ List.mem_cons_self
        refine ⟨?_, ?_, ?_, ?_⟩
        · exact List.IsPrefix.trans (hrows ▸ List.prefix_append _ _) hrest.grows
        · have hle : log.lastSeq ≤ log₁.lastSeq := by omega
          exact hle.trans hrest.lastSeq_le
        · intro r hr
          rcases hrest.new r hr with h | h
          · rw [hrows, List.mem_append, List.mem_singleton] at h
            rcases h with h | h
            · exact Or.inl h
            · exact Or.inr (h ▸ List.mem_cons_self)
          · exact Or.inr (List.mem_cons_of_mem _ h)
        · intro other r hmem
          rw [List.map_cons, List.zip_cons_cons, List.mem_cons] at hmem
          rcases hmem with heq | hmem
          · -- the head: its row was new in the log it met
            obtain ⟨rfl, hr⟩ := Prod.mk.inj heq
            cases hr
            refine ⟨hs, hrest.grows.subset hfirst, ?_, ?_⟩
            · rw [hrow]
              exact newRow_holds log _ _ _
            · rw [hrow]
              exact Nat.lt_succ_self _
          · obtain ⟨h₁, h₂, h₃, h₄⟩ := hrest.accepted other r hmem
            exact ⟨h₁, h₂, h₃, by omega⟩
      · -- the first item left the log as it was
        refine ⟨hrest.grows, hrest.lastSeq_le, ?_, ?_⟩
        · intro r hr
          rcases hrest.new r hr with h | h
          · exact Or.inl h
          · exact Or.inr (List.mem_cons_of_mem _ h)
        · intro other r hmem
          rw [List.map_cons, List.zip_cons_cons, List.mem_cons] at hmem
          rcases hmem with heq | hmem
          · obtain ⟨-, hr⟩ := Prod.mk.inj heq
            rw [← hr] at hresult
            cases hresult
          · exact hrest.accepted other r hmem

/-- An item whose row is in the log before the push is answered as a duplicate. -/
theorem syncItems_duplicate (log : BusLog) (items : List (InsertMessageInput × Fault))
    {item : InsertMessageInput} {result : ItemResult} {row : Row} (hs : Storable originHub item)
    (hrow : row ∈ log.rows) (h : row.Matches originHub item.toMessageFields)
    (hmem : (item, result) ∈
      (items.map Prod.fst).zip (syncItems choose originHub now log items).2.1) :
    result = .duplicate row := by
  induction items generalizing log with
  | nil => cases hmem
  | cons x items ih =>
    obtain ⟨first, fault⟩ := x
    rw [syncItems_cons] at hmem
    cases hitem : syncItem choose log originHub first now fault with
    | none =>
      rw [hitem] at hmem
      simp at hmem
    | some r =>
      obtain ⟨log₁, result₁⟩ := r
      rw [hitem, List.map_cons, List.zip_cons_cons, List.mem_cons] at hmem
      rcases hmem with heq | hmem
      · obtain ⟨rfl, rfl⟩ := Prod.mk.inj heq
        -- the row is there, so the head is a duplicate or the walk stops
        rcases syncItem_of_matches hs hrow h now fault with hnone | hdup
        · rw [hitem] at hnone
          cases hnone
        · rw [hitem] at hdup
          exact (Prod.mk.inj (Option.some.inj hdup)).2
      · apply ih log₁ _ hmem
        -- the row is still there when the tail is served
        rcases syncItem_cases hitem with ⟨_, -, -, -, hrows, -⟩ | ⟨-, rfl⟩
        · rw [hrows]
          exact List.mem_append_left _ hrow
        · exact hrow

theorem syncItems_length (log : BusLog) (items : List (InsertMessageInput × Fault))
    (h : (syncItems choose originHub now log items).2.2 = true) :
    (syncItems choose originHub now log items).2.1.length = items.length := by
  induction items generalizing log with
  | nil => rfl
  | cons x items ih =>
    obtain ⟨item, fault⟩ := x
    rw [syncItems_cons] at h ⊢
    cases hitem : syncItem choose log originHub item now fault with
    | none =>
      rw [hitem] at h
      cases h
    | some r =>
      rw [hitem] at h
      simp only [List.length_cons]
      rw [ih r.1 h]

theorem syncItems_length_le (log : BusLog) (items : List (InsertMessageInput × Fault)) :
    (syncItems choose originHub now log items).2.1.length ≤ items.length := by
  induction items generalizing log with
  | nil => exact Nat.le_refl _
  | cons x items ih =>
    obtain ⟨item, fault⟩ := x
    rw [syncItems_cons]
    cases syncItem choose log originHub item now fault with
    | none => exact Nat.zero_le _
    | some r => exact Nat.succ_le_succ (ih r.1)

theorem eq_of_seq_eq {a b : Row} (ha : a ∈ log.rows) (hb : b ∈ log.rows) (h : a.seq = b.seq) :
    a = b := by
  by_contra hne
  have hlt : log.rows.Pairwise fun x y : Row => x.seq ≠ y.seq :=
    log.ascending.imp fun hxy => hxy.ne
  have hsymm : Std.Symm fun x y : Row => x.seq ≠ y.seq := ⟨fun _ _ hxy => hxy.symm⟩
  exact hlt.forall ha hb hne h

end BusLog

end AgentHub.Cloud
