import Mathlib.Tactic
import AgentHub.Outbox.Journal

/-!
# What an accepted log looks like

`load` goes through the records of a file with about ten rules.  Here these rules are turned into
facts about the list of events: `LogState events s` says which requests are pending and attempted
after `events`, that no identifier is queued or settled twice, and that sequences ascend.
`logState_of_applyEvents` proves it of every list the loop accepts.

A log starts with its header (`applyEvents_start`), and from then on neither the expected
destination nor the identifier drawn for a new journal matters; `LoadsTo` names that.
-/

namespace AgentHub.Outbox

open AgentHub.Json AgentHub.Validation

/-! ### Reading a list of events -/

/-- The requests a log retained, in order. -/
def queuedRequests (es : List Event) : List ReplayRequest :=
  es.filterMap fun
    | .queued request => some request
    | _ => none

/-- The identifiers a log settled, in order. -/
def settledIds (es : List Event) : List Uuid :=
  es.filterMap fun
    | .settled requestId _ => some requestId
    | _ => none

/-- The identifiers a log marked as attempted, in order. -/
def attemptedIds (es : List Event) : List Uuid :=
  es.filterMap fun
    | .attempted requestId => some requestId
    | _ => none

/-- The identifiers of a list of requests. -/
def requestIds (rs : List ReplayRequest) : List Uuid := rs.map ReplayRequest.requestId

@[simp] theorem queuedRequests_nil : queuedRequests [] = [] := rfl
@[simp] theorem settledIds_nil : settledIds [] = [] := rfl
@[simp] theorem attemptedIds_nil : attemptedIds [] = [] := rfl
@[simp] theorem requestIds_nil : requestIds [] = [] := rfl

@[simp] theorem queuedRequests_append (a b : List Event) :
    queuedRequests (a ++ b) = queuedRequests a ++ queuedRequests b := by
  simp [queuedRequests]

@[simp] theorem settledIds_append (a b : List Event) :
    settledIds (a ++ b) = settledIds a ++ settledIds b := by
  simp [settledIds]

@[simp] theorem attemptedIds_append (a b : List Event) :
    attemptedIds (a ++ b) = attemptedIds a ++ attemptedIds b := by
  simp [attemptedIds]

@[simp] theorem requestIds_append (a b : List ReplayRequest) :
    requestIds (a ++ b) = requestIds a ++ requestIds b := by
  simp [requestIds]

@[simp] theorem queuedRequests_cons_header (o : Uuid) (d : String) (es : List Event) :
    queuedRequests (.header o d :: es) = queuedRequests es := rfl
@[simp] theorem queuedRequests_cons_queued (r : ReplayRequest) (es : List Event) :
    queuedRequests (.queued r :: es) = r :: queuedRequests es := rfl
@[simp] theorem queuedRequests_cons_attempted (id : Uuid) (es : List Event) :
    queuedRequests (.attempted id :: es) = queuedRequests es := rfl
@[simp] theorem queuedRequests_cons_settled (id : Uuid) (x : Disposition) (es : List Event) :
    queuedRequests (.settled id x :: es) = queuedRequests es := rfl

@[simp] theorem settledIds_cons_header (o : Uuid) (d : String) (es : List Event) :
    settledIds (.header o d :: es) = settledIds es := rfl
@[simp] theorem settledIds_cons_queued (r : ReplayRequest) (es : List Event) :
    settledIds (.queued r :: es) = settledIds es := rfl
@[simp] theorem settledIds_cons_attempted (id : Uuid) (es : List Event) :
    settledIds (.attempted id :: es) = settledIds es := rfl
@[simp] theorem settledIds_cons_settled (id : Uuid) (x : Disposition) (es : List Event) :
    settledIds (.settled id x :: es) = id :: settledIds es := rfl

@[simp] theorem attemptedIds_cons_header (o : Uuid) (d : String) (es : List Event) :
    attemptedIds (.header o d :: es) = attemptedIds es := rfl
@[simp] theorem attemptedIds_cons_queued (r : ReplayRequest) (es : List Event) :
    attemptedIds (.queued r :: es) = attemptedIds es := rfl
@[simp] theorem attemptedIds_cons_attempted (id : Uuid) (es : List Event) :
    attemptedIds (.attempted id :: es) = id :: attemptedIds es := rfl
@[simp] theorem attemptedIds_cons_settled (id : Uuid) (x : Disposition) (es : List Event) :
    attemptedIds (.settled id x :: es) = attemptedIds es := rfl

theorem mem_queuedRequests {es : List Event} {r : ReplayRequest} :
    r ∈ queuedRequests es ↔ .queued r ∈ es := by
  unfold queuedRequests
  rw [List.mem_filterMap]
  constructor
  · rintro ⟨e, he, hr⟩
    cases e <;> simp_all
  · exact fun h => ⟨_, h, rfl⟩

theorem mem_settledIds {es : List Event} {id : Uuid} :
    id ∈ settledIds es ↔ ∃ x, .settled id x ∈ es := by
  unfold settledIds
  rw [List.mem_filterMap]
  constructor
  · rintro ⟨e, he, hr⟩
    cases e with
    | settled id' x =>
      simp only [Option.some.injEq] at hr
      exact ⟨x, hr ▸ he⟩
    | _ => simp at hr
  · rintro ⟨x, h⟩
    exact ⟨_, h, rfl⟩

theorem mem_attemptedIds {es : List Event} {id : Uuid} :
    id ∈ attemptedIds es ↔ .attempted id ∈ es := by
  unfold attemptedIds
  rw [List.mem_filterMap]
  constructor
  · rintro ⟨e, he, hr⟩
    cases e <;> simp_all
  · exact fun h => ⟨_, h, rfl⟩

theorem mem_requestIds {rs : List ReplayRequest} {id : Uuid} :
    id ∈ requestIds rs ↔ ∃ r ∈ rs, r.requestId = id := by
  simp [requestIds]

/-! ### Sequence numbers and the pending map -/

theorem checkedAdd_one {a b : UInt64} (h : checkedAdd a 1 = some b) :
    b.toNat = a.toNat + 1 := by
  unfold checkedAdd at h
  split at h
  case isTrue hlt =>
    simp only [Option.some.injEq] at h
    subst h
    rw [UInt64.toNat_add]
    simp only [UInt64.toNat_one] at hlt ⊢
    exact Nat.mod_eq_of_lt hlt
  case isFalse => simp at h

/-- Appending is what inserting a request above all others does. -/
theorem insertPending_of_lt {r : ReplayRequest} {ps : List ReplayRequest}
    (h : ∀ p ∈ ps, p.sequence < r.sequence) : insertPending r ps = ps ++ [r] := by
  induction ps with
  | nil => rfl
  | cons p ps ih =>
    have hp : p.sequence < r.sequence := h p (by simp)
    have hnlt : ¬ r.sequence < p.sequence := by
      rw [UInt64.lt_iff_toNat_lt] at hp ⊢
      omega
    have hne : r.sequence ≠ p.sequence := fun heq => by
      rw [heq, UInt64.lt_iff_toNat_lt] at hp
      omega
    simp only [insertPending, if_neg hnlt, if_neg hne, List.cons_append]
    rw [ih fun q hq => h q (by simp [hq])]

theorem sequence_ne_of_lt {p q : ReplayRequest} (h : p.sequence < q.sequence) :
    p.sequence ≠ q.sequence := by
  intro heq
  rw [heq, UInt64.lt_iff_toNat_lt] at h
  omega

/-- In a list with ascending sequences the sequence names the request. -/
theorem eq_of_sequence_eq {ps : List ReplayRequest}
    (hps : ps.Pairwise fun a b => a.sequence < b.sequence) {p q : ReplayRequest} (hp : p ∈ ps)
    (hq : q ∈ ps) (h : p.sequence = q.sequence) : p = q := by
  induction ps with
  | nil => simp at hp
  | cons x xs ih =>
    obtain ⟨hx, hxs⟩ := List.pairwise_cons.mp hps
    rcases List.mem_cons.mp hp with rfl | hp' <;> rcases List.mem_cons.mp hq with rfl | hq'
    · rfl
    · exact absurd h (sequence_ne_of_lt (hx q hq'))
    · exact absurd h.symm (sequence_ne_of_lt (hx p hp'))
    · exact ih hxs hp' hq'

/-- In a list with distinct identifiers the identifier names the request. -/
theorem eq_of_requestId_eq {ps : List ReplayRequest} (hps : (requestIds ps).Nodup)
    {p q : ReplayRequest} (hp : p ∈ ps) (hq : q ∈ ps) (h : p.requestId = q.requestId) : p = q :=
  List.inj_on_of_nodup_map hps hp hq h

/-- Removing a sequence is removing the identifier of the request that has it. -/
theorem removePending_eq {ps : List ReplayRequest}
    (hseq : ps.Pairwise fun a b => a.sequence < b.sequence) (hids : (requestIds ps).Nodup)
    {r : ReplayRequest} (hr : r ∈ ps) :
    removePending r.sequence ps = ps.filter fun p => p.requestId ≠ r.requestId := by
  unfold removePending
  apply List.filter_congr
  intro p hp
  have hiff : p.sequence = r.sequence ↔ p.requestId = r.requestId :=
    ⟨fun h => congrArg _ (eq_of_sequence_eq hseq hp hr h),
      fun h => congrArg _ (eq_of_requestId_eq hids hp hr h)⟩
  simp [hiff]

/-! ### The loop over the records -/

theorem applyEvents_append (expected : Option String) (s : Loading) (a b : List Event) :
    applyEvents expected s (a ++ b) =
      (applyEvents expected s a).bind fun t => applyEvents expected t b := by
  induction a generalizing s with
  | nil => rfl
  | cons e a ih =>
    simp only [List.cons_append, applyEvents]
    cases applyEvent expected s e with
    | error err => rfl
    | ok t => exact ih t

theorem applyEvents_singleton (expected : Option String) (s : Loading) (e : Event) :
    applyEvents expected s [e] = applyEvent expected s e := by
  unfold applyEvents
  cases applyEvent expected s e <;> rfl

theorem applyEvents_snoc_of_ok {expected : Option String} {s t : Loading} {es : List Event}
    (h : applyEvents expected s es = .ok t) (e : Event) :
    applyEvents expected s (es ++ [e]) = applyEvent expected t e := by
  rw [applyEvents_append, h]
  simp only [Except.bind, applyEvents_singleton]

/-- The loading state a header leads to. -/
def Loading.boundTo (originId : Uuid) (destination : String) : Loading where
  journal := (Loading.start originId).journal
  headerSeen := true
  bound := some destination
  allIds := ∅

/-- **A log that loads.**  The events are a header naming `d`, and what the loop accepts after
it. -/
def LoadsTo (d : String) (es : List Event) (s : Loading) : Prop :=
  ∃ originId rest, es = .header originId d :: rest ∧
    recordLen (.header originId d) - 1 ≤ recordLimit ∧
    applyEvents none (Loading.boundTo originId d) rest = .ok s

theorem applyEvent_of_headerSeen {s : Loading} (hs : s.headerSeen = true)
    (expected : Option String) (e : Event) : applyEvent expected s e = applyEvent none s e := by
  unfold applyEvent applyRecord
  cases e <;> simp [applyHeader, hs]

theorem applyQueued_ok {s t : Loading} {r : ReplayRequest} (h : applyQueued s r = .ok t) :
    r.validate = .ok () ∧ s.headerSeen = true ∧ r.originId = s.journal.originId ∧
      r.sequence = s.journal.nextSequence ∧ r.requestId ∉ s.allIds ∧
      ∃ n, checkedAdd r.sequence 1 = some n ∧
        t = { s with
          journal := { s.journal with
            nextSequence := n
            pending := insertPending r s.journal.pending }
          allIds := insert r.requestId s.allIds } := by
  unfold applyQueued at h
  split at h
  case h_1 => simp at h
  case h_2 hvalid =>
    split at h
    case isTrue => simp at h
    case isFalse hguard =>
      push Not at hguard
      obtain ⟨hheader, horigin, hseq, hid⟩ := hguard
      split at h
      case h_1 => simp at h
      case h_2 n hn =>
        simp only [Except.ok.injEq] at h
        exact ⟨hvalid, by simpa using hheader, horigin, hseq, hid, n, hn, h.symm⟩

theorem applyAttempted_ok {s t : Loading} {id : Uuid} (h : applyAttempted s id = .ok t) :
    (∃ r ∈ s.journal.pending, r.requestId = id) ∧ id ∉ s.journal.attempted ∧
      t = { s with
        journal := { s.journal with attempted := insert id s.journal.attempted } } := by
  unfold applyAttempted at h
  split at h
  case isTrue => simp at h
  case isFalse hguard =>
    push Not at hguard
    simp only [Except.ok.injEq] at h
    exact ⟨by simpa using hguard.1, hguard.2, h.symm⟩

theorem applySettled_ok {s t : Loading} {id : Uuid} (h : applySettled s id = .ok t) :
    ∃ r ∈ s.journal.pending, r.requestId = id ∧
      t = { s with
        journal := { s.journal with
          pending := removePending r.sequence s.journal.pending
          attempted := s.journal.attempted.erase id } } := by
  unfold applySettled at h
  split at h
  case h_1 => simp at h
  case h_2 r hr =>
    simp only [Except.ok.injEq] at h
    exact ⟨r, List.mem_of_find?_eq_some hr, by simpa using List.find?_some hr, h.symm⟩

/-- What one accepted record is, once the header has been seen. -/
theorem applyEvent_ok {s t : Loading} (hs : s.headerSeen = true) {e : Event}
    (h : applyEvent none s e = .ok t) :
    recordLen e - 1 ≤ recordLimit ∧
      ((∃ r, e = .queued r ∧ applyQueued s r = .ok t) ∨
        (∃ id, e = .attempted id ∧ applyAttempted s id = .ok t) ∨
        ∃ id x, e = .settled id x ∧ applySettled s id = .ok t) := by
  unfold applyEvent applyRecord at h
  split at h
  case isTrue => simp at h
  case isFalse hlen =>
    refine ⟨by omega, ?_⟩
    cases e with
    | header o d => simp [applyHeader, hs] at h
    | queued r => exact .inl ⟨r, rfl, h⟩
    | attempted id => exact .inr (.inl ⟨id, rfl, h⟩)
    | settled id x => exact .inr (.inr ⟨id, x, rfl, h⟩)

/-! ### The state of a log -/

/-- **What the rules of `load` amount to.**  `es` are the records after the header. -/
structure LogState (es : List Event) (s : Loading) : Prop where
  headerSeen : s.headerSeen = true
  clean : s.journal.poisoned = false
  pending : s.journal.pending = (queuedRequests es).filter fun r => r.requestId ∉ settledIds es
  attempted : ∀ id, id ∈ s.journal.attempted ↔ id ∈ attemptedIds es ∧ id ∉ settledIds es
  allIds : ∀ id, id ∈ s.allIds ↔ id ∈ requestIds (queuedRequests es)
  ids_nodup : (requestIds (queuedRequests es)).Nodup
  settled_nodup : (settledIds es).Nodup
  settled_queued : ∀ id ∈ settledIds es, id ∈ requestIds (queuedRequests es)
  attempted_queued : ∀ id ∈ attemptedIds es, id ∈ requestIds (queuedRequests es)
  sequences : (queuedRequests es).Pairwise fun a b => a.sequence < b.sequence
  next : ∀ r ∈ queuedRequests es, r.sequence < s.journal.nextSequence
  valid : ∀ r ∈ queuedRequests es, r.validate = .ok ()

namespace LogState

theorem boundTo (originId : Uuid) (d : String) : LogState [] (Loading.boundTo originId d) where
  headerSeen := rfl
  clean := rfl
  pending := rfl
  attempted := by simp [Loading.boundTo, Loading.start]
  allIds := by simp [Loading.boundTo]
  ids_nodup := by simp
  settled_nodup := by simp
  settled_queued := by simp
  attempted_queued := by simp
  sequences := by simp
  next := by simp
  valid := by simp

variable {es : List Event} {s t : Loading}

theorem mem_pending (h : LogState es s) {r : ReplayRequest} :
    r ∈ s.journal.pending ↔ r ∈ queuedRequests es ∧ r.requestId ∉ settledIds es := by
  rw [h.pending]
  simp

theorem pending_sequences (h : LogState es s) :
    s.journal.pending.Pairwise fun a b => a.sequence < b.sequence := by
  rw [h.pending]
  exact h.sequences.filter _

theorem pending_ids_nodup (h : LogState es s) : (requestIds s.journal.pending).Nodup := by
  rw [h.pending]
  exact h.ids_nodup.sublist (List.Sublist.map _ List.filter_sublist)

theorem queued (h : LogState es s) {r : ReplayRequest} (happly : applyQueued s r = .ok t) :
    LogState (es ++ [.queued r]) t := by
  obtain ⟨hvalid, hheader, -, hseq, hid, n, hn, rfl⟩ := applyQueued_ok happly
  -- the sequence is the next one, and the counter has moved past it
  have hnext : s.journal.nextSequence < n := by
    rw [← hseq, UInt64.lt_iff_toNat_lt, checkedAdd_one hn]
    omega
  have hfresh : r.requestId ∉ requestIds (queuedRequests es) := fun hmem =>
    hid ((h.allIds _).mpr hmem)
  have hunsettled : r.requestId ∉ settledIds es := fun hmem =>
    hfresh (h.settled_queued _ hmem)
  -- the sequence is above all older ones, so the request goes to the end
  have hlt : ∀ p ∈ queuedRequests es, p.sequence < r.sequence := fun p hp => by
    rw [hseq]
    exact h.next p hp
  have hinsert : insertPending r s.journal.pending = s.journal.pending ++ [r] :=
    insertPending_of_lt fun p hp => hlt p (h.mem_pending.mp hp).1
  refine
    { headerSeen := hheader
      clean := h.clean
      pending := ?_
      attempted := ?_
      allIds := ?_
      ids_nodup := ?_
      settled_nodup := by simpa using h.settled_nodup
      settled_queued := ?_
      attempted_queued := ?_
      sequences := ?_
      next := ?_
      valid := ?_ }
  · show insertPending r s.journal.pending = _
    rw [hinsert, h.pending]
    simp [hunsettled]
  · simpa using h.attempted
  · intro id
    simp [h.allIds, requestIds, or_comm, eq_comm]
  · -- the identifier was checked to be new
    simp only [queuedRequests_append, queuedRequests_cons_queued, queuedRequests_nil,
      requestIds_append]
    exact List.nodup_append.mpr ⟨h.ids_nodup, by simp [requestIds], by
      rintro a ha b hb rfl
      simp only [requestIds, List.map_cons, List.map_nil, List.mem_singleton] at hb
      exact hfresh (hb ▸ ha)⟩
  · intro id hmem
    have := h.settled_queued id (by simpa using hmem)
    simp [this]
  · intro id hmem
    have := h.attempted_queued id (by simpa using hmem)
    simp [this]
  · simp only [queuedRequests_append, queuedRequests_cons_queued, queuedRequests_nil]
    exact List.pairwise_append.mpr ⟨h.sequences, by simp, by simpa using hlt⟩
  · intro p hp
    simp only [queuedRequests_append, queuedRequests_cons_queued, queuedRequests_nil,
      List.mem_append, List.mem_singleton] at hp
    rcases hp with hp | rfl
    · exact UInt64.lt_trans (h.next p hp) hnext
    · rw [hseq]
      exact hnext
  · intro p hp
    simp only [queuedRequests_append, queuedRequests_cons_queued, queuedRequests_nil,
      List.mem_append, List.mem_singleton] at hp
    rcases hp with hp | rfl
    · exact h.valid p hp
    · exact hvalid

theorem attempt (h : LogState es s) {id : Uuid} (happly : applyAttempted s id = .ok t) :
    LogState (es ++ [.attempted id]) t := by
  obtain ⟨⟨r, hr, rfl⟩, -, rfl⟩ := applyAttempted_ok happly
  -- only a pending request is marked
  obtain ⟨hqueued, hunsettled⟩ := h.mem_pending.mp hr
  refine
    { headerSeen := h.headerSeen
      clean := h.clean
      pending := by simpa using h.pending
      attempted := ?_
      allIds := by simpa using h.allIds
      ids_nodup := by simpa using h.ids_nodup
      settled_nodup := by simpa using h.settled_nodup
      settled_queued := by simpa using h.settled_queued
      attempted_queued := ?_
      sequences := by simpa using h.sequences
      next := by simpa using h.next
      valid := by simpa using h.valid }
  · intro id
    simp only [Finset.mem_insert, h.attempted, attemptedIds_append, attemptedIds_cons_attempted,
      attemptedIds_nil, settledIds_append, settledIds_cons_attempted, settledIds_nil,
      List.append_nil, List.mem_append, List.mem_singleton]
    constructor
    · rintro (rfl | ⟨ha, hs⟩)
      · exact ⟨.inr rfl, hunsettled⟩
      · exact ⟨.inl ha, hs⟩
    · -- an older mark stands as before, the new one is of a request not settled
      rintro ⟨ha | rfl, hs⟩
      · exact .inr ⟨ha, hs⟩
      · exact .inl rfl
  · intro id hmem
    simp only [attemptedIds_append, attemptedIds_cons_attempted, attemptedIds_nil,
      List.mem_append, List.mem_singleton] at hmem
    simp only [queuedRequests_append, queuedRequests_cons_attempted, queuedRequests_nil,
      List.append_nil]
    rcases hmem with hmem | rfl
    · exact h.attempted_queued id hmem
    · exact mem_requestIds.mpr ⟨r, hqueued, rfl⟩

theorem settle (h : LogState es s) {id : Uuid} (x : Disposition)
    (happly : applySettled s id = .ok t) : LogState (es ++ [.settled id x]) t := by
  obtain ⟨r, hr, rfl, rfl⟩ := applySettled_ok happly
  obtain ⟨hqueued, hunsettled⟩ := h.mem_pending.mp hr
  -- the request that is settled is the only one with its sequence
  have hremove := removePending_eq h.pending_sequences h.pending_ids_nodup hr
  refine
    { headerSeen := h.headerSeen
      clean := h.clean
      pending := ?_
      attempted := ?_
      allIds := by simpa using h.allIds
      ids_nodup := by simpa using h.ids_nodup
      settled_nodup := ?_
      settled_queued := ?_
      attempted_queued := by simpa using h.attempted_queued
      sequences := by simpa using h.sequences
      next := by simpa using h.next
      valid := by simpa using h.valid }
  · show removePending r.sequence s.journal.pending = _
    rw [hremove, h.pending, List.filter_filter]
    simp only [queuedRequests_append, queuedRequests_cons_settled, queuedRequests_nil,
      List.append_nil, settledIds_append, settledIds_cons_settled, settledIds_nil]
    -- the two filters commute: not settled before, and not settled now
    apply List.filter_congr
    intro p _
    simp [and_comm]
  · intro id
    simp only [Finset.mem_erase, h.attempted, attemptedIds_append, attemptedIds_cons_settled,
      attemptedIds_nil, settledIds_append, settledIds_cons_settled, settledIds_nil,
      List.append_nil, List.mem_append, List.mem_singleton, not_or]
    tauto
  · simp only [settledIds_append, settledIds_cons_settled, settledIds_nil]
    refine List.nodup_append.mpr ⟨h.settled_nodup, by simp, ?_⟩
    -- a request is settled once, as it was pending
    rintro a ha b hb rfl
    simp only [List.mem_singleton] at hb
    exact hunsettled (hb ▸ ha)
  · intro id hmem
    simp only [settledIds_append, settledIds_cons_settled, settledIds_nil, List.mem_append,
      List.mem_singleton] at hmem
    simp only [queuedRequests_append, queuedRequests_cons_settled, queuedRequests_nil,
      List.append_nil]
    rcases hmem with hmem | rfl
    · exact h.settled_queued id hmem
    · exact mem_requestIds.mpr ⟨r, hqueued, rfl⟩

/-- One accepted record keeps the state of the log. -/
theorem applyEvent (h : LogState es s) {e : Event} (happly : applyEvent none s e = .ok t) :
    LogState (es ++ [e]) t := by
  obtain ⟨-, hcase⟩ := applyEvent_ok h.headerSeen happly
  rcases hcase with ⟨r, rfl, hr⟩ | ⟨id, rfl, hr⟩ | ⟨id, x, rfl, hr⟩
  · exact h.queued hr
  · exact h.attempt hr
  · exact h.settle x hr

end LogState

/-- **Every accepted log is well formed.** -/
theorem logState_of_applyEvents {o : Uuid} {d : String} {es : List Event} {s : Loading}
    (h : applyEvents none (Loading.boundTo o d) es = .ok s) : LogState es s := by
  induction es using List.reverseRecOn generalizing s with
  | nil =>
    simp only [applyEvents, Except.ok.injEq] at h
    exact h ▸ LogState.boundTo o d
  | append_singleton es e ih =>
    rw [applyEvents_append] at h
    cases ht : applyEvents none (Loading.boundTo o d) es with
    | error err => simp [ht, Except.bind] at h
    | ok t =>
      simp only [ht, Except.bind, applyEvents_singleton] at h
      exact (ih ht).applyEvent h

/-! ### Logs that load -/

/-- A record after the header leaves the header's data alone. -/
theorem applyEvent_keeps {s t : Loading} (hs : s.headerSeen = true) {e : Event}
    (h : applyEvent none s e = .ok t) :
    t.headerSeen = true ∧ t.bound = s.bound ∧ t.journal.originId = s.journal.originId := by
  obtain ⟨-, ⟨r, -, hr⟩ | ⟨id, -, hr⟩ | ⟨id, x, -, hr⟩⟩ := applyEvent_ok hs h
  · obtain ⟨-, -, -, -, -, n, -, rfl⟩ := applyQueued_ok hr
    exact ⟨hs, rfl, rfl⟩
  · obtain ⟨-, -, rfl⟩ := applyAttempted_ok hr
    exact ⟨hs, rfl, rfl⟩
  · obtain ⟨r, -, -, rfl⟩ := applySettled_ok hr
    exact ⟨hs, rfl, rfl⟩

theorem applyEvents_of_headerSeen {s : Loading} (hs : s.headerSeen = true)
    (expected : Option String) (es : List Event) :
    applyEvents expected s es = applyEvents none s es := by
  induction es generalizing s with
  | nil => rfl
  | cons e es ih =>
    simp only [applyEvents]
    rw [applyEvent_of_headerSeen hs]
    cases h : applyEvent none s e with
    | error err => rfl
    | ok t =>
      exact ih (applyEvent_keeps hs h).1

/-- Without a header no other record is accepted. -/
theorem applyEvent_start_ok {expected : Option String} {o : Uuid} {e : Event} {s : Loading}
    (h : applyEvent expected (Loading.start o) e = .ok s) :
    ∃ o' d, e = .header o' d ∧ recordLen e - 1 ≤ recordLimit ∧ (∀ x ∈ expected, d = x) ∧
      s = Loading.boundTo o' d := by
  unfold applyEvent applyRecord at h
  -- the length of the record is checked before its content
  split at h
  case isTrue => simp at h
  case isFalse hlen =>
    cases e with
    | header o' d =>
      simp only [applyHeader, Loading.start, Bool.false_eq_true, ne_eq, not_true_eq_false, or_self,
        if_false] at h
      split at h
      case isTrue => simp at h
      case isFalse hexpected =>
        refine ⟨o', d, rfl, by omega, ?_, by simpa [Loading.boundTo, Loading.start] using h.symm⟩
        -- any header binds a journal that nothing is expected of
        intro x hx
        simpa [Option.mem_def.mp hx] using hexpected
    -- without a header every other record is refused
    | queued r =>
      obtain ⟨-, hheader, -⟩ := applyQueued_ok h
      simp [Loading.start] at hheader
    | attempted id =>
      obtain ⟨⟨r, hr, -⟩, -⟩ := applyAttempted_ok h
      simp [Loading.start] at hr
    | settled id x =>
      obtain ⟨r, hr, -⟩ := applySettled_ok h
      simp [Loading.start] at hr

/-- What the loop of `load` accepts: nothing at all, or a log of the expected destination. -/
theorem applyEvents_start_ok {expected : Option String} {o : Uuid} {es : List Event} {s : Loading}
    (h : applyEvents expected (Loading.start o) es = .ok s) :
    (es = [] ∧ s = Loading.start o) ∨ ∃ d, LoadsTo d es s ∧ ∀ x ∈ expected, d = x := by
  cases es with
  | nil =>
    simp only [applyEvents, Except.ok.injEq] at h
    exact .inl ⟨rfl, h.symm⟩
  | cons e es =>
    simp only [applyEvents] at h
    cases ht : applyEvent expected (Loading.start o) e with
    | error err => simp [ht, bind, Except.bind] at h
    | ok t =>
      obtain ⟨o', d, rfl, hlen, hd, rfl⟩ := applyEvent_start_ok ht
      simp only [ht, bind, Except.bind] at h
      rw [applyEvents_of_headerSeen rfl] at h
      exact .inr ⟨d, ⟨o', es, rfl, hlen, h⟩, hd⟩

/-- Dropping the header changes nothing about requests. -/
theorem LogState.cons_header {es : List Event} {s : Loading} (h : LogState es s) (o : Uuid)
    (d : String) : LogState (.header o d :: es) s where
  headerSeen := h.headerSeen
  clean := h.clean
  pending := h.pending
  attempted := h.attempted
  allIds := h.allIds
  ids_nodup := h.ids_nodup
  settled_nodup := h.settled_nodup
  settled_queued := h.settled_queued
  attempted_queued := h.attempted_queued
  sequences := h.sequences
  next := h.next
  valid := h.valid

namespace LoadsTo

variable {d : String} {es : List Event} {s t : Loading}

theorem state (h : LoadsTo d es s) : LogState es s := by
  obtain ⟨o, rest, rfl, -, happly⟩ := h
  exact (logState_of_applyEvents happly).cons_header o d

theorem snoc (h : LoadsTo d es s) {e : Event} (he : applyEvent none s e = .ok t) :
    LoadsTo d (es ++ [e]) t := by
  obtain ⟨o, rest, rfl, hlen, happly⟩ := h
  exact ⟨o, rest ++ [e], rfl, hlen, by rw [applyEvents_snoc_of_ok happly, he]⟩

/-- A log loads to one state, under one destination. -/
theorem unique {d' : String} (h : LoadsTo d es s) (h' : LoadsTo d' es t) : d = d' ∧ s = t := by
  obtain ⟨o, rest, rfl, -, happly⟩ := h
  obtain ⟨o', rest', heq, -, happly'⟩ := h'
  simp only [List.cons.injEq, Event.header.injEq] at heq
  obtain ⟨⟨rfl, rfl⟩, rfl⟩ := heq
  rw [happly] at happly'
  exact ⟨rfl, by simpa using happly'⟩

theorem header (h : LoadsTo d es s) : ∃ o rest, es = .header o d :: rest := by
  obtain ⟨o, rest, rfl, -, -⟩ := h
  exact ⟨o, rest, rfl⟩

/-- The origin and the destination are those of the header, from the first record on. -/
theorem bound (h : LoadsTo d es s) : s.bound = some d := by
  obtain ⟨o, rest, rfl, -, happly⟩ := h
  induction rest using List.reverseRecOn generalizing s with
  | nil =>
    simp only [applyEvents, Except.ok.injEq] at happly
    subst happly
    rfl
  | append_singleton rest e ih =>
    rw [applyEvents_append] at happly
    cases ht : applyEvents none (Loading.boundTo o d) rest with
    | error err => simp [ht, Except.bind] at happly
    | ok t =>
      simp only [ht, Except.bind, applyEvents_singleton] at happly
      have hs := (logState_of_applyEvents ht).headerSeen
      rw [(applyEvent_keeps hs happly).2.1]
      exact ih ht

/-- The loop reads a log back whatever identifier was drawn, for its own destination or none. -/
theorem applyEvents_start (h : LoadsTo d es s) (o : Uuid) {expected : Option String}
    (hexpected : ∀ x ∈ expected, d = x) : applyEvents expected (Loading.start o) es = .ok s := by
  obtain ⟨o', rest, rfl, hlen, happly⟩ := h
  have hheader : applyEvent expected (Loading.start o) (.header o' d) =
      .ok (Loading.boundTo o' d) := by
    unfold applyEvent applyRecord
    rw [if_neg (by omega)]
    simp only [applyHeader, Loading.start, Bool.false_eq_true, ne_eq, not_true_eq_false, or_self,
      if_false]
    rw [if_neg]
    · rfl
    · cases expected with
      | none => simp
      | some x => simp [hexpected x rfl]
  simp only [applyEvents, hheader, bind, Except.bind]
  rw [applyEvents_of_headerSeen rfl, happly]

end LoadsTo

end AgentHub.Outbox
