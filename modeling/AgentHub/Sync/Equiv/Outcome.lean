import AgentHub.Sync.Engine
import Mathlib.Data.List.Nodup
import Mathlib.Data.Option.Basic

/-!
# What an accepted push answer says

`messageOutcome` gives an outcome only for an answer that disposes of every message of the batch:
each is named as accepted, as a duplicate, or as rejected (`messageOutcome_spec`), and a batch that
is answered so has distinct ids.  `acknowledge_spec` is the other half: a batch is acknowledged only
with a receipt for each of its rejected messages, and no receipt is ever dropped.

`messageOutcome_iff` says which answers those are: the ones that `Disposes` of the ids of the batch.
-/

namespace AgentHub.Sync

open AgentHub.Json

/-- An array of the answer has the id. -/
def NamedIn (body : Value) (key id : String) : Prop :=
  ∃ items, body.field? key = some (.arr items) ∧ Value.str id ∈ items

theorem asArray_eq_some {v : Value} {items : List Value} (h : v.asArray = some items) :
    v = .arr items := by
  cases v <;> simp_all [Value.asArray]

theorem asStr_eq_some {v : Value} {s : String} (h : v.asStr = some s) : v = .str s := by
  cases v <;> simp_all [Value.asStr]

theorem seeId_eq_some {expected seen seen' : List String} {id : String}
    (h : seeId expected seen id = some seen') :
    id ∈ expected ∧ id ∉ seen ∧ seen' = seen ++ [id] := by
  unfold seeId at h
  split at h
  case isTrue hc =>
    simp only [Bool.and_eq_true, Bool.not_eq_true', List.contains_eq_mem, decide_eq_true_eq, decide_eq_false_iff_not] at hc
    exact ⟨hc.1, hc.2, (Option.some.inj h).symm⟩
  case isFalse => cases h

theorem seeIds_mem {expected : List String} : ∀ {vs : List Value} {seen seen' : List String},
    seeIds expected seen vs = some seen' → ∀ id ∈ seen', id ∈ seen ∨ Value.str id ∈ vs := by
  intro vs
  induction vs with
  | nil =>
    intro seen seen' h id hid
    obtain rfl : seen = seen' := Option.some.inj h
    exact Or.inl hid
  | cons v vs ih =>
    intro seen seen' h id hid
    simp only [seeIds, Option.bind_eq_bind, Option.bind_eq_some_iff] at h
    obtain ⟨name, hname, mid, hmid, hrest⟩ := h
    obtain ⟨-, -, rfl⟩ := seeId_eq_some hmid
    rcases ih hrest id hid with hmem | hmem
    · rcases List.mem_append.1 hmem with hseen | hnew
      · exact Or.inl hseen
      · right
        rw [List.mem_singleton.1 hnew, ← asStr_eq_some hname]
        exact List.mem_cons_self
    · exact Or.inr (List.mem_cons_of_mem v hmem)

theorem seeRejected_mem {expected : List String} :
    ∀ {vs : List Value} {seen seen' ids : List String},
      seeRejected expected seen vs = some (seen', ids) → ∀ id ∈ seen', id ∈ seen ∨ id ∈ ids := by
  intro vs
  induction vs with
  | nil =>
    intro seen seen' ids h id hid
    obtain ⟨rfl, -⟩ := Prod.mk.inj (Option.some.inj h)
    exact Or.inl hid
  | cons v vs ih =>
    intro seen seen' ids h id hid
    simp only [seeRejected, Option.bind_eq_bind, Option.bind_eq_some_iff] at h
    obtain ⟨name, -, reason, -, mid, hmid, ⟨rest, ids'⟩, hrest, heq⟩ := h
    obtain ⟨-, -, rfl⟩ := seeId_eq_some hmid
    obtain ⟨rfl, rfl⟩ := Prod.mk.inj (Option.some.inj heq)
    rcases ih hrest id hid with hmem | hmem
    · rcases List.mem_append.1 hmem with hseen | hnew
      · exact Or.inl hseen
      · rw [List.mem_singleton.1 hnew]
        exact Or.inr List.mem_cons_self
    · exact Or.inr (List.mem_cons_of_mem name hmem)

/-- **An accepted answer disposes of every message.** -/
theorem messageOutcome_spec {body : Value} {batch : List Message} {outcome : PushOutcome}
    (h : messageOutcome body batch = some outcome) :
    (batch.map fun m => m.id).Nodup ∧
      ∀ m ∈ batch, NamedIn body "accepted" m.id ∨ NamedIn body "duplicates" m.id ∨
        m.id ∈ outcome.rejectedIds := by
  simp only [messageOutcome, Option.bind_eq_bind, Option.bind_eq_some_iff, Option.guard_eq_some',
    Option.pure_def, Option.some.injEq] at h
  obtain ⟨_, hnodup, conflicts, -, _, -, rejected, -, accepted, ⟨va, hva, haccepted⟩, seen₁, h₁,
    duplicates, ⟨vd, hvd, hduplicates⟩, seen₂, h₂, ⟨seen₃, ids⟩, h₃, _, hall, rfl⟩ := h
  obtain rfl := asArray_eq_some haccepted
  obtain rfl := asArray_eq_some hduplicates
  refine ⟨hnodup, fun m hm => ?_⟩
  have hseen : m.id ∈ seen₃ := by
    have hmem := List.all_eq_true.1 hall m.id (List.mem_map.2 ⟨m, hm, rfl⟩)
    simpa using hmem
  -- back through the three arrays, from the last one read to the first
  rcases seeRejected_mem h₃ _ hseen with hmem | hmem
  · rcases seeIds_mem h₂ _ hmem with hmem | hmem
    · rcases seeIds_mem h₁ _ hmem with hmem | hmem
      · exact absurd hmem (List.not_mem_nil)
      · exact Or.inl ⟨accepted, hva, hmem⟩
    · exact Or.inr (Or.inl ⟨duplicates, hvd, hmem⟩)
  · exact Or.inr (Or.inr hmem)

/-! ### Answers that are accepted -/

theorem seeIds_of_nodup {expected seen ids : List String} (hmem : ∀ id ∈ ids, id ∈ expected)
    (hnodup : (seen ++ ids).Nodup) :
    seeIds expected seen (ids.map .str) = some (seen ++ ids) := by
  induction ids generalizing seen with
  | nil => rw [List.append_nil]; rfl
  | cons id ids ih =>
    have hnew : id ∉ seen := by
      intro h
      exact (List.nodup_append.1 hnodup).2.2 id h id List.mem_cons_self rfl
    have hsee : seeId expected seen id = some (seen ++ [id]) := by
      simp [seeId, hmem id List.mem_cons_self, hnew]
    rw [List.append_cons] at hnodup
    have hrest := ih (fun x hx => hmem x (List.mem_cons_of_mem _ hx)) hnodup
    rw [List.map_cons, seeIds]
    show ((seeId expected seen id).bind fun seen => seeIds expected seen (ids.map .str)) = _
    rw [hsee, Option.bind_some, hrest, ← List.append_cons]

theorem seeRejected_of_nodup {expected seen ids : List String} {rejected : List Value}
    (hids : rejected.map (fun v => (v.field? "id").bind Value.asStr) = ids.map some)
    (hreason : ∀ v ∈ rejected, ∃ reason, v.field? "reason" = some (.str reason))
    (hmem : ∀ id ∈ ids, id ∈ expected) (hnodup : (seen ++ ids).Nodup) :
    seeRejected expected seen rejected = some (seen ++ ids, ids) := by
  induction rejected generalizing seen ids with
  | nil =>
    obtain rfl : ids = [] := by simpa using hids.symm
    rw [List.append_nil]
    rfl
  | cons v rejected ih =>
    obtain _ | ⟨id, ids⟩ := ids
    · simp at hids
    simp only [List.map_cons, List.cons.injEq] at hids
    obtain ⟨reason, hr⟩ := hreason v List.mem_cons_self
    have hnew : id ∉ seen := by
      intro h
      exact (List.nodup_append.1 hnodup).2.2 id h id List.mem_cons_self rfl
    have hsee : seeId expected seen id = some (seen ++ [id]) := by
      simp [seeId, hmem id List.mem_cons_self, hnew]
    rw [List.append_cons] at hnodup
    have hrest := ih hids.2 (fun w hw => hreason w (List.mem_cons_of_mem _ hw))
      (fun x hx => hmem x (List.mem_cons_of_mem _ hx)) hnodup
    rw [seeRejected, hids.1, hr]
    simp only [Option.bind_eq_bind, Option.bind_some, Value.asStr, hsee, hrest, Option.pure_def]
    rw [← List.append_cons]

/-- **An answer without conflicts that names every id once is accepted.** -/
theorem messageOutcome_isSome {body : Value} {batch : List Message}
    {accepted duplicates ids : List String} {rejected : List Value}
    (haccepted : body.field? "accepted" = some (.arr (accepted.map .str)))
    (hduplicates : body.field? "duplicates" = some (.arr (duplicates.map .str)))
    (hconflicts : body.field? "conflicts" = some (.arr []))
    (hrejected : body.field? "rejected" = some (.arr rejected))
    (hids : rejected.map (fun v => (v.field? "id").bind Value.asStr) = ids.map some)
    (hreason : ∀ v ∈ rejected, ∃ reason, v.field? "reason" = some (.str reason))
    (hperm : (accepted ++ duplicates ++ ids).Perm (batch.map fun m => m.id))
    (hnodup : (batch.map fun m => m.id).Nodup) : (messageOutcome body batch).isSome := by
  -- the three lists partition the batch, so no id is seen twice
  have hall : (accepted ++ duplicates ++ ids).Nodup := hperm.nodup_iff.2 hnodup
  have hmem : ∀ id ∈ accepted ++ duplicates ++ ids, id ∈ batch.map fun m => m.id :=
    fun id hid => hperm.mem_iff.1 hid
  have hfirst : (accepted ++ duplicates).Nodup := (List.nodup_append.1 hall).1
  have h₁ : seeIds (batch.map fun m => m.id) [] (accepted.map .str) = some accepted := by
    rw [seeIds_of_nodup (fun id hid => hmem id (by simp [hid]))
      (by simpa using (List.nodup_append.1 hfirst).1), List.nil_append]
  have h₂ := seeIds_of_nodup (fun id hid => hmem id (by simp [hid])) hfirst
  have h₃ := seeRejected_of_nodup hids hreason (fun id hid => hmem id (by simp [hid])) hall
  -- and every sent id is answered
  have hseen : ((batch.map fun m => m.id).all fun id =>
      (accepted ++ duplicates ++ ids).contains id) = true := by
    rw [List.all_eq_true]
    intro id hid
    rw [List.contains_iff_mem]
    exact hperm.mem_iff.2 hid
  have hguard : guard (batch.map fun m => m.id).Nodup = some () := if_pos hnodup
  simp only [messageOutcome, haccepted, hduplicates, hconflicts, hrejected, Option.bind_eq_bind,
    Option.bind_some, Value.asArray, hguard, h₁, h₂, h₃, hseen]
  rfl

/-! ### Exactly the complete dispositions -/

/-- The answer puts each of the ids in one of its three lists, once, and reports no conflict. -/
structure Disposes (body : Value) (ids accepted duplicates rejectedIds : List String) : Prop where
  nodup : ids.Nodup
  noConflicts : body.field? "conflicts" = some (.arr [])
  acceptedField : body.field? "accepted" = some (.arr (accepted.map .str))
  duplicatesField : body.field? "duplicates" = some (.arr (duplicates.map .str))
  /-- Each rejected item is an object with a text under `id` and one under `reason`. -/
  rejectedField : ∃ items, body.field? "rejected" = some (.arr items) ∧
    items.map (fun v => (v.field? "id").bind Value.asStr) = rejectedIds.map some ∧
    ∀ v ∈ items, ∃ reason, v.field? "reason" = some (.str reason)
  perm : (accepted ++ duplicates ++ rejectedIds).Perm ids

theorem seeIds_eq_some {expected : List String} : ∀ {vs : List Value} {seen seen' : List String},
    seeIds expected seen vs = some seen' →
    ∃ ids : List String, vs = ids.map .str ∧ seen' = seen ++ ids ∧
      (∀ id ∈ ids, id ∈ expected) ∧ (seen.Nodup → (seen ++ ids).Nodup) := by
  intro vs
  induction vs with
  | nil =>
    intro seen seen' h
    obtain rfl : seen = seen' := Option.some.inj h
    exact ⟨[], by simp⟩
  | cons v vs ih =>
    intro seen seen' h
    simp only [seeIds, Option.bind_eq_bind, Option.bind_eq_some_iff] at h
    obtain ⟨id, hid, mid, hmid, hrest⟩ := h
    -- the head is expected and new, the tail is read against the list with it
    obtain ⟨hmem, hnew, rfl⟩ := seeId_eq_some hmid
    obtain ⟨ids, rfl, rfl, hmems, hnodup⟩ := ih hrest
    refine ⟨id :: ids, by rw [asStr_eq_some hid]; rfl, by simp, ?_, ?_⟩
    · intro name hname
      rcases List.mem_cons.1 hname with rfl | hname
      · exact hmem
      · exact hmems name hname
    · intro hseen
      have hmid : (seen ++ [id]).Nodup := by
        rw [List.nodup_append]
        exact ⟨hseen, by simp, fun a ha b hb hab => hnew (by simp_all)⟩
      rw [List.append_cons]
      exact hnodup hmid

theorem seeRejected_eq_some {expected : List String} :
    ∀ {vs : List Value} {seen seen' ids : List String},
      seeRejected expected seen vs = some (seen', ids) →
      vs.map (fun v => (v.field? "id").bind Value.asStr) = ids.map some ∧
        (∀ v ∈ vs, ∃ reason, v.field? "reason" = some (.str reason)) ∧ seen' = seen ++ ids ∧
        (∀ id ∈ ids, id ∈ expected) ∧ (seen.Nodup → (seen ++ ids).Nodup) := by
  intro vs
  induction vs with
  | nil =>
    intro seen seen' ids h
    obtain ⟨rfl, rfl⟩ := Prod.mk.inj (Option.some.inj h)
    simp
  | cons v vs ih =>
    intro seen seen' ids h
    simp only [seeRejected, Option.bind_eq_bind, Option.bind_eq_some_iff] at h
    obtain ⟨id, hid, reason, ⟨w, hw, hreason⟩, mid, hmid, ⟨rest, ids'⟩, hrest, heq⟩ := h
    -- the head is expected and new, and its reason a text
    obtain ⟨hmem, hnew, rfl⟩ := seeId_eq_some hmid
    obtain ⟨rfl, rfl⟩ := Prod.mk.inj (Option.some.inj heq)
    obtain rfl := asStr_eq_some hreason
    obtain ⟨hids, hreasons, rfl, hmems, hnodup⟩ := ih hrest
    refine ⟨?_, ?_, by simp, ?_, ?_⟩
    · rw [List.map_cons, hids, Option.bind_eq_some_iff.2 hid]
      rfl
    · intro u hu
      rcases List.mem_cons.1 hu with rfl | hu
      · exact ⟨reason, hw⟩
      · exact hreasons u hu
    · intro name hname
      rcases List.mem_cons.1 hname with rfl | hname
      · exact hmem
      · exact hmems name hname
    · intro hseen
      have hmid : (seen ++ [id]).Nodup := by
        rw [List.nodup_append]
        exact ⟨hseen, by simp, fun a ha b hb hab => hnew (by simp_all)⟩
      rw [List.append_cons]
      exact hnodup hmid

/-- What an accepted answer says, and the counts that `outcome_from` takes from it. -/
theorem disposes_of_messageOutcome {body : Value} {batch : List Message} {outcome : PushOutcome}
    (h : messageOutcome body batch = some outcome) :
    ∃ accepted duplicates, Disposes body (batch.map fun m => m.id) accepted duplicates
        outcome.rejectedIds ∧
      outcome.accepted = accepted.length ∧ outcome.duplicates = duplicates.length := by
  simp only [messageOutcome, Option.bind_eq_bind, Option.bind_eq_some_iff, Option.guard_eq_some',
    Option.pure_def, Option.some.injEq] at h
  obtain ⟨_, hnodup, conflicts, ⟨vc, hvc, hconflicts⟩, _, hempty, rejected, ⟨vr, hvr, hrejected⟩,
    va, ⟨wa, hwa, haccepted⟩, seen₁, h₁, vd, ⟨wd, hwd, hduplicates⟩, seen₂, h₂, ⟨seen₃, ids⟩, h₃,
    _, hall, rfl⟩ := h
  obtain rfl := asArray_eq_some haccepted
  obtain rfl := asArray_eq_some hduplicates
  obtain rfl := asArray_eq_some hrejected
  obtain rfl := asArray_eq_some hconflicts
  obtain ⟨accepted, rfl, hseen₁, hmem₁, hnodup₁⟩ := seeIds_eq_some h₁
  rw [List.nil_append] at hseen₁ hnodup₁
  subst seen₁
  obtain ⟨duplicates, rfl, rfl, hmem₂, hnodup₂⟩ := seeIds_eq_some h₂
  obtain ⟨hids, hreason, rfl, hmem₃, hnodup₃⟩ := seeRejected_eq_some h₃
  have hseen : (accepted ++ duplicates ++ ids).Nodup := hnodup₃ (hnodup₂ (hnodup₁ List.nodup_nil))
  -- two lists without repetitions and with the same members
  have hperm : (accepted ++ duplicates ++ ids).Perm (batch.map fun m => m.id) := by
    apply (List.perm_ext_iff_of_nodup hseen hnodup).2
    intro id
    constructor
    · intro hid
      rcases List.mem_append.1 hid with hid | hid
      · rcases List.mem_append.1 hid with hid | hid
        · exact hmem₁ id hid
        · exact hmem₂ id hid
      · exact hmem₃ id hid
    · intro hid
      simpa using List.all_eq_true.1 hall id hid
  refine ⟨accepted, duplicates, ⟨hnodup, ?_, hwa, hwd, ⟨rejected, hvr, hids, hreason⟩, hperm⟩,
    ?_, ?_⟩
  · rw [hvc, List.isEmpty_iff.1 hempty]
  · show outcomeCount body "accepted" = _
    rw [outcomeCount, hwa]
    exact List.length_map _
  · show outcomeCount body "duplicates" = _
    rw [outcomeCount, hwd]
    exact List.length_map _

/-- **The answers that are accepted are the complete dispositions of the batch**, and what
`flush_outbox` adds up is then the length of the batch. -/
theorem messageOutcome_iff (body : Value) (batch : List Message) :
    ((messageOutcome body batch).isSome ↔ ∃ accepted duplicates rejectedIds,
      Disposes body (batch.map fun m => m.id) accepted duplicates rejectedIds) ∧
    ∀ outcome, messageOutcome body batch = some outcome →
      outcome.accepted + outcome.duplicates + outcome.rejectedIds.length = batch.length := by
  refine ⟨⟨?_, ?_⟩, ?_⟩
  · intro h
    obtain ⟨outcome, houtcome⟩ := Option.isSome_iff_exists.1 h
    obtain ⟨accepted, duplicates, hdisposes, -, -⟩ := disposes_of_messageOutcome houtcome
    exact ⟨accepted, duplicates, outcome.rejectedIds, hdisposes⟩
  · rintro ⟨accepted, duplicates, rejectedIds, hd⟩
    obtain ⟨items, hitems, hids, hreason⟩ := hd.rejectedField
    exact messageOutcome_isSome hd.acceptedField hd.duplicatesField hd.noConflicts hitems hids
      hreason hd.perm hd.nodup
  · intro outcome h
    obtain ⟨accepted, duplicates, hdisposes, ha, hd⟩ := disposes_of_messageOutcome h
    have hlength := hdisposes.perm.length_eq
    rw [List.length_append, List.length_append, List.length_map] at hlength
    rw [ha, hd]
    exact hlength

/-! ### Receipts -/

theorem recordRejection_spec {sent : List (StreamId × Message)} {next next' : SyncCursors}
    {id : String} (h : Engine.recordRejection sent next id = some next') :
    ∃ entry, sent.find? (fun x => x.2.id == id) = some entry ∧
      ⟨id, entry.1.text⟩ ∈ next'.rejectionReceipts ∧
      next.rejectionReceipts ⊆ next'.rejectionReceipts := by
  simp only [Engine.recordRejection, Option.bind_eq_bind, Option.bind_eq_some_iff,
    Option.guard_eq_some'] at h
  obtain ⟨⟨stream, m⟩, hfind, _, -, h⟩ := h
  refine ⟨(stream, m), hfind, ?_⟩
  split at h
  case isTrue hmem =>
    obtain rfl := Option.some.inj h
    exact ⟨by simpa using hmem, List.Subset.refl _⟩
  case isFalse =>
    simp only [Option.bind_eq_some_iff, Option.guard_eq_some'] at h
    obtain ⟨_, -, _, -, heq⟩ := h
    obtain rfl := Option.some.inj heq
    exact ⟨by simp, List.subset_append_left _ _⟩

theorem recordRejections_spec {sent : List (StreamId × Message)} :
    ∀ {ids : List String} {next next' : SyncCursors},
      ids.foldlM (Engine.recordRejection sent) next = some next' →
      next.rejectionReceipts ⊆ next'.rejectionReceipts ∧
        ∀ id ∈ ids, ∃ entry, sent.find? (fun x => x.2.id == id) = some entry ∧
          ⟨id, entry.1.text⟩ ∈ next'.rejectionReceipts := by
  intro ids
  induction ids with
  | nil =>
    intro next next' h
    obtain rfl : next = next' := Option.some.inj h
    exact ⟨List.Subset.refl _, fun id hid => absurd hid List.not_mem_nil⟩
  | cons id ids ih =>
    intro next next' h
    rw [List.foldlM_cons, Option.bind_eq_bind, Option.bind_eq_some_iff] at h
    obtain ⟨mid, hmid, hrest⟩ := h
    obtain ⟨entry, hfind, hreceipt, hsub⟩ := recordRejection_spec hmid
    obtain ⟨hsub', hids⟩ := ih hrest
    refine ⟨List.Subset.trans hsub hsub', fun name hname => ?_⟩
    rcases List.mem_cons.1 hname with rfl | hname
    · exact ⟨entry, hfind, hsub' hreceipt⟩
    · exact hids name hname

/-- With distinct ids, the entry found for the id of a sent message is that message's. -/
theorem find?_of_nodup {sent : List (StreamId × Message)} {entry found : StreamId × Message}
    (hnodup : (sent.map fun x => x.2.id).Nodup) (hmem : entry ∈ sent)
    (hfind : sent.find? (fun x => x.2.id == entry.2.id) = some found) : found = entry := by
  have hid : found.2.id = entry.2.id := by simpa using List.find?_some hfind
  exact List.inj_on_of_nodup_map hnodup (List.mem_of_find?_eq_some hfind) hmem hid

/-- **Acknowledging a batch leaves a receipt for each rejected message.** -/
theorem acknowledge_spec {e : Engine} {outcome : PushOutcome} {next : SyncCursors}
    (h : e.acknowledge outcome = some next) :
    next.pushStreamId = e.acknowledgedTo ∧
      e.cursors.rejectionReceipts ⊆ next.rejectionReceipts ∧
      ∀ id ∈ outcome.rejectedIds, ∃ entry,
        (e.outbox.take e.take).find? (fun x => x.2.id == id) = some entry ∧
          ⟨id, entry.1.text⟩ ∈ next.rejectionReceipts := by
  simp only [Engine.acknowledge, Option.bind_eq_bind, Option.bind_eq_some_iff,
    Option.guard_eq_some'] at h
  obtain ⟨_, -, mid, hmid, heq⟩ := h
  obtain rfl := Option.some.inj heq
  obtain ⟨hsub, hids⟩ := recordRejections_spec hmid
  exact ⟨rfl, hsub, hids⟩

/-- Without a rejection the receipts stay as they are. -/
theorem acknowledge_receipts_eq {e : Engine} {outcome : PushOutcome} {next : SyncCursors}
    (h : e.acknowledge outcome = some next) (hids : outcome.rejectedIds = []) :
    next.rejectionReceipts = e.cursors.rejectionReceipts := by
  simp only [Engine.acknowledge, hids, List.foldlM_nil, Option.bind_eq_bind,
    Option.bind_eq_some_iff, Option.guard_eq_some'] at h
  obtain ⟨_, -, mid, hmid, heq⟩ := h
  obtain rfl : e.cursors = mid := Option.some.inj hmid
  obtain rfl := Option.some.inj heq
  rfl

end AgentHub.Sync
