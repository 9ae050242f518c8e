import AgentHub.Sync.Equiv.Push

/-!
# The presence push and the order of commits

The presence cursor is the largest id of a page, and identifiers of the table are drawn before
their rows become visible.  A row that becomes visible behind the cursor is never read
(`presence_skipped_lateCommit`).  `InOrder` is the condition under which this does not happen: a
row becomes visible only with an id beyond the cursor and beyond the page that is being pushed.
In every run with that condition each visible row up to the saved cursor was in some batch
(`presence_complete`).
-/

namespace AgentHub.Sync

open AgentHub.Json

/-- A row was in some `push_presence` batch. -/
def Sent (tr : List SiteOutput) (row : Int × Hub.Presence) : Prop :=
  ∃ batch, .pushPresence batch ∈ tr ∧ row ∈ batch

/-- The rows after one id up to another were sent. -/
def SentBetween (tr : List SiteOutput) (rows : List (Int × Hub.Presence)) (lo hi : Int) : Prop :=
  ∀ row ∈ rows, lo < row.1 → row.1 ≤ hi → Sent tr row

/-- An id beyond the cursor and beyond the page being pushed; without an engine, beyond the saved
cursor. -/
def Site.Beyond (s : Site) (id : Int) : Prop :=
  match s.engine with
  | some e => e.cursors.presenceOriginId < id ∧
    match e.phase with
    | .pushingPresence _ rows => ∀ row ∈ rows, row.1 < id
    | _ => True
  | none => ∀ c, s.file = some c → c.presenceOriginId < id

/-- Every row of the run becomes visible with an id beyond what has been read. -/
def InOrder (codec : Codec) (config : Config) (file : Option SyncCursors) (is : List SiteInput) :
    Prop :=
  ∀ pre id presence post, is = pre ++ .commit id presence :: post →
    id ∈ ((Site.machine codec config).exec (Site.fresh file) pre).1.presence.uncommitted →
    ((Site.machine codec config).exec (Site.fresh file) pre).1.Beyond id

/-! ### The table -/

/-- Identifiers are drawn once. -/
structure TableInv (table : PresenceTable) : Prop where
  nodup : (table.rows.map Prod.fst).Nodup
  fresh : ∀ id ∈ table.uncommitted, id ∉ table.rows.map Prod.fst
  lt : ∀ id ∈ table.uncommitted ++ table.rows.map Prod.fst, id < table.nextId

variable {table : PresenceTable}

theorem TableInv.allocate (h : TableInv table) :
    TableInv { table with
      nextId := table.nextId + 1
      uncommitted := table.uncommitted ++ [table.nextId] } where
  nodup := h.nodup
  fresh id hid := by
    rcases List.mem_append.1 hid with hid | hid
    · exact h.fresh id hid
    · rw [List.mem_singleton.1 hid]
      intro hrow
      exact lt_irrefl _ (h.lt _ (List.mem_append_right _ hrow))
  lt id hid := by
    show id < table.nextId + 1
    simp only [List.mem_append, List.mem_singleton] at hid
    rcases hid with (hid | hid) | hid
    · have := h.lt id (List.mem_append_left _ hid)
      omega
    · omega
    · have := h.lt id (List.mem_append_right _ (by simpa using hid))
      omega

theorem TableInv.commit (h : TableInv table) {id : Int} (hid : id ∈ table.uncommitted)
    (presence : Hub.Presence) :
    TableInv { table with
      uncommitted := table.uncommitted.filter (· ≠ id)
      rows := table.rows ++ [(id, presence)] } where
  nodup := by
    show ((table.rows ++ [(id, presence)]).map Prod.fst).Nodup
    rw [List.map_append, List.nodup_append]
    refine ⟨h.nodup, by simp, ?_⟩
    intro a ha b hb hab
    obtain rfl : b = id := by simpa using hb
    exact h.fresh b hid (hab ▸ ha)
  fresh x hx := by
    obtain ⟨hmem, hne⟩ := List.mem_filter.1 hx
    have hxid : x ≠ id := by simpa using hne
    rw [List.map_append, List.mem_append]
    rintro (hrow | hrow)
    · exact h.fresh x hmem hrow
    · exact hxid (by simpa using hrow)
  lt x hx := by
    simp only [List.map_append, List.mem_append] at hx
    rcases hx with hx | hx | hx
    · exact h.lt x (List.mem_append_left _ (List.mem_filter.1 hx).1)
    · exact h.lt x (List.mem_append_right _ hx)
    · obtain rfl : x = id := by simpa using hx
      exact h.lt x (List.mem_append_left _ hid)

theorem TableInv.rollback (h : TableInv table) (id : Int) :
    TableInv { table with uncommitted := table.uncommitted.filter (· ≠ id) } where
  nodup := h.nodup
  fresh x hx := h.fresh x (List.mem_filter.1 hx).1
  lt x hx := by
    rcases List.mem_append.1 hx with hx | hx
    · exact h.lt x (List.mem_append_left _ (List.mem_filter.1 hx).1)
    · exact h.lt x (List.mem_append_right _ hx)

theorem PresenceTable.lt_of_mem_after {afterId : Int} {limit : Nat} {row : Int × Hub.Presence}
    (h : row ∈ table.after afterId limit) : afterId < row.1 := by
  have hmem := List.mem_mergeSort.1 (List.mem_of_mem_take h)
  simpa using (List.mem_filter.1 hmem).2

/-- **A page has every row up to its last.** -/
theorem TableInv.mem_after (h : TableInv table) {afterId : Int} {limit : Nat}
    {row last : Int × Hub.Presence} (hrow : row ∈ table.rows) (hlt : afterId < row.1)
    (hlast : last ∈ table.after afterId limit) (hle : row.1 ≤ last.1) :
    row ∈ table.after afterId limit := by
  rw [PresenceTable.after] at hlast ⊢
  set sorted := (table.rows.filter fun r => decide (afterId < r.1)).mergeSort
    fun a b => decide (a.1 ≤ b.1) with hsorted
  have hmem : ∀ r, r ∈ sorted ↔ r ∈ table.rows ∧ afterId < r.1 := by
    intro r
    rw [hsorted, List.mem_mergeSort, List.mem_filter, decide_eq_true_eq]
  have hpairwise : sorted.Pairwise fun a b => a.1 ≤ b.1 := by
    have hsort : sorted.Pairwise fun a b => decide (a.1 ≤ b.1) = true := by
      apply List.pairwise_mergeSort
      · intro a b c hab hbc
        simp only [decide_eq_true_eq] at *
        omega
      · intro a b
        simp only [Bool.or_eq_true, decide_eq_true_eq]
        omega
    exact hsort.imp fun hab => by simpa using hab
  -- the row is on the page or behind it
  have hin : row ∈ sorted := (hmem row).2 ⟨hrow, hlt⟩
  rw [← List.take_append_drop limit sorted] at hin hpairwise
  rcases List.mem_append.1 hin with hfront | hback
  · exact hfront
  · -- behind the page the ids are at least the last one's, so the row is that last one
    have hge := (List.pairwise_append.1 hpairwise).2.2 last hlast row hback
    have hlastRow : last ∈ table.rows := ((hmem last).1 (List.mem_of_mem_take hlast)).1
    have heq : row = last :=
      List.inj_on_of_nodup_map h.nodup hrow hlastRow (le_antisymm hle hge)
    rw [heq]
    exact hlast

/-! ### The site -/

/-- What holds of the rows of a site that began to push presence after `base`. -/
structure PresenceInv (base : Int) (tr : List SiteOutput) (s : Site) : Prop where
  file : ∃ c, s.file = some c ∧ SentBetween tr s.presence.rows base c.presenceOriginId
  engine : ∀ e, s.engine = some e →
    SentBetween tr s.presence.rows base e.cursors.presenceOriginId ∧
      ∀ c, s.file = some c → c.presenceOriginId ≤ e.cursors.presenceOriginId
  /-- The page being pushed has the rows from the cursor to its last. -/
  page : ∀ e chunks batch, s.engine = some e → e.phase = .pushingPresence chunks batch →
    .pushPresence batch ∈ tr ∧ (∀ last ∈ batch, e.cursors.presenceOriginId < last.1) ∧
      ∀ row ∈ s.presence.rows, e.cursors.presenceOriginId < row.1 →
        (∃ last ∈ batch, row.1 ≤ last.1) → row ∈ batch

variable {codec : Codec} {config : Config} {tr tr' : List SiteOutput} {s : Site} {e : Engine}
  {base : Int} {rows : List (Int × Hub.Presence)} {lo hi : Int}

theorem SentBetween.mono (h : SentBetween tr rows lo hi) (htr : tr ⊆ tr') :
    SentBetween tr' rows lo hi := by
  intro row hrow hlo hhi
  obtain ⟨batch, hbatch, hmem⟩ := h row hrow hlo hhi
  exact ⟨batch, htr hbatch, hmem⟩

/-- A step of the engine that is not about presence. -/
structure Quiet (s : Site) (e : Engine) (r : Site × List SiteOutput) : Prop where
  presence : r.1.presence = s.presence
  engine : ∃ e', r.1.engine = some e' ∧
    e'.cursors.presenceOriginId = e.cursors.presenceOriginId ∧
    ∀ chunks batch, e'.phase ≠ .pushingPresence chunks batch
  file : r.1.file = s.file ∨
    ∃ c, r.1.file = some c ∧ c.presenceOriginId = e.cursors.presenceOriginId

theorem PresenceInv.quiet (h : PresenceInv base tr s) (he : s.engine = some e)
    {r : Site × List SiteOutput} (hr : Quiet s e r) : PresenceInv base (tr ++ r.2) r.1 := by
  obtain ⟨c, hc, hsent⟩ := h.file
  obtain ⟨hcursor, hle⟩ := h.engine e he
  obtain ⟨e', he', hcur, hphase⟩ := hr.engine
  have htr : tr ⊆ tr ++ r.2 := List.subset_append_left _ _
  refine ⟨?_, ?_, ?_⟩
  · rw [hr.presence]
    rcases hr.file with hfile | ⟨c', hc', hpresence⟩
    · exact ⟨c, hfile.trans hc, hsent.mono htr⟩
    · exact ⟨c', hc', hpresence ▸ hcursor.mono htr⟩
  · intro e'' he''
    obtain rfl : e' = e'' := Option.some.inj (he'.symm.trans he'')
    rw [hr.presence, hcur]
    refine ⟨hcursor.mono htr, fun c' hc' => ?_⟩
    rcases hr.file with hfile | ⟨c'', hc'', hpresence⟩
    · exact hle c' (hfile.symm.trans hc')
    · obtain rfl : c'' = c' := Option.some.inj (hc''.symm.trans hc')
      exact hpresence.le
  · intro e'' chunks batch he'' hp
    obtain rfl : e' = e'' := Option.some.inj (he'.symm.trans he'')
    exact absurd hp (hphase chunks batch)

/-! ### Quiet steps -/

theorem quiet_proceed {e' : Engine}
    (hcur : e'.cursors.presenceOriginId = e.cursors.presenceOriginId)
    (hphase : ∀ chunks batch, e'.phase ≠ .pushingPresence chunks batch) :
    Quiet s e (s.proceed e') :=
  ⟨rfl, ⟨e', rfl, hcur, hphase⟩, Or.inl rfl⟩

theorem quiet_persist {e' : Engine}
    (hcur : e'.cursors.presenceOriginId = e.cursors.presenceOriginId)
    (hphase : ∀ chunks batch, e'.phase ≠ .pushingPresence chunks batch) (save : SaveResult) :
    Quiet s e (s.persist e' save) := by
  refine ⟨rfl, ⟨e', rfl, hcur, hphase⟩, ?_⟩
  show save.file s.file e'.cursors = s.file ∨ _
  rw [SaveResult.file]
  split
  · exact Or.inl rfl
  · exact Or.inr ⟨e'.cursors, by simp [Site.persist, SaveResult.file, *], hcur⟩

theorem quiet_fail : Quiet s e (s.fail e) :=
  ⟨rfl, ⟨_, rfl, rfl, by simp⟩, Or.inl rfl⟩

/-- Outputs in front of a quiet step do not matter. -/
theorem Quiet.cons {r : Site × List SiteOutput} (h : Quiet s e r) (outs : List SiteOutput) :
    Quiet s e (r.1, outs) :=
  ⟨h.presence, h.engine, h.file⟩

theorem flush_cursor (e : Engine) (chunks : Nat) (fullChunk : Bool) :
    (e.flush chunks fullChunk).cursors.presenceOriginId = e.cursors.presenceOriginId := by
  rw [Engine.flush]
  split <;> rfl

theorem flush_phase (e : Engine) (chunks : Nat) (fullChunk : Bool) (n : Nat)
    (batch : List (Int × Hub.Presence)) :
    (e.flush chunks fullChunk).phase ≠ .pushingPresence n batch := by
  rw [Engine.flush, Engine.afterChunk]
  split
  · split <;> simp
  · simp

theorem quiet_flush {e' : Engine}
    (hcur : e'.cursors.presenceOriginId = e.cursors.presenceOriginId) (chunks : Nat)
    (fullChunk : Bool) (save : SaveResult) : Quiet s e (s.flush e' chunks fullChunk save) := by
  have hflush := (flush_cursor e' chunks fullChunk).trans hcur
  rw [Site.flush]
  split
  · exact quiet_persist hflush (flush_phase e' chunks fullChunk) save
  · exact quiet_proceed hflush (flush_phase e' chunks fullChunk)

theorem quiet_readChunk (chunks : Nat) (save : SaveResult) :
    Quiet s e (s.readChunk codec e chunks save) := by
  rw [Site.readChunk]
  refine quiet_flush ?_ _ _ _
  split
  · rfl
  · rw [Engine.enqueue]
    split <;> rfl

theorem recordRejection_cursor {sent : List (StreamId × Message)} :
    ∀ {ids : List String} {next next' : SyncCursors},
      ids.foldlM (Engine.recordRejection sent) next = some next' →
      next'.presenceOriginId = next.presenceOriginId := by
  intro ids
  induction ids with
  | nil =>
    intro next next' h
    obtain rfl : next = next' := Option.some.inj h
    rfl
  | cons id ids ih =>
    intro next next' h
    rw [List.foldlM_cons, Option.bind_eq_bind, Option.bind_eq_some_iff] at h
    obtain ⟨mid, hmid, hrest⟩ := h
    rw [ih hrest]
    simp only [Engine.recordRejection, Option.bind_eq_bind, Option.bind_eq_some_iff,
      Option.guard_eq_some'] at hmid
    obtain ⟨_, -, _, -, hmid⟩ := hmid
    split at hmid
    · obtain rfl := Option.some.inj hmid
      rfl
    · simp only [Option.bind_eq_some_iff] at hmid
      obtain ⟨_, -, _, -, heq⟩ := hmid
      obtain rfl := Option.some.inj heq
      rfl

theorem acknowledge_cursor {outcome : PushOutcome} {next : SyncCursors}
    (h : e.acknowledge outcome = some next) :
    next.presenceOriginId = e.cursors.presenceOriginId := by
  simp only [Engine.acknowledge, Option.bind_eq_bind, Option.bind_eq_some_iff,
    Option.guard_eq_some'] at h
  obtain ⟨_, -, mid, hmid, heq⟩ := h
  obtain rfl := Option.some.inj heq
  show mid.presenceOriginId = e.cursors.presenceOriginId
  exact recordRejection_cursor hmid

theorem quiet_finishPush (chunks : Nat) (fullChunk : Bool) (body : Value) (save : SaveResult) :
    Quiet s e (s.finishPush e chunks fullChunk body save) := by
  rw [Site.finishPush]
  split
  case h_1 => exact quiet_fail
  case h_2 outcome _ =>
    split
    case h_1 => exact quiet_fail.cons _
    case h_2 next hnext =>
      have hcur := acknowledge_cursor hnext
      split
      · refine ⟨rfl, ⟨_, rfl, rfl, by simp⟩, ?_⟩
        show save.file s.file next = s.file ∨ _
        rw [SaveResult.file]
        split
        · exact Or.inl rfl
        · exact Or.inr ⟨next, by simp [*], hcur⟩
      · exact (quiet_persist ((flush_cursor _ _ _).trans hcur) (flush_phase _ _ _) save).cons _

theorem quiet_ingestNext (messages : List Message) (nextCursor : Nat) (hasMore : Bool)
    (save : SaveResult) : Quiet s e (s.ingestNext e messages nextCursor hasMore save) := by
  rw [Site.ingestNext]
  split
  · apply quiet_persist
    · rfl
    · intro chunks batch
      show (if hasMore then Phase.pulling else Phase.idle) ≠ _
      split <;> simp
  · apply quiet_proceed
    · rfl
    · simp

theorem Site.ingestMessage_frame {s s' : Site} {m : Message} {id : StreamId}
    {outs : List SiteOutput} (h : s.ingestMessage m id = some (s', outs)) :
    s'.presence = s.presence ∧ s'.file = s.file := by
  unfold Site.ingestMessage at h
  split at h
  case h_1 => cases h
  case h_2 =>
    split_ifs at h
    all_goals
      obtain ⟨rfl, -⟩ := Prod.mk.inj (Option.some.inj h)
      exact ⟨rfl, rfl⟩

/-! ### Presence steps -/

theorem PresenceInv.readPresence (h : PresenceInv base tr s) (htable : TableInv s.presence)
    (he : s.engine = some e) (chunks : Nat) :
    PresenceInv base (tr ++ (s.readPresence e chunks).2) (s.readPresence e chunks).1 := by
  rw [Site.readPresence]
  set batch := s.presence.after e.cursors.presenceOriginId e.batchSize with hbatch
  split
  · apply h.quiet he
    apply quiet_proceed
    · rfl
    · simp
  · -- the page is read at once, so it has every visible row up to its last
    set e' : Engine := { e with phase := .pushingPresence chunks batch }
    have htr : tr ⊆ tr ++ (s.proceed e').2 := List.subset_append_left _ _
    obtain ⟨c, hc, hsent⟩ := h.file
    obtain ⟨hcursor, hle⟩ := h.engine e he
    refine ⟨⟨c, hc, hsent.mono htr⟩, ?_, ?_⟩
    · intro e'' he''
      obtain rfl : e' = e'' := Option.some.inj he''
      exact ⟨hcursor.mono htr, hle⟩
    · intro e'' n batch' he'' hp
      obtain rfl : e' = e'' := Option.some.inj he''
      obtain ⟨-, rfl⟩ := Phase.pushingPresence.inj hp
      refine ⟨?_, ?_, ?_⟩
      · apply List.mem_append_right
        exact List.mem_singleton.2 rfl
      · intro last hlast
        exact PresenceTable.lt_of_mem_after hlast
      · rintro row hrow hlt ⟨last, hlast, hrowle⟩
        exact htable.mem_after hrow hlt hlast hrowle

/-- The cursor moves to the largest id of the page. -/
theorem PresenceInv.finishPresence (h : PresenceInv base tr s) (he : s.engine = some e)
    {chunks : Nat} {batch : List (Int × Hub.Presence)}
    (hphase : e.phase = .pushingPresence chunks batch) (save : SaveResult) :
    PresenceInv base (tr ++ (s.finishPresence e chunks batch save).2)
      (s.finishPresence e chunks batch save).1 := by
  obtain ⟨hbatch, hbeyond, hpage⟩ := h.page e chunks batch he hphase
  obtain ⟨c, hc, hsent⟩ := h.file
  obtain ⟨hcursor, hle⟩ := h.engine e he
  rw [Site.finishPresence]
  set maxId := ((batch.map Prod.fst).max?).getD e.cursors.presenceOriginId with hmaxId
  set e' : Engine := { e with
    cursors := { e.cursors with presenceOriginId := maxId }
    phase := if decide (e.batchSize ≤ batch.length) && decide (1 < chunks) then
      .readingPresence (chunks - 1) else .pulling }
  have htr : tr ⊆ tr ++ (s.persist e' save).2 := List.subset_append_left _ _
  -- the largest id is that of a row of the page, or there is none
  have hmax : maxId = e.cursors.presenceOriginId ∨ ∃ last ∈ batch, maxId = last.1 := by
    cases hm : (batch.map Prod.fst).max? with
    | none => exact Or.inl (by rw [hmaxId, hm]; rfl)
    | some top =>
      obtain ⟨last, hlast, rfl⟩ := List.mem_map.1 (List.max?_mem hm)
      exact Or.inr ⟨last, hlast, by rw [hmaxId, hm]; rfl⟩
  have hgrow : e.cursors.presenceOriginId ≤ maxId := by
    rcases hmax with hmax | ⟨last, hlast, hmax⟩
    · exact hmax.ge
    · exact hmax ▸ (hbeyond last hlast).le
  have hnew : SentBetween tr s.presence.rows base maxId := by
    intro row hrow hlo hhi
    by_cases hold : row.1 ≤ e.cursors.presenceOriginId
    · exact hcursor row hrow hlo hold
    · refine ⟨batch, hbatch, hpage row hrow (not_le.1 hold) ?_⟩
      rcases hmax with hmax | ⟨last, hlast, hmax⟩
      · exact absurd (hmax ▸ hhi) hold
      · exact ⟨last, hlast, hmax ▸ hhi⟩
  have hfile : (s.persist e' save).1.file = some e'.cursors ∨
      (s.persist e' save).1.file = s.file := by
    show save.file s.file e'.cursors = _ ∨ save.file s.file e'.cursors = _
    rw [SaveResult.file]
    split
    · exact Or.inr rfl
    · exact Or.inl rfl
  refine ⟨?_, ?_, ?_⟩
  · rcases hfile with hfile | hfile
    · exact ⟨e'.cursors, hfile, hnew.mono htr⟩
    · exact ⟨c, hfile.trans hc, hsent.mono htr⟩
  · intro e'' he''
    obtain rfl : e' = e'' := Option.some.inj he''
    refine ⟨hnew.mono htr, fun c' hc' => ?_⟩
    rcases hfile with hfile | hfile
    · obtain rfl : e'.cursors = c' := Option.some.inj (hfile.symm.trans hc')
      exact le_rfl
    · exact (hle c' (hfile.symm.trans hc')).trans hgrow
  · intro e'' n batch' he'' hp
    obtain rfl : e' = e'' := Option.some.inj he''
    simp only [e'] at hp
    split at hp <;> cases hp

/-! ### Runs -/

/-- A new row beyond what has been read. -/
theorem PresenceInv.commit (h : PresenceInv base tr s) {id : Int} (hid : s.Beyond id)
    (presence : Hub.Presence) (uncommitted : List Int) :
    PresenceInv base tr { s with presence := { s.presence with
      uncommitted, rows := s.presence.rows ++ [(id, presence)] } } := by
  -- the committed row is beyond every position already sent
  have hextend : ∀ hi, hi < id → SentBetween tr s.presence.rows base hi →
      SentBetween tr (s.presence.rows ++ [(id, presence)]) base hi := by
    intro hi hlt hsent row hrow hlo hhi
    rcases List.mem_append.1 hrow with hrow | hrow
    · exact hsent row hrow hlo hhi
    · rw [List.mem_singleton.1 hrow] at hhi
      exact absurd hhi hlt.not_ge
  obtain ⟨c, hc, hsent⟩ := h.file
  -- the engine decides which position the new row has to exceed
  cases he : s.engine with
  | none =>
    rw [Site.Beyond, he] at hid
    refine ⟨⟨c, hc, hextend _ (hid c hc) hsent⟩, ?_, ?_⟩
    · intro e he'
      cases he'
    · intro e chunks batch he'
      cases he'
  | some e =>
    rw [Site.Beyond, he] at hid
    obtain ⟨hlt, hpage⟩ := hid
    obtain ⟨hcursor, hle⟩ := h.engine e he
    refine ⟨⟨c, hc, hextend _ ((hle c hc).trans_lt hlt) hsent⟩, ?_, ?_⟩
    · intro e' he'
      obtain rfl : e = e' := Option.some.inj he'
      exact ⟨hextend _ hlt hcursor, hle⟩
    · intro e' chunks batch he' hp
      obtain rfl : e = e' := Option.some.inj he'
      obtain ⟨hbatch, hbeyond, hcomplete⟩ := h.page e chunks batch he hp
      refine ⟨hbatch, hbeyond, ?_⟩
      rintro row hrow hrowlt ⟨last, hlast, hrowle⟩
      rcases List.mem_append.1 hrow with hrow | hrow
      · exact hcomplete row hrow hrowlt ⟨last, hlast, hrowle⟩
      · -- the new row is beyond the page
        rw [hp] at hpage
        rw [List.mem_singleton.1 hrow] at hrowle
        exact absurd hrowle (hpage last hlast).not_ge

/-- Steps of the local store and of the cloud keep the table and the invariant. -/
theorem PresenceInv.stepStore (h : PresenceInv base tr s) (htable : TableInv s.presence)
    (he : s.engine = some e) (ok : Bool) (id : StreamId) (save : SaveResult) :
    PresenceInv base (tr ++ (s.stepStore codec e ok id save).2)
        (s.stepStore codec e ok id save).1 ∧
      (s.stepStore codec e ok id save).1.presence = s.presence := by
  rw [Site.stepStore]
  split
  case h_1 =>
    split
    · exact ⟨h.quiet he (quiet_readChunk _ _), (quiet_readChunk _ _).presence⟩
    · exact ⟨h.quiet he quiet_fail, rfl⟩
  case h_2 =>
    split
    · refine ⟨h.readPresence htable he _, ?_⟩
      rw [Site.readPresence]
      split <;> rfl
    · exact ⟨h.quiet he quiet_fail, rfl⟩
  case h_3 m messages nextCursor hasMore _ =>
    split
    · split
      case h_1 => exact ⟨h.quiet he quiet_fail, rfl⟩
      case h_2 s' outs hi =>
        have hsame := Site.ingestMessage_frame hi
        have hnext : Quiet s e (s'.ingestNext e messages nextCursor hasMore save) := by
          obtain ⟨hp, hengine, hfile⟩ :=
            quiet_ingestNext (s := s') (e := e) messages nextCursor hasMore save
          exact ⟨hp.trans hsame.1, hengine, hsame.2 ▸ hfile⟩
        exact ⟨h.quiet he (hnext.cons _), hnext.presence⟩
    · exact ⟨h.quiet he quiet_fail, rfl⟩
  -- no answer is awaited in any other phase
  case h_4 =>
    rw [List.append_nil]
    exact ⟨h, rfl⟩

theorem PresenceInv.stepCloud (h : PresenceInv base tr s) (he : s.engine = some e)
    (body : Option Value) (save : SaveResult) :
    PresenceInv base (tr ++ (s.stepCloud e body save).2) (s.stepCloud e body save).1 ∧
      (s.stepCloud e body save).1.presence = s.presence := by
  unfold Site.stepCloud
  split
  case h_1 =>
    split
    · exact ⟨h.quiet he (quiet_finishPush _ _ _ _), (quiet_finishPush _ _ _ _).presence⟩
    · exact ⟨h.quiet he quiet_fail, rfl⟩
  case h_2 chunks batch hphase =>
    split
    · exact ⟨h.finishPresence he hphase save, rfl⟩
    · exact ⟨h.quiet he quiet_fail, rfl⟩
  case h_3 =>
    split
    · exact ⟨h.quiet he (quiet_ingestNext _ _ _ _), (quiet_ingestNext _ _ _ _).presence⟩
    · exact ⟨h.quiet he quiet_fail, rfl⟩
  case h_4 =>
    rw [List.append_nil]
    exact ⟨h, rfl⟩

/-- A site that has not begun to replicate, or the invariant from where it began. -/
def PresenceSiteInv (tr : List SiteOutput) (s : Site) : Prop :=
  TableInv s.presence ∧
    ((s.file = none ∧ s.engine = none ∧ s.initial = none) ∨
      ∃ c, s.initial = some c ∧ PresenceInv c.presenceOriginId tr s)

theorem presenceInv_begin {c : SyncCursors} (hfile : s.file = some c)
    (hengine : ∀ e, s.engine = some e → e.cursors = c ∧ e.phase = .idle) :
    PresenceInv c.presenceOriginId tr s := by
  have hempty : SentBetween tr s.presence.rows c.presenceOriginId c.presenceOriginId :=
    fun row _ hlo hhi => absurd hlo hhi.not_gt
  refine ⟨⟨c, hfile, hempty⟩, ?_, ?_⟩
  · intro e he
    rw [(hengine e he).1]
    refine ⟨hempty, fun c' hc' => ?_⟩
    obtain rfl : c = c' := Option.some.inj (hfile.symm.trans hc')
    exact le_rfl
  · intro e chunks batch he hp
    rw [(hengine e he).2] at hp
    cases hp

theorem PresenceSiteInv.start (h : PresenceSiteInv tr s) (save : SaveResult) :
    PresenceSiteInv tr (s.start config save).1 := by
  rw [Site.start]
  split
  case h_1 => exact h
  case h_2 c hengine hfile =>
    obtain ⟨htable, ⟨hnone, -, -⟩ | ⟨c₀, hinitial, hinv⟩⟩ := h
    · rw [hfile] at hnone
      cases hnone
    · -- a restart reads the saved cursor
      obtain ⟨c', hc', hsent⟩ := hinv.file
      obtain rfl : c = c' := Option.some.inj (hfile.symm.trans hc')
      refine ⟨htable, Or.inr ⟨c₀, hinitial, ⟨c, hfile, hsent⟩, ?_, ?_⟩⟩
      · intro e he
        obtain rfl := Option.some.inj he
        refine ⟨hsent, fun c' hc' => ?_⟩
        obtain rfl : c = c' := Option.some.inj (hfile.symm.trans hc')
        exact le_rfl
      · intro e chunks batch he hp
        obtain rfl := Option.some.inj he
        cases hp
  case h_3 hengine hfile =>
    have htable := h.1
    -- first start: the cursor begins at the top of the table
    by_cases hsaved : save = .saved
    · simp only [hsaved, if_true]
      refine ⟨htable, Or.inr ⟨s.firstCursors config, rfl, ?_⟩⟩
      apply presenceInv_begin
      · rfl
      · intro e he
        obtain rfl := Option.some.inj he
        exact ⟨rfl, rfl⟩
    · simp only [hsaved, if_false]
      by_cases hfailed : save = .failed
      · exact ⟨htable, Or.inl ⟨by rw [SaveResult.file, if_pos hfailed], hengine,
          by rw [SaveResult.file, if_pos hfailed]⟩⟩
      · have hnew : save.file none (s.firstCursors config) = some (s.firstCursors config) := by
          rw [SaveResult.file, if_neg hfailed]
        refine ⟨htable, Or.inr ⟨s.firstCursors config, hnew, ?_⟩⟩
        apply presenceInv_begin
        · exact hnew
        · intro e he
          exact absurd (hengine.symm.trans he) (by simp)

/-- The table changed without a new row. -/
theorem PresenceSiteInv.sameRows (h : PresenceSiteInv tr s) {table : PresenceTable}
    (htable : TableInv table) (hsame : table.rows = s.presence.rows) :
    PresenceSiteInv tr { s with presence := table } := by
  obtain ⟨-, h | ⟨c, hinitial, hinv⟩⟩ := h
  · exact ⟨htable, Or.inl h⟩
  · refine ⟨htable, Or.inr ⟨c, hinitial, ?_, ?_, ?_⟩⟩
    · simpa [hsame] using hinv.file
    · simpa [hsame] using hinv.engine
    · simpa [hsame] using hinv.page

/-- A site with an engine has begun, and what one step of it does is kept. -/
theorem PresenceSiteInv.running (h : PresenceSiteInv tr s) (he : s.engine = some e)
    {r : Site × List SiteOutput} (hinitial : r.1.initial = s.initial)
    (hstep : ∀ base, PresenceInv base tr s →
      PresenceInv base (tr ++ r.2) r.1 ∧ r.1.presence = s.presence) :
    PresenceSiteInv (tr ++ r.2) r.1 := by
  obtain ⟨htable, ⟨-, hnone, -⟩ | ⟨c, hc, hinv⟩⟩ := h
  · rw [he] at hnone
    cases hnone
  · obtain ⟨hinv', hpresence⟩ := hstep _ hinv
    exact ⟨hpresence ▸ htable, Or.inr ⟨c, hinitial.trans hc, hinv'⟩⟩

theorem PresenceSiteInv.step (h : PresenceSiteInv tr s) (i : SiteInput)
    (hi : ∀ id presence, i = .commit id presence → id ∈ s.presence.uncommitted → s.Beyond id) :
    PresenceSiteInv (tr ++ (s.step codec config i).2) (s.step codec config i).1 := by
  cases i with
  | append id fields =>
    simp only [Site.step]
    split
    · rw [List.append_nil]
      obtain ⟨htable, h | ⟨c, hinitial, hinv⟩⟩ := h
      · exact ⟨htable, Or.inl h⟩
      · exact ⟨htable, Or.inr ⟨c, hinitial, ⟨hinv.file, hinv.engine, hinv.page⟩⟩⟩
    · simpa using h
  | allocate => simpa [Site.step] using h.sameRows h.1.allocate rfl
  | commit id presence =>
    simp only [Site.step]
    split
    case isFalse => simpa using h
    case isTrue hmem =>
      have hid : id ∈ s.presence.uncommitted := by simpa using hmem
      rw [List.append_nil]
      obtain ⟨htable, ⟨hfile, hengine, hinitial⟩ | ⟨c, hinitial, hinv⟩⟩ := h
      · exact ⟨htable.commit hid presence, Or.inl ⟨hfile, hengine, hinitial⟩⟩
      · exact ⟨htable.commit hid presence, Or.inr ⟨c, hinitial,
          hinv.commit (hi id presence rfl hid) presence _⟩⟩
  | rollback id => simpa [Site.step] using h.sameRows (h.1.rollback id) rfl
  | expire key =>
    simp only [Site.step, List.append_nil]
    obtain ⟨htable, h | ⟨c, hinitial, hinv⟩⟩ := h
    · exact ⟨htable, Or.inl h⟩
    · exact ⟨htable, Or.inr ⟨c, hinitial, ⟨hinv.file, hinv.engine, hinv.page⟩⟩⟩
  | start save =>
    have houts : (s.start config save).2 = [] := by
      rw [Site.start]
      split <;> [rfl; rfl; (split <;> rfl)]
    show PresenceSiteInv (tr ++ (s.start config save).2) (s.start config save).1
    rw [houts, List.append_nil]
    exact h.start save
  | crash =>
    simp only [Site.step, List.append_nil]
    obtain ⟨htable, ⟨hfile, -, hinitial⟩ | ⟨c, hinitial, hinv⟩⟩ := h
    · exact ⟨htable, Or.inl ⟨hfile, rfl, hinitial⟩⟩
    · refine ⟨htable, Or.inr ⟨c, hinitial, hinv.file, ?_, ?_⟩⟩
      · intro e he
        cases he
      · intro e chunks batch he
        cases he
  | tick =>
    simp only [Site.step]
    split
    case h_1 e he =>
      split
      · apply h.running he rfl
        intro base hinv
        refine ⟨hinv.quiet he ?_, rfl⟩
        apply quiet_proceed
        · rfl
        · simp
      · simpa using h
    case h_2 => simpa using h
  | store ok id save =>
    simp only [Site.step]
    split
    case h_1 e he =>
      exact h.running he (Site.stepStore_initial s e ok id save)
        fun base hinv => hinv.stepStore h.1 he ok id save
    case h_2 => simpa using h
  | cloud body save =>
    simp only [Site.step]
    split
    case h_1 e he =>
      exact h.running he (Site.stepCloud_initial s e body save)
        fun base hinv => hinv.stepCloud he body save
    case h_2 => simpa using h

theorem presenceSiteInv_exec {file : Option SyncCursors} {is : List SiteInput}
    (h : InOrder codec config file is) :
    PresenceSiteInv ((Site.machine codec config).exec (Site.fresh file) is).2
      ((Site.machine codec config).exec (Site.fresh file) is).1 := by
  -- the invariant of a prefix is carried along with the state the prefix leads to
  refine ((Site.machine codec config).exec_induction
    (P := fun is s tr => s = ((Site.machine codec config).exec (Site.fresh file) is).1 ∧
      (InOrder codec config file is → PresenceSiteInv tr s)) ?_ ?_ is).2 h
  · refine ⟨rfl, fun _ => ⟨?_, ?_⟩⟩
    · exact ⟨List.nodup_nil, by simp [Site.fresh], by simp [Site.fresh]⟩
    · cases file with
      | none => exact Or.inl ⟨rfl, rfl, rfl⟩
      | some c =>
        right
        refine ⟨c, rfl, ?_⟩
        apply presenceInv_begin
        · rfl
        · intro e he
          cases he
  · rintro is t tr i ⟨ht, hinv⟩
    constructor
    · rw [ht, Machine.exec_snoc]
      rfl
    · intro horder
      have hprefix : InOrder codec config file is := by
        intro pre id presence post his
        apply horder pre id presence (post ++ [i])
        rw [his, List.append_assoc, List.cons_append]
      refine (hinv hprefix).step i ?_
      rintro id presence rfl hid
      rw [ht] at hid ⊢
      exact horder is id presence [] rfl hid

/-- **No row is skipped when rows become visible in order.**  In every run in which a row becomes
visible only with an id beyond the presence cursor and beyond the page being pushed, each visible
row after the initial cursor with an id up to the saved `presence_origin_id` was in some
`push_presence` batch. -/
theorem presence_complete (codec : Codec) (config : Config) (file : Option SyncCursors)
    (is : List SiteInput) (h : InOrder codec config file is) (c₀ saved : SyncCursors)
    (hc₀ : ((Site.machine codec config).exec (Site.fresh file) is).1.initial = some c₀)
    (hsaved : ((Site.machine codec config).exec (Site.fresh file) is).1.file = some saved) :
    ∀ row ∈ ((Site.machine codec config).exec (Site.fresh file) is).1.presence.rows,
      c₀.presenceOriginId < row.1 → row.1 ≤ saved.presenceOriginId →
      Sent ((Site.machine codec config).exec (Site.fresh file) is).2 row := by
  obtain ⟨-, ⟨hnone, -, -⟩ | ⟨c, hinitial, hinv⟩⟩ := presenceSiteInv_exec h
  · rw [hsaved] at hnone
    cases hnone
  · obtain rfl : c = c₀ := Option.some.inj (hinitial.symm.trans hc₀)
    obtain ⟨c', hc', hsent⟩ := hinv.file
    obtain rfl : saved = c' := Option.some.inj (hsaved.symm.trans hc')
    exact hsent

def samplePresence : Hub.Presence where
  agent := "alice"
  status := "online"
  protocolVersion := "1.0"
  timestampUtc := "2026-01-01T00:00:00.000000Z"
  sessionId := "s"
  capabilities := []
  metadata := .obj []
  ttlSeconds := 60

/-- A tick that pushes the visible presence rows, with an answer for each call. -/
def presenceTick : List SiteInput :=
  [.tick, .store true StreamId.zero .saved, .store true StreamId.zero .saved,
   .cloud (some (.obj [])) .saved]

/-- One session draws an identifier, its row becomes visible, and a tick pushes it. -/
def firstPresence : List SiteInput :=
  [.start .saved, .allocate, .commit 1 samplePresence] ++ presenceTick

theorem inOrder_firstPresence : InOrder sampleCodec sampleConfig none firstPresence := by
  intro pre id presence post his _
  -- the only commit is the third input
  have hpre : pre = [.start .saved, .allocate] := by
    match pre, his with
    | [], his | [_], his => simp [firstPresence] at his
    | [a, b], his =>
      simp only [firstPresence, presenceTick, List.cons_append, List.nil_append, List.cons.injEq] at his
      rw [his.1, his.2.1]
    | a :: b :: c :: pre, his =>
      simp only [firstPresence, presenceTick, List.cons_append, List.nil_append,
        List.cons.injEq] at his
      have hmem : SiteInput.commit id presence ∈ [SiteInput.tick,
          .store true StreamId.zero .saved, .store true StreamId.zero .saved,
          .cloud (some (.obj [])) .saved] := by
        rw [his.2.2.2]
        simp
      simp at hmem
  subst hpre
  obtain rfl : id = 1 := by
    simp only [firstPresence, List.cons_append, List.nil_append, List.cons.injEq,
      SiteInput.commit.injEq] at his
    exact his.2.2.1.1.symm
  constructor
  · decide
  · trivial

theorem presence_complete_firstPresence :
    let run := (Site.machine sampleCodec sampleConfig).exec (Site.fresh none) firstPresence
    ∃ c₀ saved, run.1.initial = some c₀ ∧ run.1.file = some saved ∧
      c₀.presenceOriginId = 0 ∧ saved.presenceOriginId = 1 ∧ Sent run.2 (1, samplePresence) := by
  intro run
  have hinitial : run.1.initial.map (fun c => c.presenceOriginId) = some 0 := by decide +kernel
  have hfile : run.1.file.map (fun c => c.presenceOriginId) = some 1 := by decide +kernel
  have hrow : (1, samplePresence) ∈ run.1.presence.rows := by decide +kernel
  obtain ⟨c₀, hc₀, hzero⟩ := Option.map_eq_some_iff.1 hinitial
  obtain ⟨saved, hsaved, hone⟩ := Option.map_eq_some_iff.1 hfile
  refine ⟨c₀, saved, hc₀, hsaved, hzero, hone, ?_⟩
  apply presence_complete sampleCodec sampleConfig none firstPresence inOrder_firstPresence c₀ saved
    hc₀ hsaved (1, samplePresence) hrow
  · rw [hzero]
    decide
  · rw [hone]

/-- Two sessions draw identifiers, the second commits, a tick pushes its row, the first commits. -/
def lateCommit : List SiteInput :=
  [.start .saved, .allocate, .allocate, .commit 2 samplePresence] ++ presenceTick ++
    [.commit 1 samplePresence]

/-- Without the order, a visible row up to the saved cursor need not have been sent. -/
theorem presence_skipped_lateCommit :
    ¬ ∀ (codec : Codec) (config : Config) (file : Option SyncCursors) (is : List SiteInput)
      (c₀ saved : SyncCursors),
      ((Site.machine codec config).exec (Site.fresh file) is).1.initial = some c₀ →
      ((Site.machine codec config).exec (Site.fresh file) is).1.file = some saved →
      ∀ row ∈ ((Site.machine codec config).exec (Site.fresh file) is).1.presence.rows,
        c₀.presenceOriginId < row.1 → row.1 ≤ saved.presenceOriginId →
        Sent ((Site.machine codec config).exec (Site.fresh file) is).2 row := by
  intro hall
  set run := (Site.machine sampleCodec sampleConfig).exec (Site.fresh none) lateCommit with hrun
  have hinitial : run.1.initial.map (fun c => c.presenceOriginId) = some 0 := by decide +kernel
  have hfile : run.1.file.map (fun c => c.presenceOriginId) = some 2 := by decide +kernel
  have hrow : (1, samplePresence) ∈ run.1.presence.rows := by decide +kernel
  have htrace : run.2 = [.pushPresence [(2, samplePresence)], .pull 0] := by decide +kernel
  obtain ⟨c₀, hc₀, hzero⟩ := Option.map_eq_some_iff.1 hinitial
  obtain ⟨saved, hsaved, htwo⟩ := Option.map_eq_some_iff.1 hfile
  obtain ⟨batch, hbatch, hmem⟩ := hall sampleCodec sampleConfig none lateCommit c₀ saved hc₀ hsaved
    (1, samplePresence) hrow (by rw [hzero]; decide) (by rw [htwo]; decide)
  rw [← hrun, htrace] at hbatch
  obtain rfl : batch = [(2, samplePresence)] := by simpa using hbatch
  simp at hmem

end AgentHub.Sync
