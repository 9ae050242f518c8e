import AgentHub.Json.Equiv.Document
import AgentHub.Sync.Equiv.Outcome

/-!
# Cloud push loses nothing

The position `push_stream_id` of an engine only passes a message that may leave the hub when the
cloud has acknowledged it or its rejection is on disk, and the outbox is the stretch of such
messages from that position to the position read to (`push_lossFree`).

`Covered` is the first half for a stretch of the stream, `EngineInv` both halves for a running
engine, and `PushInv` adds the state file, from which the next engine starts after a crash.
-/

namespace AgentHub.Sync

open AgentHub.Json AgentHub.Paging

variable (codec : Codec)

/-- The messages of a stretch that may leave the hub, with their stream ids. -/
def eligible (hub : String) (entries : List Entry) : List (StreamId × Message) :=
  (entries.map fun entry => (entry.id, entry.message codec)).filter fun x => pushable x.2 hub

/-- The cloud has answered a push of the entry that it accepted the message or had it already. -/
def Acknowledged (tr : List SiteOutput) (entry : StreamId × Message) : Prop :=
  ∃ batch body, .acknowledged batch body ∈ tr ∧ entry ∈ batch ∧
    (NamedIn body "accepted" entry.2.id ∨ NamedIn body "duplicates" entry.2.id)

/-- Every message of the stream that may leave the hub, after one position up to another, is
acknowledged or has a receipt. -/
def Covered (hub : String) (tr : List SiteOutput) (receipts : List RejectionReceipt)
    (stream : List Entry) (lo hi : StreamId) : Prop :=
  ∀ entry ∈ eligible codec hub (between Entry.id lo hi stream),
    Acknowledged tr entry ∨ ⟨entry.2.id, entry.1.text⟩ ∈ receipts

/-- What holds of a running engine whose hub began to push at `base`. -/
structure EngineInv (hub : String) (base : StreamId) (tr : List SiteOutput)
    (stream : List Entry) (e : Engine) : Prop where
  hub_eq : e.hub = hub
  batch_pos : 0 < e.batchSize
  base_le : base ≤ e.cursors.pushStreamId
  push_le : e.cursors.pushStreamId ≤ e.readTo
  /-- Nothing was read that is not on the stream yet. -/
  read_le : ∀ id, (∀ entry ∈ stream, entry.id < id) → base < id → e.readTo < id
  outbox_eq : e.outbox =
    eligible codec hub (between Entry.id e.cursors.pushStreamId e.readTo stream)
  covered : Covered codec hub tr e.cursors.rejectionReceipts stream base e.cursors.pushStreamId

variable {codec} {hub : String} {base : StreamId} {tr tr' : List SiteOutput}
  {receipts receipts' : List RejectionReceipt} {stream : List Entry} {lo mid hi : StreamId}

/-! ### Stretches -/

theorem eligible_append (entries entries' : List Entry) :
    eligible codec hub (entries ++ entries') =
      eligible codec hub entries ++ eligible codec hub entries' := by
  simp [eligible]

theorem eligible_eq_map (entries : List Entry) :
    eligible codec hub entries =
      (entries.filter fun entry => pushable (entry.message codec) hub).map
        fun entry => (entry.id, entry.message codec) := by
  rw [eligible, List.filter_map]
  rfl

theorem mem_eligible {entries : List Entry} {x : StreamId × Message} :
    x ∈ eligible codec hub entries ↔
      ∃ entry ∈ entries, x = (entry.id, entry.message codec) ∧
        pushable (entry.message codec) hub = true := by
  rw [eligible_eq_map, List.mem_map]
  constructor
  · rintro ⟨entry, hmem, rfl⟩
    exact ⟨entry, (List.mem_filter.1 hmem).1, rfl, (List.mem_filter.1 hmem).2⟩
  · rintro ⟨entry, hmem, rfl, hp⟩
    exact ⟨entry, List.mem_filter.2 ⟨hmem, hp⟩, rfl⟩

/-- The first `k` messages of a stretch end at the position of the last of them. -/
theorem eligible_cut (hstream : Ascending Entry.id stream) {k : Nat} {x : StreamId × Message}
    (hx : ((eligible codec hub (between Entry.id lo hi stream)).take k).getLast? = some x) :
    lo < x.1 ∧ x.1 ≤ hi ∧
      eligible codec hub (between Entry.id lo x.1 stream) =
        (eligible codec hub (between Entry.id lo hi stream)).take k ∧
      eligible codec hub (between Entry.id x.1 hi stream) =
        (eligible codec hub (between Entry.id lo hi stream)).drop k := by
  simp only [eligible_eq_map, ← List.map_take, ← List.map_drop, List.getLast?_map,
    Option.map_eq_some_iff] at hx ⊢
  obtain ⟨entry, hlast, rfl⟩ := hx
  obtain ⟨hfront, hback⟩ := hstream.cut_filter _ hlast
  have hmem : entry ∈ between Entry.id lo hi stream :=
    (List.mem_filter.1 (List.mem_of_mem_take (List.mem_of_getLast? hlast))).1
  obtain ⟨-, hlo, hhi⟩ := mem_between.1 hmem
  exact ⟨hlo, hhi, by rw [hfront], by rw [hback]⟩

/-! ### Coverage -/

theorem Acknowledged.mono (h : tr ⊆ tr') {entry : StreamId × Message}
    (ha : Acknowledged tr entry) : Acknowledged tr' entry := by
  obtain ⟨batch, body, hmem, hentry, hnamed⟩ := ha
  exact ⟨batch, body, h hmem, hentry, hnamed⟩

theorem Covered.mono (hc : Covered codec hub tr receipts stream lo hi) (htr : tr ⊆ tr')
    (hreceipts : receipts ⊆ receipts') : Covered codec hub tr' receipts' stream lo hi := by
  intro entry hmem
  rcases hc entry hmem with h | h
  · exact Or.inl (h.mono htr)
  · exact Or.inr (hreceipts h)

theorem Covered.join (hstream : Ascending Entry.id stream) (h₁ : lo ≤ mid) (h₂ : mid ≤ hi)
    (hlo : Covered codec hub tr receipts stream lo mid)
    (hhi : Covered codec hub tr receipts stream mid hi) :
    Covered codec hub tr receipts stream lo hi := by
  intro entry hmem
  rw [← hstream.between_join h₁ h₂, eligible_append] at hmem
  rcases List.mem_append.1 hmem with h | h
  · exact hlo entry h
  · exact hhi entry h

theorem Covered.of_le (h : hi ≤ lo) : Covered codec hub tr receipts stream lo hi := by
  intro entry hmem
  rw [between_eq_nil_of_le h] at hmem
  exact absurd hmem List.not_mem_nil

/-! ### Local writes -/

variable {e : Engine}

/-- A new entry is beyond what the engine has read, or before where it began. -/
theorem EngineInv.between_append (h : EngineInv codec hub base tr stream e) {entry : Entry}
    (hnew : ∀ x ∈ stream, x.id < entry.id) {lo hi : StreamId} (hlo : base ≤ lo)
    (hhi : hi ≤ e.readTo) :
    between Entry.id lo hi (stream ++ [entry]) = between Entry.id lo hi stream := by
  by_cases hbase : base < entry.id
  · apply between_append_of_lt
    intro x hx
    rw [List.mem_singleton.1 hx]
    exact hhi.trans_lt (h.read_le entry.id hnew hbase)
  · -- an id at or before `base` is in no stretch the engine works on
    have hnil : between Entry.id lo hi [entry] = [] := by
      rw [between, List.filter_eq_nil_iff]
      intro x hx hb
      rw [List.mem_singleton.1 hx] at hb
      simp only [Bool.and_eq_true, decide_eq_true_eq] at hb
      exact hbase (hlo.trans_lt hb.1)
    rw [Paging.between_append, hnil, List.append_nil]

theorem EngineInv.append (h : EngineInv codec hub base tr stream e) {entry : Entry}
    (hnew : ∀ x ∈ stream, x.id < entry.id) :
    EngineInv codec hub base tr (stream ++ [entry]) e where
  hub_eq := h.hub_eq
  batch_pos := h.batch_pos
  base_le := h.base_le
  push_le := h.push_le
  read_le id hid hbase := h.read_le id (fun x hx => hid x (List.mem_append_left _ hx)) hbase
  outbox_eq := by
    rw [h.between_append hnew h.base_le le_rfl]
    exact h.outbox_eq
  covered := by
    rw [Covered, h.between_append hnew le_rfl h.push_le]
    exact h.covered

theorem EngineInv.mono (h : EngineInv codec hub base tr stream e) (htr : tr ⊆ tr') :
    EngineInv codec hub base tr' stream e :=
  { h with covered := h.covered.mono htr (List.Subset.refl _) }

/-- Only the position, the receipts and the outbox matter. -/
theorem EngineInv.congr (h : EngineInv codec hub base tr stream e) {e' : Engine}
    (hhub : e'.hub = e.hub) (hbatch : e'.batchSize = e.batchSize)
    (hpush : e'.cursors.pushStreamId = e.cursors.pushStreamId)
    (hreceipts : e'.cursors.rejectionReceipts = e.cursors.rejectionReceipts)
    (hread : e'.readTo = e.readTo) (houtbox : e'.outbox = e.outbox) :
    EngineInv codec hub base tr stream e' where
  hub_eq := hhub.trans h.hub_eq
  batch_pos := hbatch ▸ h.batch_pos
  base_le := hpush ▸ h.base_le
  push_le := by rw [hpush, hread]; exact h.push_le
  read_le := by rw [hread]; exact h.read_le
  outbox_eq := by rw [houtbox, hpush, hread]; exact h.outbox_eq
  covered := by rw [hreceipts, hpush]; exact h.covered

/-! ### Reading a chunk -/

theorem messagesAfter_eq (s : Site) (c : StreamId) (limit : Nat) :
    (s.messagesAfter codec c limit).filter (fun x => pushable x.2 hub) =
      eligible codec hub (page Entry.id c limit s.stream) := rfl

/-- A chunk read from the position keeps the invariant, whether it is queued or dropped. -/
theorem EngineInv.enqueue {s : Site} (h : EngineInv codec hub base tr s.stream e)
    (hstream : Ascending Entry.id s.stream) {limit : Nat}
    (hne : s.messagesAfter codec e.readTo limit ≠ []) :
    EngineInv codec hub base tr s.stream (e.enqueue (s.messagesAfter codec e.readTo limit)) := by
  set chunk := page Entry.id e.readTo limit s.stream with hchunk
  have hmessages : s.messagesAfter codec e.readTo limit =
      chunk.map fun entry => (entry.id, entry.message codec) := rfl
  have hchunkne : chunk ≠ [] := by
    intro hnil
    rw [hmessages, hnil] at hne
    exact hne rfl
  -- the position read to moves to the last row of the chunk
  obtain ⟨x, hx⟩ : ∃ x, chunk.getLast? = some x :=
    ⟨_, List.getLast?_eq_some_getLast hchunkne⟩
  have hlt : e.readTo < x.id := lt_of_mem_page (List.mem_of_getLast? hx)
  have hmem : x ∈ s.stream :=
    (mem_after.1 (List.mem_of_mem_take (List.mem_of_getLast? hx))).1
  rw [Engine.enqueue]
  split
  · -- no room: back to the acknowledged position
    exact
      { h with
        push_le := le_rfl
        read_le := fun id hid hbase => h.push_le.trans_lt (h.read_le id hid hbase)
        outbox_eq := by
          show [] = _
          rw [between_eq_nil_of_le le_rfl]
          rfl }
  · -- room: the chunk joins what the outbox holds
    have hread : (((s.messagesAfter codec e.readTo limit).getLast?.map Prod.fst).getD e.readTo)
        = x.id := by
      rw [hmessages, List.getLast?_map, hx]
      rfl
    rw [hread]
    exact
      { h with
        push_le := h.push_le.trans hlt.le
        read_le := fun id hid _ => hid x hmem
        outbox_eq := by
          show e.outbox ++ _ = _
          rw [← hstream.between_join h.push_le hlt.le, hstream.between_page (hchunk ▸ hx),
            eligible_append, ← h.outbox_eq, h.hub_eq, messagesAfter_eq] }

/-! ### Flushing -/

/-- An engine with an empty outbox may move its position to where it has read. -/
theorem EngineInv.flush (h : EngineInv codec hub base tr stream e)
    (hstream : Ascending Entry.id stream) (chunks : Nat) (fullChunk : Bool) :
    EngineInv codec hub base tr stream (e.flush chunks fullChunk) := by
  rw [Engine.flush]
  split
  case isFalse => exact h.congr rfl rfl rfl rfl rfl rfl
  case isTrue hempty =>
    have hnil : eligible codec hub
        (between Entry.id e.cursors.pushStreamId e.readTo stream) = [] := by
      rw [← h.outbox_eq]
      exact List.isEmpty_iff.1 hempty
    exact
      { h with
        base_le := h.base_le.trans h.push_le
        push_le := le_rfl
        outbox_eq := by
          show e.outbox = _
          rw [between_eq_nil_of_le le_rfl]
          exact List.isEmpty_iff.1 hempty
        covered := by
          refine Covered.join hstream h.base_le h.push_le h.covered ?_
          intro entry hmem
          rw [hnil] at hmem
          exact absurd hmem List.not_mem_nil }

/-- The position after a batch cuts the outbox behind the batch. -/
theorem EngineInv.acknowledgedTo (h : EngineInv codec hub base tr stream e)
    (hstream : Ascending Entry.id stream) :
    e.cursors.pushStreamId ≤ e.acknowledgedTo ∧ e.acknowledgedTo ≤ e.readTo ∧
      eligible codec hub (between Entry.id e.cursors.pushStreamId e.acknowledgedTo stream) =
        e.outbox.take e.take ∧
      eligible codec hub (between Entry.id e.acknowledgedTo e.readTo stream) =
        e.outbox.drop e.take := by
  have hle : e.take ≤ e.outbox.length := min_le_left _ _
  rw [Engine.acknowledgedTo]
  split
  case isTrue hall =>
    -- the whole outbox was sent
    rw [← hall, List.take_length, List.drop_length, between_eq_nil_of_le le_rfl]
    exact ⟨h.push_le, le_rfl, h.outbox_eq.symm, rfl⟩
  case isFalse hall =>
    have htake : 0 < e.take := by
      have := h.batch_pos
      simp only [Engine.take] at hall ⊢
      omega
    have hlt : e.take - 1 < e.outbox.length := by omega
    obtain ⟨x, hget⟩ : ∃ x, e.outbox[e.take - 1]? = some x :=
      ⟨_, List.getElem?_eq_getElem hlt⟩
    have hx : ((eligible codec hub
        (between Entry.id e.cursors.pushStreamId e.readTo stream)).take e.take).getLast? =
          some x := by
      rw [← h.outbox_eq, List.getLast?_eq_getElem?, List.length_take, Nat.min_eq_left hle,
        List.getElem?_take_of_lt (by omega), hget]
    obtain ⟨h₁, h₂, h₃, h₄⟩ := eligible_cut hstream hx
    rw [← h.outbox_eq] at h₃ h₄
    rw [hget]
    exact ⟨h₁.le, h₂, h₃, h₄⟩

/-- A batch whose answer is accepted is covered. -/
theorem EngineInv.acknowledge (h : EngineInv codec hub base tr stream e)
    (hstream : Ascending Entry.id stream) {body : Value} {outcome : PushOutcome}
    {next : SyncCursors} (houtcome : messageOutcome body e.batch = some outcome)
    (hnext : e.acknowledge outcome = some next) :
    EngineInv codec hub base (tr ++ [.acknowledged (e.outbox.take e.take) body]) stream
      { e with cursors := next, outbox := e.outbox.drop e.take } := by
  obtain ⟨hnodup, hdisposed⟩ := messageOutcome_spec houtcome
  obtain ⟨hpush, hreceipts, hrejected⟩ := acknowledge_spec hnext
  obtain ⟨h₁, h₂, hsent, hrest⟩ := h.acknowledgedTo hstream
  have htr : tr ⊆ tr ++ [.acknowledged (e.outbox.take e.take) body] :=
    List.subset_append_left _ _
  have hcovered : Covered codec hub (tr ++ [.acknowledged (e.outbox.take e.take) body])
      next.rejectionReceipts stream e.cursors.pushStreamId e.acknowledgedTo := by
    intro entry hmem
    rw [hsent] at hmem
    have hbatch : entry.2 ∈ e.batch := List.mem_map_of_mem hmem
    -- the answer names the message, or a receipt was left for it
    rcases hdisposed entry.2 hbatch with hnamed | hnamed | hid
    · exact Or.inl ⟨_, body, by simp, hmem, Or.inl hnamed⟩
    · exact Or.inl ⟨_, body, by simp, hmem, Or.inr hnamed⟩
    · obtain ⟨found, hfind, hreceipt⟩ := hrejected _ hid
      have hnodup' : ((e.outbox.take e.take).map fun x => x.2.id).Nodup := by
        rw [Engine.batch, List.map_map] at hnodup
        exact hnodup
      rw [find?_of_nodup hnodup' hmem hfind] at hreceipt
      exact Or.inr hreceipt
  exact
    { hub_eq := h.hub_eq
      batch_pos := h.batch_pos
      base_le := by
        show base ≤ next.pushStreamId
        rw [hpush]
        exact h.base_le.trans h₁
      push_le := by
        show next.pushStreamId ≤ e.readTo
        rw [hpush]
        exact h₂
      read_le := h.read_le
      outbox_eq := by
        show e.outbox.drop e.take = eligible codec hub
          (between Entry.id next.pushStreamId e.readTo stream)
        rw [hpush, hrest]
      covered := by
        show Covered codec hub _ next.rejectionReceipts stream base next.pushStreamId
        rw [hpush]
        exact Covered.join hstream h.base_le h₁ (h.covered.mono htr hreceipts) hcovered }

/-! ### The site -/

/-- The state file and the running engine of a site, for a hub that began to push at `base`. -/
structure PushInv (codec : Codec) (config : Config) (base : StreamId) (tr : List SiteOutput)
    (s : Site) : Prop where
  ascending : Ascending Entry.id s.stream
  /-- An engine that starts from the file has nothing to make good. -/
  file : ∃ c, s.file = some c ∧
    EngineInv codec config.hub base tr s.stream (Engine.new config c)
  engine : ∀ e, s.engine = some e → EngineInv codec config.hub base tr s.stream e ∧
    ∀ c, s.file = some c → e.cursors.rejectionReceipts ⊆ c.rejectionReceipts

variable {config : Config} {s : Site}

/-- A fresh engine with the cursors of a running one reads on from the acknowledged position. -/
theorem EngineInv.restart (h : EngineInv codec config.hub base tr stream e) :
    EngineInv codec config.hub base tr stream (Engine.new config e.cursors) where
  hub_eq := rfl
  batch_pos := Nat.lt_of_lt_of_le Nat.one_pos (le_max_left _ _)
  base_le := h.base_le
  push_le := le_rfl
  read_le id hid hbase := h.push_le.trans_lt (h.read_le id hid hbase)
  outbox_eq := by
    show [] = eligible codec config.hub
      (between Entry.id e.cursors.pushStreamId e.cursors.pushStreamId stream)
    rw [between_eq_nil_of_le le_rfl]
    rfl
  covered := h.covered

theorem PushInv.mono (h : PushInv codec config base tr s) (htr : tr ⊆ tr') :
    PushInv codec config base tr' s := by
  obtain ⟨c, hc, hinv⟩ := h.file
  exact ⟨h.ascending, ⟨c, hc, hinv.mono htr⟩,
    fun e he => ⟨(h.engine e he).1.mono htr, (h.engine e he).2⟩⟩

/-- The engine goes on without a save. -/
theorem PushInv.proceed (h : PushInv codec config base tr s)
    (he : EngineInv codec config.hub base tr s.stream e)
    (hreceipts : ∀ c, s.file = some c → e.cursors.rejectionReceipts ⊆ c.rejectionReceipts) :
    PushInv codec config base tr { s with engine := some e } := by
  refine ⟨h.ascending, h.file, ?_⟩
  rintro e' he'
  obtain rfl : e = e' := Option.some.inj he'
  exact ⟨he, hreceipts⟩

/-- The engine goes on after a save, however that went. -/
theorem PushInv.persist (h : PushInv codec config base tr s)
    (he : EngineInv codec config.hub base tr s.stream e) (save : SaveResult)
    (hreceipts : ∀ c, s.file = some c → save ≠ .saved →
      e.cursors.rejectionReceipts ⊆ c.rejectionReceipts) :
    PushInv codec config base tr
      { s with engine := some e, file := save.file s.file e.cursors } := by
  obtain ⟨c, hc, hinv⟩ := h.file
  have hfile : save.file s.file e.cursors = some e.cursors ∨
      save = .failed ∧ save.file s.file e.cursors = some c := by
    by_cases hsave : save = .failed
    · exact Or.inr ⟨hsave, by rw [SaveResult.file, if_pos hsave, hc]⟩
    · exact Or.inl (by rw [SaveResult.file, if_neg hsave])
  refine ⟨h.ascending, ?_, ?_⟩
  · rcases hfile with hfile | ⟨-, hfile⟩
    · exact ⟨e.cursors, hfile, he.restart⟩
    · exact ⟨c, hfile, hinv⟩
  · rintro e' he'
    obtain rfl : e = e' := Option.some.inj he'
    refine ⟨he, fun c' hc' => ?_⟩
    rcases hfile with hfile | ⟨hfailed, hfile⟩
    · obtain rfl : e.cursors = c' := Option.some.inj (hfile.symm.trans hc')
      exact List.Subset.refl _
    · obtain rfl : c = c' := Option.some.inj (hfile.symm.trans hc')
      exact hreceipts c hc (by rw [hfailed]; decide)

theorem lt_of_streamTail_lt (hstream : Ascending Entry.id s.stream) {id : StreamId}
    (h : s.streamTail < id) : ∀ x ∈ s.stream, x.id < id := by
  intro x hx
  obtain ⟨last, hlast⟩ : ∃ last, s.stream.getLast? = some last :=
    ⟨_, List.getLast?_eq_some_getLast (List.ne_nil_of_mem hx)⟩
  rw [Site.streamTail, hlast] at h
  obtain ⟨init, hinit⟩ := List.getLast?_eq_some_iff.1 hlast
  rw [hinit] at hx hstream
  rcases List.mem_append.1 hx with hx | hx
  · exact ((List.pairwise_append.1 hstream).2.2 x hx last (by simp)).trans h
  · rw [List.mem_singleton.1 hx]
    exact h

/-- An entry is added to the stream. -/
theorem PushInv.append (h : PushInv codec config base tr s) {entry : Entry}
    (hid : s.streamTail < entry.id) :
    PushInv codec config base tr { s with stream := s.stream ++ [entry] } := by
  have hnew := lt_of_streamTail_lt h.ascending hid
  obtain ⟨c, hc, hinv⟩ := h.file
  refine ⟨?_, ⟨c, hc, hinv.append hnew⟩, fun e he => ?_⟩
  · refine List.pairwise_append.2 ⟨h.ascending, List.pairwise_singleton _ _, ?_⟩
    intro x hx y hy
    rw [List.mem_singleton.1 hy]
    exact hnew x hx
  · exact ⟨(h.engine e he).1.append hnew, (h.engine e he).2⟩

/-! ### The calls of a tick

Each lemma is about one call that has returned: the site and the outputs it leads to keep the
invariant. -/

section Calls

variable (h : PushInv codec config base tr s) (he : s.engine = some e)

include h he

theorem PushInv.fail : PushInv codec config base (tr ++ (s.fail e).2) (s.fail e).1 := by
  obtain ⟨hinv, hreceipts⟩ := h.engine e he
  rw [Site.fail, List.append_nil]
  exact h.proceed (hinv.congr rfl rfl rfl rfl rfl rfl) hreceipts

/-- The outbox is flushed by an engine that has just read, or not, with the cursors of `e`. -/
theorem PushInv.flush {e' : Engine} (hinv : EngineInv codec config.hub base tr s.stream e')
    (hcursors : e'.cursors = e.cursors) (chunks : Nat) (fullChunk : Bool) (save : SaveResult) :
    PushInv codec config base (tr ++ (s.flush e' chunks fullChunk save).2)
      (s.flush e' chunks fullChunk save).1 := by
  have hflush := hinv.flush h.ascending chunks fullChunk
  have hreceipts : (e'.flush chunks fullChunk).cursors.rejectionReceipts =
      e.cursors.rejectionReceipts := by
    rw [Engine.flush, ← hcursors]
    split <;> rfl
  have hsub : ∀ c, s.file = some c →
      (e'.flush chunks fullChunk).cursors.rejectionReceipts ⊆ c.rejectionReceipts := by
    rw [hreceipts]
    exact (h.engine e he).2
  rw [Site.flush]
  split
  · exact (h.persist hflush save fun c hc _ => hsub c hc).mono (List.subset_append_left _ _)
  · exact (h.proceed hflush hsub).mono (List.subset_append_left _ _)

theorem PushInv.readChunk (chunks : Nat) (save : SaveResult) :
    PushInv codec config base (tr ++ (s.readChunk codec e chunks save).2)
      (s.readChunk codec e chunks save).1 := by
  have hinv := (h.engine e he).1
  rw [Site.readChunk]
  by_cases hchunk : s.messagesAfter codec e.readTo e.batchSize = []
  · simp only [hchunk, List.isEmpty_nil, if_true]
    exact h.flush he hinv rfl _ _ _
  · have hne : (s.messagesAfter codec e.readTo e.batchSize).isEmpty = false := by
      simpa using hchunk
    simp only [hne, Bool.false_eq_true, if_false]
    refine h.flush he (hinv.enqueue h.ascending hchunk) ?_ _ _ _
    rw [Engine.enqueue]
    split <;> rfl

theorem PushInv.finishPush (chunks : Nat) (fullChunk : Bool) (body : Value) (save : SaveResult) :
    PushInv codec config base (tr ++ (s.finishPush e chunks fullChunk body save).2)
      (s.finishPush e chunks fullChunk body save).1 := by
  obtain ⟨hinv, hfile⟩ := h.engine e he
  rw [Site.finishPush]
  split
  case h_1 => exact h.fail he
  case h_2 outcome houtcome =>
    split
    case h_1 =>
      exact (h.fail he).mono (by simp [Site.fail])
    case h_2 next hnext =>
      have hnextInv := hinv.acknowledge h.ascending houtcome hnext
      have hmono := h.mono (List.subset_append_left tr
        [.acknowledged (e.outbox.take e.take) body])
      have hsub := (acknowledge_spec hnext).2.1
      split
      case isTrue hrejected =>
        -- the receipts did not reach the disk for certain: the batch is kept
        obtain ⟨c, hc, hrestart⟩ := hmono.file
        have hold : EngineInv codec config.hub base
            (tr ++ [.acknowledged (e.outbox.take e.take) body]) s.stream
            { e with phase := .idle } :=
          ((hmono.engine e he).1).congr rfl rfl rfl rfl rfl rfl
        refine ⟨h.ascending, ?_, ?_⟩
        · by_cases hsave : save = .failed
          · exact ⟨c, by simp [SaveResult.file, hsave, hc], hrestart⟩
          · exact ⟨next, by simp [SaveResult.file, hsave], hnextInv.restart⟩
        · rintro e' he'
          obtain rfl := Option.some.inj he'
          refine ⟨hold, fun c' hc' => ?_⟩
          by_cases hsave : save = .failed
          · exact hfile c' (by simpa [SaveResult.file, hsave] using hc')
          · obtain rfl : next = c' := by simpa [SaveResult.file, hsave] using hc'
            exact hsub
      case isFalse hrejected =>
        have hflush := hnextInv.flush h.ascending chunks fullChunk
        have hreceipts : (Engine.flush { e with
            cursors := next, outbox := e.outbox.drop e.take } chunks fullChunk).cursors.rejectionReceipts
              = next.rejectionReceipts := by
          rw [Engine.flush]
          split <;> rfl
        refine (hmono.persist hflush save ?_).mono (by simp [Site.persist])
        -- a save that may fail has no new receipt
        intro c hc hsave
        have hids : outcome.rejectedIds = [] := by
          by_contra hne
          exact hrejected (by simp [hne, hsave])
        rw [hreceipts, acknowledge_receipts_eq hnext hids]
        exact hfile c hc

/-- Cursors of the other two directions and the phase do not matter. -/
theorem PushInv.proceed_of_eq {e' : Engine} (hcursors : e'.cursors = e.cursors)
    (hhub : e'.hub = e.hub) (hbatch : e'.batchSize = e.batchSize) (hread : e'.readTo = e.readTo)
    (houtbox : e'.outbox = e.outbox) :
    PushInv codec config base (tr ++ (s.proceed e').2) (s.proceed e').1 := by
  obtain ⟨hinv, hfile⟩ := h.engine e he
  refine (h.proceed (hinv.congr hhub hbatch ?_ ?_ hread houtbox) ?_).mono
    (List.subset_append_left _ _)
  · rw [hcursors]
  · rw [hcursors]
  · rw [hcursors]
    exact hfile

theorem PushInv.persist_of_eq {e' : Engine} (save : SaveResult)
    (hpush : e'.cursors.pushStreamId = e.cursors.pushStreamId)
    (hreceipts : e'.cursors.rejectionReceipts = e.cursors.rejectionReceipts)
    (hhub : e'.hub = e.hub) (hbatch : e'.batchSize = e.batchSize) (hread : e'.readTo = e.readTo)
    (houtbox : e'.outbox = e.outbox) :
    PushInv codec config base (tr ++ (s.persist e' save).2) (s.persist e' save).1 := by
  obtain ⟨hinv, hfile⟩ := h.engine e he
  refine (h.persist (hinv.congr hhub hbatch hpush hreceipts hread houtbox) save ?_).mono
    (List.subset_append_left _ _)
  intro c hc _
  rw [hreceipts]
  exact hfile c hc

theorem PushInv.readPresence (chunks : Nat) :
    PushInv codec config base (tr ++ (s.readPresence e chunks).2) (s.readPresence e chunks).1 := by
  rw [Site.readPresence]
  split <;> exact h.proceed_of_eq he rfl rfl rfl rfl rfl

theorem PushInv.finishPresence (chunks : Nat) (rows : List (Int × Hub.Presence))
    (save : SaveResult) :
    PushInv codec config base (tr ++ (s.finishPresence e chunks rows save).2)
      (s.finishPresence e chunks rows save).1 :=
  h.persist_of_eq he save rfl rfl rfl rfl rfl rfl

theorem PushInv.ingestNext (messages : List Message) (nextCursor : Nat) (hasMore : Bool)
    (save : SaveResult) :
    PushInv codec config base (tr ++ (s.ingestNext e messages nextCursor hasMore save).2)
      (s.ingestNext e messages nextCursor hasMore save).1 := by
  rw [Site.ingestNext]
  split
  · exact h.persist_of_eq he save rfl rfl rfl rfl rfl rfl
  · exact h.proceed_of_eq he rfl rfl rfl rfl rfl

omit he in
theorem PushInv.ingestMessage {m : Message} {id : StreamId} {s' : Site} {outs : List SiteOutput}
    (hi : s.ingestMessage m id = some (s', outs)) :
    PushInv codec config base tr s' ∧ s'.engine = s.engine := by
  unfold Site.ingestMessage at hi
  split at hi
  case h_1 => cases hi
  case h_2 originHub _ =>
    split_ifs at hi with hempty hseen hid
    · obtain ⟨rfl, -⟩ := Prod.mk.inj (Option.some.inj hi)
      exact ⟨h, rfl⟩
    · obtain ⟨rfl, -⟩ := Prod.mk.inj (Option.some.inj hi)
      have hnew : s.streamTail < (⟨id, syncedFields m originHub⟩ : Entry).id := hid
      obtain ⟨hasc, hfile, hengine⟩ := h.append hnew
      exact ⟨⟨hasc, hfile, hengine⟩, rfl⟩

theorem PushInv.stepStore (ok : Bool) (id : StreamId) (save : SaveResult) :
    PushInv codec config base (tr ++ (s.stepStore codec e ok id save).2)
      (s.stepStore codec e ok id save).1 := by
  rw [Site.stepStore]
  split
  case h_1 =>
    split
    · exact h.readChunk he _ _
    · exact h.fail he
  case h_2 =>
    split
    · exact h.readPresence he _
    · exact h.fail he
  case h_3 m messages nextCursor hasMore _ =>
    split
    · split
      case h_1 => exact h.fail he
      case h_2 s' outs hi =>
        obtain ⟨h', hengine⟩ := h.ingestMessage hi
        refine (h'.ingestNext (hengine.trans he) messages nextCursor hasMore save).mono ?_
        intro o ho
        rcases List.mem_append.1 ho with ho | ho <;> simp [ho]
    · exact h.fail he
  case h_4 =>
    rw [List.append_nil]
    exact h

theorem PushInv.stepCloud (body : Option Value) (save : SaveResult) :
    PushInv codec config base (tr ++ (s.stepCloud e body save).2) (s.stepCloud e body save).1 := by
  unfold Site.stepCloud
  split
  case h_1 =>
    split
    · exact h.finishPush he _ _ _ _
    · exact h.fail he
  case h_2 =>
    split
    · exact h.finishPresence he _ _ _
    · exact h.fail he
  case h_3 =>
    split
    · exact h.ingestNext he _ _ _ _
    · exact h.fail he
  case h_4 =>
    rw [List.append_nil]
    exact h

end Calls

/-! ### Where a hub began stays -/

@[simp] theorem Site.proceed_initial (s : Site) (e : Engine) :
    (s.proceed e).1.initial = s.initial := rfl

@[simp] theorem Site.persist_initial (s : Site) (e : Engine) (save : SaveResult) :
    (s.persist e save).1.initial = s.initial := rfl

@[simp] theorem Site.fail_initial (s : Site) (e : Engine) : (s.fail e).1.initial = s.initial := rfl

@[simp] theorem Site.flush_initial (s : Site) (e : Engine) (chunks : Nat) (fullChunk : Bool)
    (save : SaveResult) : (s.flush e chunks fullChunk save).1.initial = s.initial := by
  rw [Site.flush]
  split <;> simp

@[simp] theorem Site.ingestNext_initial (s : Site) (e : Engine) (messages : List Message)
    (nextCursor : Nat) (hasMore : Bool) (save : SaveResult) :
    (s.ingestNext e messages nextCursor hasMore save).1.initial = s.initial := by
  rw [Site.ingestNext]
  split <;> simp

theorem Site.ingestMessage_initial {s s' : Site} {m : Message} {id : StreamId}
    {outs : List SiteOutput} (h : s.ingestMessage m id = some (s', outs)) :
    s'.initial = s.initial := by
  unfold Site.ingestMessage at h
  split at h
  case h_1 => cases h
  case h_2 =>
    split_ifs at h
    all_goals
      obtain ⟨rfl, -⟩ := Prod.mk.inj (Option.some.inj h)
      rfl

theorem Site.stepStore_initial (s : Site) (e : Engine) (ok : Bool) (id : StreamId)
    (save : SaveResult) : (s.stepStore codec e ok id save).1.initial = s.initial := by
  rw [Site.stepStore]
  split
  case h_1 => split <;> simp [Site.readChunk]
  case h_2 =>
    split
    · rw [Site.readPresence]
      split <;> simp
    · simp
  case h_3 =>
    split
    · split
      case h_1 => simp
      case h_2 s' outs hi => simpa using Site.ingestMessage_initial hi
    · simp
  case h_4 => rfl

theorem Site.stepCloud_initial (s : Site) (e : Engine) (body : Option Value)
    (save : SaveResult) : (s.stepCloud e body save).1.initial = s.initial := by
  unfold Site.stepCloud
  split
  case h_1 =>
    split
    · rw [Site.finishPush]
      split
      · simp
      · split
        · simp
        · split <;> simp
    · simp
  case h_2 => split <;> simp [Site.finishPresence]
  case h_3 => split <;> simp [Site.readPage]
  case h_4 => rfl

/-! ### Runs -/

/-- A site that has not begun to replicate, or the invariant from where it began. -/
def SiteInv (codec : Codec) (config : Config) (tr : List SiteOutput) (s : Site) : Prop :=
  Ascending Entry.id s.stream ∧
    ((s.file = none ∧ s.engine = none ∧ s.initial = none) ∨
      ∃ c, s.initial = some c ∧ PushInv codec config c.pushStreamId tr s)

/-- The cursors of a first run, or those found on disk, are a beginning. -/
theorem pushInv_begin (hstream : Ascending Entry.id s.stream) {c : SyncCursors}
    (hfile : s.file = some c)
    (hengine : s.engine = none ∨ s.engine = some (Engine.new config c)) :
    PushInv codec config c.pushStreamId tr s := by
  have hnew : EngineInv codec config.hub c.pushStreamId tr s.stream (Engine.new config c) :=
    { hub_eq := rfl
      batch_pos := Nat.lt_of_lt_of_le Nat.one_pos (le_max_left _ _)
      base_le := le_rfl
      push_le := le_rfl
      read_le := fun id _ hbase => hbase
      outbox_eq := by
        show [] = eligible codec config.hub (between Entry.id c.pushStreamId c.pushStreamId s.stream)
        rw [between_eq_nil_of_le le_rfl]
        rfl
      covered := Covered.of_le le_rfl }
  refine ⟨hstream, ⟨c, hfile, hnew⟩, fun e he => ?_⟩
  rcases hengine with h | h
  · rw [h] at he
    cases he
  · obtain rfl : Engine.new config c = e := Option.some.inj (h.symm.trans he)
    refine ⟨hnew, fun c' hc' => ?_⟩
    obtain rfl : c = c' := Option.some.inj (hfile.symm.trans hc')
    exact List.Subset.refl _

theorem SiteInv.start (h : SiteInv codec config tr s) (save : SaveResult) :
    SiteInv codec config tr (s.start config save).1 := by
  rw [Site.start]
  split
  case h_1 => exact h
  case h_2 c hengine hfile =>
    obtain ⟨hasc, ⟨hnone, -, -⟩ | ⟨c₀, hinitial, hinv⟩⟩ := h
    · rw [hfile] at hnone
      cases hnone
    · -- a restart continues from the saved cursors
      obtain ⟨c', hc', hnew⟩ := hinv.file
      obtain rfl : c = c' := Option.some.inj (hfile.symm.trans hc')
      refine ⟨hasc, Or.inr ⟨c₀, hinitial, hinv.proceed hnew ?_⟩⟩
      intro c' hc'
      obtain rfl : c = c' := Option.some.inj (hfile.symm.trans hc')
      exact List.Subset.refl _
  case h_3 hengine hfile =>
    have hasc := h.1
    by_cases hsaved : save = .saved
    · simp only [hsaved, if_true]
      refine ⟨hasc, Or.inr ⟨s.firstCursors config, rfl, ?_⟩⟩
      apply pushInv_begin
      · exact hasc
      · rfl
      · exact Or.inr rfl
    · simp only [hsaved, if_false]
      by_cases hfailed : save = .failed
      · -- nothing was written: the next start is a first one again
        exact ⟨hasc, Or.inl ⟨by rw [SaveResult.file, if_pos hfailed], hengine,
          by rw [SaveResult.file, if_pos hfailed]⟩⟩
      · -- the cursors are in the file, although the save was not answered
        have hnew : save.file none (s.firstCursors config) = some (s.firstCursors config) := by
          rw [SaveResult.file, if_neg hfailed]
        refine ⟨hasc, Or.inr ⟨s.firstCursors config, hnew, ?_⟩⟩
        apply pushInv_begin
        · exact hasc
        · exact hnew
        · exact Or.inl hengine

/-- Steps that leave the stream, the file and the engine alone. -/
theorem SiteInv.presence (h : SiteInv codec config tr s) (table : PresenceTable) :
    SiteInv codec config tr { s with presence := table } := by
  obtain ⟨hasc, h | ⟨c, hinitial, hinv⟩⟩ := h
  · exact ⟨hasc, Or.inl h⟩
  · exact ⟨hasc, Or.inr ⟨c, hinitial, ⟨hinv.ascending, hinv.file, hinv.engine⟩⟩⟩

theorem SiteInv.ingested (h : SiteInv codec config tr s) (keys : List String) :
    SiteInv codec config tr { s with ingested := keys } := by
  obtain ⟨hasc, h | ⟨c, hinitial, hinv⟩⟩ := h
  · exact ⟨hasc, Or.inl h⟩
  · exact ⟨hasc, Or.inr ⟨c, hinitial, ⟨hinv.ascending, hinv.file, hinv.engine⟩⟩⟩

/-- A site with an engine has begun, and what one step of it does is kept. -/
theorem SiteInv.running (h : SiteInv codec config tr s) {e : Engine} (he : s.engine = some e)
    {s' : Site} {outs : List SiteOutput} (hinitial : s'.initial = s.initial)
    (hstep : ∀ base, PushInv codec config base tr s → PushInv codec config base (tr ++ outs) s') :
    SiteInv codec config (tr ++ outs) s' := by
  obtain ⟨-, ⟨-, hnone, -⟩ | ⟨c, hc, hinv⟩⟩ := h
  · rw [he] at hnone
    cases hnone
  · have hinv' := hstep _ hinv
    exact ⟨hinv'.ascending, Or.inr ⟨c, hinitial.trans hc, hinv'⟩⟩

/-- The outbox of a running engine has entries of the stream that may leave the hub. -/
theorem SiteInv.outbox (h : SiteInv codec config tr s) {e : Engine} (he : s.engine = some e) :
    e.hub = config.hub ∧ ∀ x ∈ e.outbox, ∃ entry ∈ s.stream,
      x = (entry.id, entry.message codec) ∧ pushable x.2 config.hub = true := by
  obtain ⟨-, ⟨-, hnone, -⟩ | ⟨c, -, hinv⟩⟩ := h
  · rw [hnone] at he
    cases he
  · have hengine := (hinv.engine e he).1
    refine ⟨hengine.hub_eq, ?_⟩
    intro x hx
    rw [hengine.outbox_eq] at hx
    obtain ⟨entry, hentry, rfl, hpushable⟩ := mem_eligible.1 hx
    exact ⟨entry, (mem_between.1 hentry).1, rfl, hpushable⟩

theorem SiteInv.step (h : SiteInv codec config tr s) (i : SiteInput) :
    SiteInv codec config (tr ++ (s.step codec config i).2) (s.step codec config i).1 := by
  cases i with
  | append id fields =>
    simp only [Site.step]
    split
    case isFalse => simpa using h
    case isTrue hid =>
      rw [List.append_nil]
      obtain ⟨hasc, hnone | ⟨c, hinitial, hinv⟩⟩ := h
      · refine ⟨?_, Or.inl hnone⟩
        refine List.pairwise_append.2 ⟨hasc, List.pairwise_singleton _ _, ?_⟩
        intro x hx y hy
        rw [List.mem_singleton.1 hy]
        exact lt_of_streamTail_lt hasc hid x hx
      · -- a new id is above the tail of the stream
        have hnew : s.streamTail < (⟨id, fields⟩ : Entry).id := hid
        have happend := hinv.append hnew
        exact ⟨happend.ascending, Or.inr ⟨c, hinitial, happend⟩⟩
  | allocate => simpa [Site.step] using h.presence _
  | commit id presence =>
    simp only [Site.step]
    split
    · simpa using h.presence _
    · simpa using h
  | rollback id => simpa [Site.step] using h.presence _
  | expire key => simpa [Site.step] using h.ingested _
  | start save =>
    have houts : (s.start config save).2 = [] := by
      rw [Site.start]
      split <;> [rfl; rfl; (split <;> rfl)]
    show SiteInv codec config (tr ++ (s.start config save).2) (s.start config save).1
    rw [houts, List.append_nil]
    exact h.start save
  | crash =>
    simp only [Site.step, List.append_nil]
    obtain ⟨hasc, ⟨hfile, -, hinitial⟩ | ⟨c, hinitial, hinv⟩⟩ := h
    · exact ⟨hasc, Or.inl ⟨hfile, rfl, hinitial⟩⟩
    · refine ⟨hasc, Or.inr ⟨c, hinitial, ⟨hinv.ascending, hinv.file, fun e he => ?_⟩⟩⟩
      cases he
  | tick =>
    simp only [Site.step]
    split
    case h_1 e he =>
      split
      · exact h.running he rfl fun base hinv => hinv.proceed_of_eq he rfl rfl rfl rfl rfl
      · simpa using h
    case h_2 => simpa using h
  | store ok id save =>
    simp only [Site.step]
    split
    case h_1 e he =>
      exact h.running he (Site.stepStore_initial s e ok id save)
        fun base hinv => hinv.stepStore he ok id save
    case h_2 => simpa using h
  | cloud body save =>
    simp only [Site.step]
    split
    case h_1 e he =>
      exact h.running he (Site.stepCloud_initial s e body save)
        fun base hinv => hinv.stepCloud he body save
    case h_2 => simpa using h

theorem siteInv_exec (codec : Codec) (config : Config) (file : Option SyncCursors)
    (is : List SiteInput) :
    SiteInv codec config ((Site.machine codec config).exec (Site.fresh file) is).2
      ((Site.machine codec config).exec (Site.fresh file) is).1 := by
  refine (Site.machine codec config).exec_induction
    (P := fun _ s tr => SiteInv codec config tr s) ?_ ?_ is
  · refine ⟨List.Pairwise.nil, ?_⟩
    cases file with
    | none => exact Or.inl ⟨rfl, rfl, rfl⟩
    | some c =>
      right
      refine ⟨c, rfl, ?_⟩
      apply pushInv_begin
      · exact List.Pairwise.nil
      · rfl
      · exact Or.inl rfl
  · intro _ t tr i ht
    exact ht.step i

/-- Libraries for entries without numbers and without compressed bodies. -/
def sampleCodec : Codec where
  doubles := plainDoubles
  lz4DecompressBody := fun _ => none

def sampleConfig : Config := { hub := "hub-a", outboxCap := 5000, batchSize := 500, backfill := false }

def sampleFields : EntryFields :=
  [("id", "m-1"), ("timestamp_utc", "2026-01-01T00:00:00.000000Z"), ("protocol_version", "1.0"),
   ("from", "alice"), ("to", "bob"), ("topic", "note"), ("body", "hello"), ("tags", "[]"),
   ("priority", "normal"), ("request_ack", "false"), ("reply_to", "alice"), ("metadata", "{}")]

end AgentHub.Sync
