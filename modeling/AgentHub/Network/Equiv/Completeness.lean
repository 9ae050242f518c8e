import AgentHub.Network.Equiv.Lineage

/-!
# What a hub has pulled

A hub moves its cursor over a row of another origin only when it has ingested its message, unless
the row was deleted while every cursor of the hub was still below it.  `PullInv` carries that
through a run: the rows up to a cursor are done with, those up to the end of a page are done with or
on the page, and those up to the end of the page in hand are done with or in hand.

Two things can defeat it, and the result excludes them: two messages whose origin and id make the
same marker, and an `origin_seq` that is not read back as a number of 64 bits.
-/

namespace AgentHub.Network

open AgentHub.Json AgentHub.Cloud AgentHub.Cloud.BusLog AgentHub.Sync

variable {d : Deployment} {s : Fleet} {tr events : List FleetEvent} {b name : HubName}
  {is : List FleetInput}

/-! ### Ingestions -/

/-- The event is the ingestion of a message by a hub. -/
def isIngestion (b : HubName) (originHub id : String) : FleetEvent → Bool
  | .ingested name _ m => name = b && m.originHub = some originHub && m.id = id
  | _ => false

/-- How often a hub ingested the message of an origin with an id. -/
def ingestions (b : HubName) (originHub id : String) (tr : List FleetEvent) : Nat :=
  tr.countP (isIngestion b originHub id)

/-- The row was deleted while every cursor of the hub was below it. -/
def DeletedUnreached (d : Deployment) (is : List FleetInput) (b : HubName) (row : Row) : Prop :=
  ∃ pre cutoffIso post, is = pre ++ .retention cutoffIso :: post ∧
    row ∈ ((Fleet.machine d).exec {} pre).1.log.rows ∧
    row ∉ (((Fleet.machine d).exec {} pre).1.log.deleteBefore cutoffIso).rows ∧
    ∀ c, (((Fleet.machine d).exec {} pre).1.sites b).HasPullCursor c → c < row.seq

/-- Nothing is left to do about the row at the hub. -/
def Done (d : Deployment) (is : List FleetInput) (tr : List FleetEvent) (b : HubName)
    (row : Row) : Prop :=
  1 ≤ ingestions b row.originHub row.id tr ∨ DeletedUnreached d is b row

/-- A row whose message a hub can read and mark: its `origin_seq` is a number of 64 bits, if it has
one, and no message of another origin or id has the same text `origin:id`. -/
structure PlainRow (tr : List FleetEvent) (row : Row) : Prop where
  inserted : .inserted row ∈ tr
  seq : (row.originSeq.all fun v => v.asU64.isSome) = true
  marker : ∀ row', .inserted row' ∈ tr →
    row'.originHub ++ ":" ++ row'.id = row.originHub ++ ":" ++ row.id →
    row'.originHub = row.originHub ∧ row'.id = row.id

theorem PlainRow.of_append {row : Row} (h : PlainRow (tr ++ events) row)
    (hrow : .inserted row ∈ tr) : PlainRow tr row :=
  ⟨hrow, h.seq, fun row' hrow' => h.marker row' (List.mem_append_left _ hrow')⟩

theorem ingestSeenKey_eq (originHub id : String) :
    ingestSeenKey originHub id = "agent_bus:cloud_sync:ingested:" ++ (originHub ++ ":" ++ id) := by
  unfold ingestSeenKey
  simp only [toString, String.append_assoc]

theorem ingestions_append (b : HubName) (originHub id : String) (tr events : List FleetEvent) :
    ingestions b originHub id (tr ++ events) =
      ingestions b originHub id tr + ingestions b originHub id events :=
  List.countP_append

theorem Done.mono {row : Row} (h : Done d is tr b row) (i : FleetInput)
    (events : List FleetEvent) : Done d (is ++ [i]) (tr ++ events) b row := by
  rcases h with h | ⟨pre, cutoffIso, post, rfl, hrest⟩
  · left
    rw [ingestions_append]
    omega
  · exact Or.inr ⟨pre, cutoffIso, post ++ [i], by simp, hrest⟩

/-- A row whose sequence number is one is read. -/
theorem PlainRow.read {row : Row} (h : PlainRow tr row) (c : Doubles) :
    ∃ m, row.read c = some m := by
  -- only the sequence of the origin can fail to be read
  have hseq := h.seq
  rw [Row.read, Row.readOriginSeq]
  cases hs : row.originSeq with
  | none => exact ⟨_, rfl⟩
  | some v =>
    rw [hs, Option.all_some] at hseq
    cases v with
    | int n =>
      rw [Value.asU64] at hseq
      split at hseq
      case isTrue hn =>
        -- a machine integer is written in full, so it comes back as it was
        have hmachine : isMachineInt n = true := by
          simp only [isMachineInt, Bool.and_eq_true, decide_eq_true_eq]
          omega
        have hread : readOption Value.asU64 ((some (Value.int n)).bind (document c)) =
            some (some n.toNat) := by
          rw [Option.bind_some, document, if_pos hmachine]
          show (Value.asU64 (.int n)).map some = _
          rw [Value.asU64, if_pos hn]
          rfl
        rw [hread]
        exact ⟨_, rfl⟩
      case isFalse => cases hseq
    | _ => cases hseq

/-! ### Markers -/

/-- The markers of what a hub ingested, in order. -/
def ingestedKeys (b : HubName) (tr : List FleetEvent) : List String :=
  tr.filterMap fun
    | .ingested name _ m =>
      if name = b then some (ingestSeenKey (m.originHub.getD "") m.id) else none
    | _ => none

theorem ingestedKeys_append (b : HubName) (tr events : List FleetEvent) :
    ingestedKeys b (tr ++ events) = ingestedKeys b tr ++ ingestedKeys b events :=
  List.filterMap_append

theorem ingestedKeys_nil (b : HubName) : ingestedKeys b [] = [] := rfl

/-- Events that ingest nothing at a hub leave its markers alone. -/
theorem ingestedKeys_eq_nil (h : ∀ id m, .ingested b id m ∉ events) : ingestedKeys b events = [] := by
  rw [ingestedKeys, List.filterMap_eq_nil_iff]
  intro ev hev
  cases ev with
  | ingested name id m =>
    have hne : name ≠ b := by
      rintro rfl
      exact h id m hev
    exact if_neg hne
  | _ => rfl

theorem mem_ingestedKeys {key : String} :
    key ∈ ingestedKeys b tr ↔
      ∃ id m, .ingested b id m ∈ tr ∧ ingestSeenKey (m.originHub.getD "") m.id = key := by
  rw [ingestedKeys, List.mem_filterMap]
  constructor
  · rintro ⟨ev, hev, hkey⟩
    cases ev with
    | ingested name id m =>
      simp only [Option.ite_none_right_eq_some, Option.some.injEq] at hkey
      obtain ⟨rfl, hkey⟩ := hkey
      exact ⟨id, m, hev, hkey⟩
    | _ => cases hkey
  · rintro ⟨id, m, hev, hkey⟩
    exact ⟨_, hev, by simp [hkey]⟩

/-- The markers of the outputs of a hub. -/
def keysOf (outs : List SiteOutput) : List String :=
  outs.filterMap fun
    | .ingested _ m => some (ingestSeenKey (m.originHub.getD "") m.id)
    | _ => none

theorem keysOf_cons (id : StreamId) (m : Message) (outs : List SiteOutput) :
    keysOf (.ingested id m :: outs) = ingestSeenKey (m.originHub.getD "") m.id :: keysOf outs := rfl

theorem keysOf_eq_nil {outs : List SiteOutput} (h : ∀ id m, .ingested id m ∉ outs) :
    keysOf outs = [] := by
  rw [keysOf, List.filterMap_eq_nil_iff]
  intro o ho
  cases o with
  | ingested id m => exact absurd ho (h id m)
  | _ => rfl

theorem ingestedKeys_stepSite (s : Fleet) (name : HubName) (i : SiteInput) :
    ingestedKeys name (s.stepSite d name i).2 =
      keysOf ((s.sites name).step (d.codec name) (d.config name) i).2 := by
  have happend : ∀ id m, .ingested name id m ∉ Fleet.appendEvent (s.sites name) name i := by
    intro id m hm
    unfold Fleet.appendEvent at hm
    split at hm
    · split at hm <;> simp at hm
    · cases hm
  rw [Fleet.stepSite, ingestedKeys_append, ingestedKeys_eq_nil happend, List.nil_append,
    ingestedKeys, keysOf, List.filterMap_filterMap]
  congr 1
  funext o
  cases o <;> simp [Fleet.outputEvent]

/-- The input is the end of the lifetime of a marker at a hub. -/
def isExpiry (b : HubName) (key : String) : FleetInput → Bool
  | .site name (.expire k) => name = b && k = key
  | _ => false

/-- How often the lifetime of a marker ended at a hub. -/
def expiries (b : HubName) (key : String) (is : List FleetInput) : Nat :=
  is.countP (isExpiry b key)

theorem expiries_append (b : HubName) (key : String) (is is' : List FleetInput) :
    expiries b key (is ++ is') = expiries b key is + expiries b key is' :=
  List.countP_append

theorem expiries_expire (b : HubName) (key : String) :
    expiries b key [.site b (.expire key)] = 1 := by
  simp [expiries, isExpiry]

/-- The markers of a hub are of what it ingested, and each was set again only when its lifetime had
ended. -/
structure MarkersOf (is : List FleetInput) (b : HubName) (site : Site) (tr : List FleetEvent) :
    Prop where
  sound : ∀ key ∈ site.ingested, key ∈ ingestedKeys b tr
  nodup : site.ingested.Nodup
  count_le : ∀ key, (ingestedKeys b tr).count key ≤ expiries b key is + site.ingested.count key

section

variable {site site' : Site}

theorem MarkersOf.extend (h : MarkersOf is b site tr) (i : FleetInput)
    (hsame : site'.ingested = site.ingested) (hnil : ingestedKeys b events = []) :
    MarkersOf (is ++ [i]) b site' (tr ++ events) := by
  refine ⟨?_, ?_, ?_⟩
  · rw [hsame, ingestedKeys_append, hnil, List.append_nil]
    exact h.sound
  · rw [hsame]
    exact h.nodup
  · intro key
    have hcount := h.count_le key
    rw [hsame, ingestedKeys_append, hnil, List.append_nil, expiries_append]
    omega

theorem MarkersOf.ingest (h : MarkersOf is b site tr) (i : FleetInput) {key : String}
    (hkey : key ∉ site.ingested) (hgrows : site'.ingested = site.ingested ++ [key])
    (hevents : ingestedKeys b events = [key]) :
    MarkersOf (is ++ [i]) b site' (tr ++ events) := by
  refine ⟨?_, ?_, ?_⟩
  · intro x hx
    rw [ingestedKeys_append, hevents]
    rw [hgrows, List.mem_append] at hx
    exact List.mem_append.2 (hx.imp_left (h.sound x))
  · rw [hgrows]
    exact List.Nodup.append h.nodup (List.nodup_singleton key) (by simpa using hkey)
  · intro x
    have hcount := h.count_le x
    rw [hgrows, ingestedKeys_append, hevents, List.count_append, List.count_append,
      expiries_append]
    omega

theorem MarkersOf.expire (h : MarkersOf is b site tr) (key : String)
    (hfilter : site'.ingested = site.ingested.filter (· ≠ key))
    (hnil : ingestedKeys b events = []) :
    MarkersOf (is ++ [.site b (.expire key)]) b site' (tr ++ events) := by
  refine ⟨?_, ?_, ?_⟩
  · intro x hx
    rw [hfilter] at hx
    rw [ingestedKeys_append, hnil, List.append_nil]
    exact h.sound x (List.mem_filter.1 hx).1
  · rw [hfilter]
    exact h.nodup.filter _
  · intro x
    have hcount := h.count_le x
    rw [hfilter, ingestedKeys_append, hnil, List.append_nil, expiries_append]
    by_cases hx : x = key
    · -- the marker was there at most once
      subst hx
      have hone := List.nodup_iff_count_le_one.1 h.nodup x
      rw [expiries_expire]
      omega
    · rw [List.count_filter (by simpa using hx)]
      omega

end

/-- A marker of a row is there because its message was ingested. -/
theorem FleetInv.ingestion_of_marker (h : FleetInv d s tr) {row : Row} (hrow : PlainRow tr row)
    (hkey : ingestSeenKey row.originHub row.id ∈ ingestedKeys b tr) :
    1 ≤ ingestions b row.originHub row.id tr := by
  obtain ⟨id, m, hin, heq⟩ := mem_ingestedKeys.1 hkey
  obtain ⟨⟨row', hrow', hread⟩, -⟩ := h.ingested b id m hin
  obtain ⟨horigin, hid, -⟩ := Row.read_fields hread
  rw [horigin, hid, Option.getD_some, ingestSeenKey_eq, ingestSeenKey_eq] at heq
  obtain ⟨ho, hi⟩ := hrow.marker row' hrow' ((String.append_right_inj _).1 heq)
  apply List.countP_pos_iff.2
  refine ⟨_, hin, ?_⟩
  simp [isIngestion, horigin, hid, ho, hi]

/-! ### The invariant -/

structure PullInv (d : Deployment) (is : List FleetInput) (s : Fleet) (tr : List FleetEvent) :
    Prop where
  markers : ∀ b, MarkersOf is b (s.sites b) tr
  cursor_le : ∀ b c, (s.sites b).HasPullCursor c → c ≤ s.log.lastSeq
  pending_le : ∀ b since, s.pending b = some (.pull since) → since ≤ s.log.lastSeq
  reached : ∀ b row, PlainRow tr row → row.originHub ≠ b.text →
    ∀ c, (s.sites b).HasPullCursor c → row.seq ≤ c → Done d is tr b row
  gone : ∀ b row, PlainRow tr row → row.originHub ≠ b.text → row ∉ s.log.rows →
    Done d is tr b row
  page : ∀ b since r, .page b since r ∈ tr → r.nextCursor ≤ s.log.lastSeq ∧
    ∀ row, PlainRow tr row → row.originHub ≠ b.text → since < row.seq →
      row.seq ≤ r.nextCursor → Done d is tr b row ∨ row ∈ r.page
  inHand : ∀ b e ms n more, (s.sites b).engine = some e → e.phase = .ingesting ms n more →
    n ≤ s.log.lastSeq ∧ ∀ row, PlainRow tr row → row.originHub ≠ b.text →
      e.cursors.pullCursor < row.seq → row.seq ≤ n →
      Done d is tr b row ∨ ∃ m ∈ ms, row.read (d.codec b).doubles = some m

theorem PullInv.initial (d : Deployment) : PullInv d [] {} [] where
  markers b := ⟨fun _ hkey => hkey, List.nodup_nil, fun _ => Nat.zero_le _⟩
  cursor_le b c hc := by
    rcases hc with rfl | ⟨f, hf, -⟩ | ⟨e, he, -⟩
    · exact Nat.zero_le _
    · cases hf
    · cases he
  pending_le := by simp
  reached b row hrow := by cases hrow.inserted
  gone b row hrow := by cases hrow.inserted
  page := by simp
  inHand b e ms n more he := by cases he

namespace PullInv

/-- A write to the log: its rows are beyond every cursor. -/
theorem logStep (p : PullInv d is s tr) {Source : HubName → StreamId → Prop} {log' : BusLog}
    (hlog : Fleet.LogStep Source s.log log' events) (i : FleetInput) :
    PullInv d (is ++ [i]) { s with log := log' } (tr ++ events) := by
  -- a row that was within reach is an old one: a new row has a later sequence
  have hold : ∀ row, PlainRow (tr ++ events) row → row.seq ≤ s.log.lastSeq → PlainRow tr row := by
    intro row hrow hle
    rcases List.mem_append.1 hrow.inserted with hin | hnew
    · exact hrow.of_append hin
    · have hlt := (hlog.inserted row hnew).2.1
      omega
  refine ⟨?_, ?_, ?_, ?_, ?_, ?_, ?_⟩
  · -- a step on the log moves no marker
    intro b
    refine (p.markers b).extend i rfl (ingestedKeys_eq_nil fun id m hm => ?_)
    rcases hlog.kinds _ hm with ⟨_, h⟩ | ⟨_, _, _, h⟩ <;> cases h
  · exact fun b c hc => (p.cursor_le b c hc).trans hlog.lastSeq_le
  · exact fun b since hb => (p.pending_le b since hb).trans hlog.lastSeq_le
  · intro b row hrow hne c hc hle
    have hin := hold row hrow (hle.trans (p.cursor_le b c hc))
    exact (p.reached b row hin hne c hc hle).mono i events
  · intro b row hrow hne hgone
    rcases List.mem_append.1 hrow.inserted with hin | hnew
    · -- a row that was just inserted has not gone
      exact (p.gone b row (hrow.of_append hin) hne fun hmem => hgone (hlog.kept hmem)).mono i events
    · exact absurd (hlog.inserted row hnew).1 hgone
  · intro b since r hr
    have hin : .page b since r ∈ tr := by
      rcases List.mem_append.1 hr with hin | hnew
      · exact hin
      · rcases hlog.kinds _ hnew with ⟨_, h⟩ | ⟨_, _, _, h⟩ <;> cases h
    obtain ⟨hle, hrows⟩ := p.page b since r hin
    refine ⟨hle.trans hlog.lastSeq_le, ?_⟩
    intro row hrow hne hlt hseq
    exact (hrows row (hold row hrow (hseq.trans hle)) hne hlt hseq).imp_left fun h => h.mono i events
  · intro b e ms n more he hphase
    obtain ⟨hle, hrows⟩ := p.inHand b e ms n more he hphase
    refine ⟨hle.trans hlog.lastSeq_le, ?_⟩
    intro row hrow hne hlt hseq
    exact (hrows row (hold row hrow (hseq.trans hle)) hne hlt hseq).imp_left fun h => h.mono i events

/-- Retention deletes a row that the hub has done with, or one it has not reached. -/
theorem retention (p : PullInv d is s tr) (hs : s = ((Fleet.machine d).exec {} is).1)
    (cutoffIso : String) :
    PullInv d (is ++ [.retention cutoffIso]) { s with log := s.log.deleteBefore cutoffIso } tr := by
  -- the clean-up has no output
  have hmono : ∀ {b row}, Done d is tr b row → Done d (is ++ [.retention cutoffIso]) tr b row := by
    intro b row hdone
    have hnil := hdone.mono (.retention cutoffIso) []
    rwa [List.append_nil] at hnil
  refine ⟨?_, p.cursor_le, p.pending_le, ?_, ?_, ?_, ?_⟩
  · intro b
    have hmarkers := (p.markers b).extend (.retention cutoffIso) rfl (ingestedKeys_nil b)
    rwa [List.append_nil] at hmarkers
  · intro b row hrow hne c hc hle
    exact hmono (p.reached b row hrow hne c hc hle)
  · intro b row hrow hne hgone
    by_cases hmem : row ∈ s.log.rows
    · -- a row that this clean-up deletes was reached before, or is deleted unreached
      by_cases hreached : ∃ c, (s.sites b).HasPullCursor c ∧ row.seq ≤ c
      · obtain ⟨c, hc, hle⟩ := hreached
        exact hmono (p.reached b row hrow hne c hc hle)
      · right
        refine ⟨is, cutoffIso, [], rfl, hs ▸ hmem, hs ▸ hgone, ?_⟩
        intro c hc
        rw [← hs] at hc
        exact Nat.lt_of_not_le fun hle => hreached ⟨c, hc, hle⟩
    · exact hmono (p.gone b row hrow hne hmem)
  · intro b since r hr
    obtain ⟨hle, hrows⟩ := p.page b since r hr
    exact ⟨hle, fun row hrow hne hlt hseq => (hrows row hrow hne hlt hseq).imp_left hmono⟩
  · intro b e ms n more he hphase
    obtain ⟨hle, hrows⟩ := p.inHand b e ms n more he hphase
    exact ⟨hle, fun row hrow hne hlt hseq => (hrows row hrow hne hlt hseq).imp_left hmono⟩

/-- A step that changes nothing. -/
theorem extend (p : PullInv d is s tr) (i : FleetInput) : PullInv d (is ++ [i]) s tr := by
  have hsame : Fleet.LogStep (fun _ _ => False) s.log s.log [] := Fleet.logStep_of_eq s.log
  have hstep := p.logStep hsame i
  rwa [List.append_nil] at hstep

theorem ofAnswers (p : PullInv d is s tr) (answers : HubName → Option SyncAnswer) :
    PullInv d is { s with answers } tr :=
  ⟨p.markers, p.cursor_le, p.pending_le, p.reached, p.gone, p.page, p.inHand⟩

/-- A page that is served has every row of its range that is still there. -/
theorem servedPage (p : PullInv d is s tr) {since : Nat} (hsince : since ≤ s.log.lastSeq)
    {r : SyncPullResult} (hr : s.log.Covers since b.text r) (i : FleetInput) :
    PullInv d (is ++ [i]) s (tr ++ [.page b since r]) := by
  have hold : ∀ row, PlainRow (tr ++ [FleetEvent.page b since r]) row → PlainRow tr row := by
    intro row hrow
    exact hrow.of_append (by simpa using hrow.inserted)
  refine ⟨?_, p.cursor_le, p.pending_le, ?_, ?_, ?_, ?_⟩
  · exact fun x => (p.markers x).extend i rfl (ingestedKeys_eq_nil (by simp))
  · exact fun x row hrow hne c hc hle => (p.reached x row (hold row hrow) hne c hc hle).mono i _
  · exact fun x row hrow hne hgone => (p.gone x row (hold row hrow) hne hgone).mono i _
  · intro x c q hq
    rcases List.mem_append.1 hq with hin | hnew
    · obtain ⟨hle, hrows⟩ := p.page x c q hin
      refine ⟨hle, ?_⟩
      intro row hrow hne hlt hseq
      exact (hrows row (hold row hrow) hne hlt hseq).imp_left fun h => h.mono i _
    · cases List.mem_singleton.1 hnew
      refine ⟨hr.le_lastSeq.trans (Nat.max_le.2 ⟨hsince, Nat.le_refl _⟩), ?_⟩
      intro row hrow hne hlt hseq
      -- a row that the page lacks has left the table
      by_cases hmem : row ∈ s.log.rows
      · exact Or.inr (hr.complete row hmem hne hlt hseq)
      · exact Or.inl ((p.gone b row (hold row hrow) hne hmem).mono i _)
  · intro x e ms n more he hphase
    obtain ⟨hle, hrows⟩ := p.inHand x e ms n more he hphase
    refine ⟨hle, ?_⟩
    intro row hrow hne hlt hseq
    exact (hrows row (hold row hrow) hne hlt hseq).imp_left fun h => h.mono i _

/-- What a hub takes from a page: every row up to the cursor it reads is done with or taken. -/
theorem ofPage (p : PullInv d is s tr) (h : FleetInv d s tr) {since : Nat} {r : SyncPullResult} (hr : .page name since r ∈ tr)
    (hsince : since ≤ s.log.lastSeq) {body : Value}
    (hbody : readAnswer (d.codec name).doubles (.ok r.value) = some body) :
    (pullPage body since).nextCursor ≤ s.log.lastSeq ∧
      ∀ row, PlainRow tr row → row.originHub ≠ name.text → since < row.seq →
        row.seq ≤ (pullPage body since).nextCursor →
        Done d is tr name row ∨ ∃ m ∈ (pullPage body since).messages.filter fun m =>
          m.originHub.any fun origin => origin ≠ name.text,
            row.read (d.codec name).doubles = some m := by
  obtain ⟨hle, hrows⟩ := p.page name since r hr
  obtain ⟨hmessages, hcursor⟩ := pullPage_page hbody
    (fun row hrow => (h.inserted row (h.pages name since r hr row hrow)).2.1) since
  constructor
  · rcases hcursor with hnext | hsame
    · rw [hnext]
      exact hle
    · rw [hsame]
      exact hsince
  · intro row hrow hne hlt hseq
    -- the cursor of the page moves on, or nothing was read and it stays
    rcases hcursor with hnext | hsame
    · rw [hnext] at hseq
      refine (hrows row hrow hne hlt hseq).imp_right fun hpage => ?_
      obtain ⟨m, hm⟩ := hrow.read (d.codec name).doubles
      refine ⟨m, List.mem_filter.2 ⟨?_, ?_⟩, hm⟩
      · rw [hmessages]
        exact List.mem_filterMap.2 ⟨row, hpage, hm⟩
      · rw [(Row.read_fields hm).1]
        simpa using hne
    · omega

/-- The markers after a step of a hub. -/
theorem markers_stepSite (p : PullInv d is s tr) (name : HubName) (i : SiteInput)
    (input : FleetInput) (hinput : ∀ key, i = .expire key → input = .site name (.expire key))
    (b : HubName) :
    MarkersOf (is ++ [input]) b ((s.stepSite d name i).1.sites b)
      (tr ++ (s.stepSite d name i).2) := by
  obtain ⟨-, hsites, -⟩ := Fleet.stepSite_fst (d := d) s name i
  by_cases hb : b = name
  · subst hb
    rw [hsites, Function.update_self]
    rcases Site.step_ingested (d.codec b) (d.config b) (s.sites b) i with
      ⟨hno, hsame | ⟨key, hi, hfilter⟩⟩ |
        ⟨e, id, m, ms, n, more, origin, outs, -, -, horigin, -, hseen, hgrows, -, houts, hno⟩
    · exact (p.markers b).extend input hsame ((ingestedKeys_stepSite s b i).trans (keysOf_eq_nil hno))
    · rw [hinput key hi]
      exact (p.markers b).expire key hfilter
        ((ingestedKeys_stepSite s b i).trans (keysOf_eq_nil hno))
    · refine (p.markers b).ingest input hseen hgrows ?_
      rw [ingestedKeys_stepSite, houts, keysOf_cons, keysOf_eq_nil hno, horigin, Option.getD_some]
  · rw [hsites, Function.update_of_ne hb]
    refine (p.markers b).extend input rfl (ingestedKeys_eq_nil fun id m hm => ?_)
    cases Fleet.mem_stepSite_snd hm
    exact hb rfl

/-! ### A step of a hub -/

/-- A step of a hub inserts no row. -/
theorem plain_stepSite {i : SiteInput} {row : Row}
    (h : PlainRow (tr ++ (s.stepSite d name i).2) row) : PlainRow tr row := by
  rcases List.mem_append.1 h.inserted with hin | hnew
  · exact h.of_append hin
  · cases Fleet.mem_stepSite_snd hnew

theorem page_of_stepSite {i : SiteInput} {since : Nat} {r : SyncPullResult}
    (h : .page b since r ∈ tr ++ (s.stepSite d name i).2) : .page b since r ∈ tr := by
  rcases List.mem_append.1 h with hin | hnew
  · exact hin
  · cases Fleet.mem_stepSite_snd hnew

/-- The cursor an engine goes on from. -/
theorem hasPullCursor {e : Engine} (he : (s.sites name).engine = some e) :
    (s.sites name).HasPullCursor e.cursors.pullCursor :=
  Or.inr (Or.inr ⟨e, he, rfl⟩)

section

variable {i : SiteInput} (p : PullInv d is s tr) (h : FleetInv d s tr)
  (hbody : LineageInv.ReadsPages d s tr name i) (input : FleetInput)

include p h hbody

/-- A page that is read holds what is still to do up to its cursor. -/
theorem pageRead {e : Engine} {body : Value} {save : SaveResult} (hi : i = .cloud (some body) save)
    (he : (s.sites name).engine = some e) (hphase : e.phase = .pulling) :
    (pullPage body e.cursors.pullCursor).nextCursor ≤ s.log.lastSeq ∧
      ∀ row, PlainRow tr row → row.originHub ≠ name.text → e.cursors.pullCursor < row.seq →
        row.seq ≤ (pullPage body e.cursors.pullCursor).nextCursor →
        Done d is tr name row ∨
          ∃ m ∈ (pullPage body e.cursors.pullCursor).messages.filter fun m =>
            m.originHub.any fun origin => origin ≠ e.hub,
              row.read (d.codec name).doubles = some m := by
  obtain ⟨r, hr, hread⟩ := hbody e body save hi he hphase
  obtain ⟨t, hinv⟩ := h.sites name
  rw [(hinv.outbox he).1, d.hub_eq]
  exact p.ofPage h hr (p.cursor_le name _ (hasPullCursor he)) hread

/-- A message whose marker is there was ingested. -/
theorem seen_stepSite {row : Row} (hrow : PlainRow (tr ++ (s.stepSite d name i).2) row)
    {m : Message} (hread : row.read (d.codec name).doubles = some m) {origin : String}
    (horigin : m.originHub = some origin)
    (hkey : ingestSeenKey origin m.id ∈
      ((s.sites name).step (d.codec name) (d.config name) i).1.ingested) :
    Done d (is ++ [input]) (tr ++ (s.stepSite d name i).2) name row := by
  obtain ⟨-, hsites, -⟩ := Fleet.stepSite_fst (d := d) s name i
  have hmarkers := (p.markers_stepSite name i (.site name i)
    (fun key hi => congrArg (FleetInput.site name) hi) name).sound
  rw [hsites, Function.update_self] at hmarkers
  obtain ⟨hhub, hid, -⟩ := Row.read_fields hread
  rw [hhub] at horigin
  cases horigin
  rw [hid] at hkey
  exact Or.inl ((h.stepSite hbody).ingestion_of_marker hrow (hmarkers _ hkey))

/-- The cursors after a step of a hub. -/
theorem cursor_stepSite {c : Nat} (hc : ((s.stepSite d name i).1.sites name).HasPullCursor c) :
    c ≤ s.log.lastSeq ∧ ∀ input row, PlainRow (tr ++ (s.stepSite d name i).2) row →
      row.originHub ≠ name.text → row.seq ≤ c →
      Done d (is ++ [input]) (tr ++ (s.stepSite d name i).2) name row := by
  obtain ⟨-, hsites, -⟩ := Fleet.stepSite_fst (d := d) s name i
  rw [hsites, Function.update_self] at hc
  rcases Site.step_cursor hc with
    hc | ⟨e, m, n, more, he, hphase, rfl, origin, horigin, hkey⟩ |
      ⟨e, body, save, hi, he, hphase, rfl, hnil⟩
  · exact ⟨p.cursor_le name c hc, fun input row hrow hne hle =>
      (p.reached name row (plain_stepSite hrow) hne c hc hle).mono input _⟩
  · -- the last message of the page in hand
    have hown := hasPullCursor he
    obtain ⟨hn, hrows⟩ := p.inHand name e [m] n more he hphase
    refine ⟨Nat.max_le.2 ⟨hn, p.cursor_le name _ hown⟩, ?_⟩
    intro input row hrow hne hle
    -- a row above the old cursor was in the page in hand
    by_cases hlt : e.cursors.pullCursor < row.seq
    · rcases hrows row (plain_stepSite hrow) hne hlt (by omega) with hdone | ⟨m', hm', hread⟩
      · exact hdone.mono input _
      · rw [List.mem_singleton.1 hm'] at hread
        exact p.seen_stepSite h hbody input hrow hread horigin hkey
    · exact (p.reached name row (plain_stepSite hrow) hne _ hown (by omega)).mono input _
  · -- a page with nothing to ingest
    have hown := hasPullCursor he
    obtain ⟨hn, hrows⟩ := p.pageRead h hbody hi he hphase
    refine ⟨Nat.max_le.2 ⟨hn, p.cursor_le name _ hown⟩, ?_⟩
    intro input row hrow hne hle
    by_cases hlt : e.cursors.pullCursor < row.seq
    · rcases hrows row (plain_stepSite hrow) hne hlt (by omega) with hdone | ⟨m', hm', -⟩
      · exact hdone.mono input _
      · rw [hnil] at hm'
        cases hm'
    · exact (p.reached name row (plain_stepSite hrow) hne _ hown (by omega)).mono input _

/-- The page in hand after a step of a hub. -/
theorem inHand_stepSite {e' : Engine} {ms : List Message} {n : Nat} {more : Bool}
    (he' : ((s.stepSite d name i).1.sites name).engine = some e')
    (hphase' : e'.phase = .ingesting ms n more) :
    n ≤ s.log.lastSeq ∧ ∀ row, PlainRow (tr ++ (s.stepSite d name i).2) row →
      row.originHub ≠ name.text → e'.cursors.pullCursor < row.seq → row.seq ≤ n →
      Done d (is ++ [input]) (tr ++ (s.stepSite d name i).2) name row ∨
        ∃ m ∈ ms, row.read (d.codec name).doubles = some m := by
  obtain ⟨-, hsites, -⟩ := Fleet.stepSite_fst (d := d) s name i
  rw [hsites, Function.update_self] at he'
  rcases Site.step_ingesting he' hphase' with
    he | ⟨e, m, he, hphase, hcur, origin, horigin, hkey⟩ |
      ⟨e, body, save, hi, he, hphase, hcur, rfl, rfl⟩
  · obtain ⟨hn, hrows⟩ := p.inHand name e' ms n more he hphase'
    refine ⟨hn, ?_⟩
    intro row hrow hne hlt hseq
    exact (hrows row (plain_stepSite hrow) hne hlt hseq).imp_left fun hdone => hdone.mono input _
  · -- the message at the head has been seen
    obtain ⟨hn, hrows⟩ := p.inHand name e _ n more he hphase
    refine ⟨hn, ?_⟩
    intro row hrow hne hlt hseq
    rw [hcur] at hlt
    rcases hrows row (plain_stepSite hrow) hne hlt hseq with hdone | ⟨m', hm', hread⟩
    · exact Or.inl (hdone.mono input _)
    · rcases List.mem_cons.1 hm' with rfl | hm'
      · exact Or.inl (p.seen_stepSite h hbody input hrow hread horigin hkey)
      · exact Or.inr ⟨m', hm', hread⟩
  · obtain ⟨hn, hrows⟩ := p.pageRead h hbody hi he hphase
    refine ⟨hn, ?_⟩
    intro row hrow hne hlt hseq
    rw [hcur] at hlt
    exact (hrows row (plain_stepSite hrow) hne hlt hseq).imp_left fun hdone => hdone.mono input _

/-- The pulls that wait for an answer after a step of a hub. -/
theorem pending_stepSite {since : Nat}
    (hb : (s.stepSite d name i).1.pending b = some (.pull since)) : since ≤ s.log.lastSeq := by
  obtain ⟨-, hsites, hasked⟩ := Fleet.stepSite_fst (d := d) s name i
  by_cases hbn : b = name
  · -- an answer is awaited only for a request that was sent
    subst hbn
    cases hasked with
    | nothing hsent hpending hanswers hphase =>
      rw [hpending] at hb
      exact p.pending_le b since hb
    | push batch e he hbatch hout hphase hsent hpending hanswers =>
      rw [hpending, Function.update_self] at hb
      cases hb
    | presence hphase hsent hpending hanswers =>
      rw [hpending, Function.update_self] at hb
      cases hb
    | pull e he hsent hpending hanswers =>
      rw [hpending, Function.update_self] at hb
      cases hb
      -- the request asks from the cursor that was saved
      refine (p.cursor_stepSite h hbody (hasPullCursor ?_)).1
      rw [hsites, Function.update_self]
      exact he
  · apply p.pending_le b since
    cases hasked with
    | nothing hsent hpending hanswers hphase => rwa [hpending] at hb
    | push batch e he hbatch hout hphase hsent hpending hanswers =>
      rwa [hpending, Function.update_of_ne hbn] at hb
    | presence hphase hsent hpending hanswers =>
      rwa [hpending, Function.update_of_ne hbn] at hb
    | pull e he hsent hpending hanswers =>
      rwa [hpending, Function.update_of_ne hbn] at hb

/-- **A step of a hub keeps the invariant.** -/
theorem stepSite (hinput : ∀ key, i = .expire key → input = .site name (.expire key)) :
    PullInv d (is ++ [input]) (s.stepSite d name i).1 (tr ++ (s.stepSite d name i).2) := by
  obtain ⟨hlog, hsites, -⟩ := Fleet.stepSite_fst (d := d) s name i
  -- the sites share nothing but the log
  have hother : ∀ b, b ≠ name → (s.stepSite d name i).1.sites b = s.sites b := by
    intro b hb
    rw [hsites, Function.update_of_ne hb]
  refine ⟨p.markers_stepSite name i input hinput, ?_, ?_, ?_, ?_, ?_, ?_⟩
  · intro b c hc
    rw [hlog]
    by_cases hb : b = name
    · subst hb
      exact (p.cursor_stepSite h hbody hc).1
    · exact p.cursor_le b c (hother b hb ▸ hc)
  · intro b since hb
    rw [hlog]
    exact p.pending_stepSite h hbody hb
  · intro b row hrow hne c hc hle
    by_cases hb : b = name
    · subst hb
      exact (p.cursor_stepSite h hbody hc).2 input row hrow hne hle
    · exact (p.reached b row (plain_stepSite hrow) hne c (hother b hb ▸ hc) hle).mono input _
  · intro b row hrow hne hgone
    rw [hlog] at hgone
    exact (p.gone b row (plain_stepSite hrow) hne hgone).mono input _
  · intro b since r hr
    rw [hlog]
    obtain ⟨hle, hrows⟩ := p.page b since r (page_of_stepSite hr)
    refine ⟨hle, ?_⟩
    intro row hrow hne hlt hseq
    exact (hrows row (plain_stepSite hrow) hne hlt hseq).imp_left fun hdone => hdone.mono input _
  · intro b e' ms n more he' hphase'
    rw [hlog]
    by_cases hb : b = name
    · subst hb
      exact p.inHand_stepSite h hbody input he' hphase'
    · rw [hother b hb] at he'
      obtain ⟨hn, hrows⟩ := p.inHand b e' ms n more he' hphase'
      refine ⟨hn, ?_⟩
      intro row hrow hne hlt hseq
      exact (hrows row (plain_stepSite hrow) hne hlt hseq).imp_left
        fun hdone => hdone.mono input _

end

/-! ### Every step -/

theorem serve (p : PullInv d is s tr) (name : HubName) (moment : Moment) (i : FleetInput) :
    PullInv d (is ++ [i]) (s.serve d name moment).1 (tr ++ (s.serve d name moment).2) := by
  unfold Fleet.serve
  split
  case h_1 => simpa using p.extend i
  case h_2 batch hpending =>
    exact (p.logStep (Fleet.servePush_logStep s name batch moment) i).ofAnswers _
  case h_3 since hpending =>
    split
    case h_1 =>
      have hcovers : s.log.Covers since name.text
          (s.log.syncPull since (some name.text) (pullLimit (d.pageSize name))) :=
        syncPull_covers s.log since name.text_ne (Nat.le_max_left 1 _)
      exact (p.servedPage (p.pending_le name since hpending) hcovers i).ofAnswers _
    case h_2 =>
      rw [List.append_nil]
      exact (p.extend i).ofAnswers _

/-- **Every step keeps the invariant.** -/
theorem step (p : PullInv d is s tr) (h : FleetInv d s tr)
    (hs : s = ((Fleet.machine d).exec {} is).1) (i : FleetInput) :
    PullInv d (is ++ [i]) (s.step d i).1 (tr ++ (s.step d i).2) := by
  cases i with
  | site name i =>
    rcases Fleet.step_site (d := d) s name i with ⟨hstep, hawaits⟩ | hstep
    · rw [hstep]
      refine p.stepSite h (LineageInv.readsPages_of_awaits hawaits) _ ?_
      rintro key rfl
      rfl
    · rw [hstep]
      simpa using p.extend _
  | serve name moment => exact p.serve name moment _
  | serveLate k moment =>
    simp only [Fleet.step, Fleet.serveLate]
    -- a push that is served late changes the log alone
    split
    case h_1 name batch hsent =>
      exact p.logStep (Fleet.servePush_logStep s name batch moment) _
    case h_2 => simpa using p.extend _
  | deliver name save =>
    cases hanswer : s.answers name with
    | some answer =>
      simp only [Fleet.step, hanswer]
      have hdrop : FleetInv d { s with answers := Function.update s.answers name none } tr :=
        { h.toRequestInv.dropAnswer name, h.toLineageInv.ofAnswers _ with }
      exact (p.ofAnswers _).stepSite hdrop (h.deliver hanswer save) _ (by simp)
    | none =>
      simp only [Fleet.step, hanswer]
      simpa using p.extend _
  | insert fields originHub now fault =>
    obtain ⟨hfst, hlog⟩ := Fleet.insert_logStep (d := d) s fields originHub now fault
    simp only [Fleet.step]
    rw [hfst]
    exact p.logStep hlog _
  | retention cutoffIso =>
    simp only [Fleet.step, List.append_nil]
    exact p.retention hs cutoffIso

end PullInv

example : ingestions hubB "hub-a" "m-1" ((Fleet.machine sampleDeployment).exec {} sampleRun).2 = 1 := by
  decide +kernel

end AgentHub.Network
