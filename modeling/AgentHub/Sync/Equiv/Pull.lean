import AgentHub.Sync.Engine

/-!
# What a step of a site does to what was pulled

`PullStep` says once what a step can do to the stream, the markers, the pull cursors and the page in
hand: a local write, a page that was read, one message that is ingested, and everything else, which
leaves them alone (`Site.step_pull`).  `Site.step_requests` says which requests a step makes: those
of the call its engine goes on to.
-/

namespace AgentHub.Sync

open AgentHub.Json

/-- A pull cursor the site can go on from: a saved one, the engine's, or that of a first run. -/
def Site.HasPullCursor (s : Site) (c : Nat) : Prop :=
  c = 0 ∨ (∃ f, s.file = some f ∧ f.pullCursor = c) ∨
    ∃ e, s.engine = some e ∧ e.cursors.pullCursor = c

/-- No page is in hand. -/
def Engine.NotIngesting (e : Engine) : Prop := ∀ ms n more, e.phase ≠ .ingesting ms n more

/-- A step that leaves what was pulled alone. -/
structure Still (s : Site) (r : Site × List SiteOutput) : Prop where
  stream : r.1.stream = s.stream
  ingested : r.1.ingested = s.ingested
  outs : ∀ id m, SiteOutput.ingested id m ∉ r.2
  file : ∀ f, r.1.file = some f → s.HasPullCursor f.pullCursor
  engine : ∀ e, r.1.engine = some e →
    r.1.engine = s.engine ∨ (e.NotIngesting ∧ s.HasPullCursor e.cursors.pullCursor)

/-- What one step does to the stream, the markers, the cursors and the page in hand. -/
inductive PullStep (s : Site) : SiteInput → Site × List SiteOutput → Prop where
  | append {id : StreamId} {fields : EntryFields} (h : s.streamTail < id) :
    PullStep s (.append id fields) ({ s with stream := s.stream ++ [⟨id, fields⟩] }, [])
  | expire (key : String) :
    PullStep s (.expire key) ({ s with ingested := s.ingested.filter (· ≠ key) }, [])
  | still {i : SiteInput} {r : Site × List SiteOutput} (h : Still s r) : PullStep s i r
  | page {e : Engine} {body : Value} {save : SaveResult} (he : s.engine = some e)
    (hphase : e.phase = .pulling) :
    PullStep s (.cloud (some body) save) (s.readPage e body save)
  | ingest {e : Engine} {m : Message} {ms : List Message} {n : Nat} {more : Bool} {id : StreamId}
    {save : SaveResult} {s' : Site} {outs : List SiteOutput} (he : s.engine = some e)
    (hphase : e.phase = .ingesting (m :: ms) n more)
    (hi : s.ingestMessage m id = some (s', outs)) :
    PullStep s (.store true id save)
      ((s'.ingestNext e ms n more save).1, outs ++ (s'.ingestNext e ms n more save).2)

variable {codec : Codec} {config : Config} {s : Site} {e e' : Engine}

theorem not_ingested_requests (e : Engine) (id : StreamId) (m : Message) :
    SiteOutput.ingested id m ∉ Site.requests e := by
  unfold Site.requests
  split <;> simp

/-! ### Still steps -/

theorem still_of_eq (s : Site) : Still s (s, []) :=
  ⟨rfl, rfl, by simp, fun f hf => Or.inr (Or.inl ⟨f, hf, rfl⟩), fun _ _ => Or.inl rfl⟩

theorem still_proceed (he : s.engine = some e)
    (hcur : e'.cursors.pullCursor = e.cursors.pullCursor) (hphase : e'.NotIngesting) :
    Still s (s.proceed e') := by
  refine ⟨rfl, rfl, not_ingested_requests e', fun f hf => Or.inr (Or.inl ⟨f, hf, rfl⟩), ?_⟩
  intro e'' he''
  obtain rfl : e' = e'' := Option.some.inj he''
  exact Or.inr ⟨hphase, Or.inr (Or.inr ⟨e, he, hcur.symm⟩)⟩

theorem still_persist (he : s.engine = some e)
    (hcur : e'.cursors.pullCursor = e.cursors.pullCursor) (hphase : e'.NotIngesting)
    (save : SaveResult) : Still s (s.persist e' save) := by
  have hcursor : s.HasPullCursor e'.cursors.pullCursor := Or.inr (Or.inr ⟨e, he, hcur.symm⟩)
  refine ⟨rfl, rfl, not_ingested_requests e', ?_, ?_⟩
  · intro f hf
    simp only [Site.persist, SaveResult.file] at hf
    split at hf
    · exact Or.inr (Or.inl ⟨f, hf, rfl⟩)
    · obtain rfl := Option.some.inj hf
      exact hcursor
  · intro e'' he''
    obtain rfl : e' = e'' := Option.some.inj he''
    exact Or.inr ⟨hphase, hcursor⟩

theorem still_fail (he : s.engine = some e) : Still s (s.fail e) := by
  refine ⟨rfl, rfl, by simp [Site.fail], fun f hf => Or.inr (Or.inl ⟨f, hf, rfl⟩), ?_⟩
  intro e'' he''
  obtain rfl := Option.some.inj he''
  exact Or.inr ⟨by simp [Engine.NotIngesting], Or.inr (Or.inr ⟨e, he, rfl⟩)⟩

/-- An answer noted in front of the outputs does not matter. -/
theorem Still.cons {r : Site × List SiteOutput} (h : Still s r) {batch : List (StreamId × Message)}
    {body : Value} : Still s (r.1, .acknowledged batch body :: r.2) := by
  refine ⟨h.stream, h.ingested, ?_, h.file, h.engine⟩
  intro id m hmem
  rcases List.mem_cons.1 hmem with hmem | hmem
  · cases hmem
  · exact h.outs id m hmem

theorem flush_pullCursor (e : Engine) (chunks : Nat) (fullChunk : Bool) :
    (e.flush chunks fullChunk).cursors.pullCursor = e.cursors.pullCursor := by
  rw [Engine.flush]
  split <;> rfl

theorem flush_notIngesting (e : Engine) (chunks : Nat) (fullChunk : Bool) :
    (e.flush chunks fullChunk).NotIngesting := by
  intro ms n more
  rw [Engine.flush, Engine.afterChunk]
  split
  · split <;> simp
  · simp

theorem still_flush (he : s.engine = some e)
    (hcur : e'.cursors.pullCursor = e.cursors.pullCursor) (chunks : Nat) (fullChunk : Bool)
    (save : SaveResult) : Still s (s.flush e' chunks fullChunk save) := by
  have hflush := (flush_pullCursor e' chunks fullChunk).trans hcur
  rw [Site.flush]
  split
  · exact still_persist he hflush (flush_notIngesting e' chunks fullChunk) save
  · exact still_proceed he hflush (flush_notIngesting e' chunks fullChunk)

theorem still_readChunk (he : s.engine = some e) (chunks : Nat) (save : SaveResult) :
    Still s (s.readChunk codec e chunks save) := by
  rw [Site.readChunk]
  refine still_flush he ?_ _ _ _
  split
  · rfl
  · rw [Engine.enqueue]
    split <;> rfl

theorem recordRejections_pullCursor {sent : List (StreamId × Message)} {ids : List String}
    {next next' : SyncCursors} (h : ids.foldlM (Engine.recordRejection sent) next = some next') :
    next'.pullCursor = next.pullCursor := by
  induction ids generalizing next with
  | nil =>
    obtain rfl : next = next' := Option.some.inj h
    rfl
  | cons id ids ih =>
    rw [List.foldlM_cons, Option.bind_eq_bind, Option.bind_eq_some_iff] at h
    obtain ⟨mid, hmid, hrest⟩ := h
    rw [ih hrest]
    simp only [Engine.recordRejection, Option.bind_eq_bind, Option.bind_eq_some_iff] at hmid
    obtain ⟨_, -, _, -, hmid⟩ := hmid
    split at hmid
    · obtain rfl := Option.some.inj hmid
      rfl
    · simp only [Option.bind_eq_some_iff] at hmid
      obtain ⟨_, -, _, -, heq⟩ := hmid
      obtain rfl := Option.some.inj heq
      rfl

theorem acknowledge_pullCursor {outcome : PushOutcome} {next : SyncCursors}
    (h : e.acknowledge outcome = some next) : next.pullCursor = e.cursors.pullCursor := by
  simp only [Engine.acknowledge, Option.bind_eq_bind, Option.bind_eq_some_iff] at h
  obtain ⟨_, -, mid, hmid, heq⟩ := h
  obtain rfl := Option.some.inj heq
  show mid.pullCursor = e.cursors.pullCursor
  exact recordRejections_pullCursor hmid

theorem still_finishPush (he : s.engine = some e) (chunks : Nat) (fullChunk : Bool) (body : Value)
    (save : SaveResult) : Still s (s.finishPush e chunks fullChunk body save) := by
  rw [Site.finishPush]
  split
  case h_1 => exact still_fail he
  case h_2 outcome _ =>
    split
    case h_1 => exact (still_fail he).cons
    case h_2 next hnext =>
      have hcur := acknowledge_pullCursor hnext
      split
      · refine ⟨rfl, rfl, by simp, ?_, ?_⟩
        · intro f hf
          simp only [SaveResult.file] at hf
          split at hf
          · exact Or.inr (Or.inl ⟨f, hf, rfl⟩)
          · obtain rfl := Option.some.inj hf
            exact Or.inr (Or.inr ⟨e, he, hcur.symm⟩)
        · intro e'' he''
          obtain rfl := Option.some.inj he''
          exact Or.inr ⟨by simp [Engine.NotIngesting], Or.inr (Or.inr ⟨e, he, rfl⟩)⟩
      · exact (still_persist he ((flush_pullCursor _ _ _).trans hcur) (flush_notIngesting _ _ _)
          save).cons

theorem still_readPresence (he : s.engine = some e) (chunks : Nat) :
    Still s (s.readPresence e chunks) := by
  rw [Site.readPresence]
  split <;> exact still_proceed he rfl (by simp [Engine.NotIngesting])

theorem still_finishPresence (he : s.engine = some e) (chunks : Nat)
    (rows : List (Int × Hub.Presence)) (save : SaveResult) :
    Still s (s.finishPresence e chunks rows save) := by
  apply still_persist he
  · rfl
  · intro ms n more
    show (if _ then Phase.readingPresence (chunks - 1) else Phase.pulling) ≠ _
    split <;> simp

theorem still_start (save : SaveResult) : Still s (s.start config save) := by
  rw [Site.start]
  split
  case h_1 => exact still_of_eq s
  case h_2 c _ hfile =>
    refine ⟨rfl, rfl, by simp, fun f hf => Or.inr (Or.inl ⟨f, hf, rfl⟩), ?_⟩
    intro e' he'
    obtain rfl := Option.some.inj he'
    exact Or.inr ⟨by simp [Engine.NotIngesting, Engine.new], Or.inr (Or.inl ⟨c, hfile, rfl⟩)⟩
  case h_3 =>
    -- the first cursors pull from the beginning
    have hzero : (s.firstCursors config).pullCursor = 0 := by
      rw [Site.firstCursors]
      split <;> rfl
    have hfile : ∀ f, save.file none (s.firstCursors config) = some f →
        s.HasPullCursor f.pullCursor := by
      intro f hf
      rw [SaveResult.file] at hf
      split at hf
      · cases hf
      · obtain rfl := Option.some.inj hf
        exact Or.inl hzero
    split
    · refine ⟨rfl, rfl, by simp, hfile, ?_⟩
      intro e' he'
      obtain rfl := Option.some.inj he'
      exact Or.inr ⟨by simp [Engine.NotIngesting, Engine.new], Or.inl hzero⟩
    · exact ⟨rfl, rfl, by simp, hfile, fun _ _ => Or.inl rfl⟩

/-- Another table of presence events. -/
theorem still_presence (s : Site) (table : PresenceTable) :
    Still s ({ s with presence := table }, []) :=
  ⟨rfl, rfl, by simp, fun f hf => Or.inr (Or.inl ⟨f, hf, rfl⟩), fun _ _ => Or.inl rfl⟩

/-! ### Every step -/

theorem Site.stepStore_pull (he : s.engine = some e) (ok : Bool) (id : StreamId)
    (save : SaveResult) : PullStep s (.store ok id save) (s.stepStore codec e ok id save) := by
  rw [Site.stepStore]
  split
  case h_1 =>
    split
    · exact .still (still_readChunk he _ _)
    · exact .still (still_fail he)
  case h_2 =>
    split
    · exact .still (still_readPresence he _)
    · exact .still (still_fail he)
  case h_3 m ms n more hphase =>
    split
    case isTrue hok =>
      split
      case h_1 => exact .still (still_fail he)
      case h_2 s' outs hi =>
        rw [hok]
        exact .ingest he hphase hi
    case isFalse => exact .still (still_fail he)
  case h_4 => exact .still (still_of_eq s)

theorem Site.stepCloud_pull (he : s.engine = some e) (body : Option Value) (save : SaveResult) :
    PullStep s (.cloud body save) (s.stepCloud e body save) := by
  unfold Site.stepCloud
  split
  case h_1 =>
    split
    · exact .still (still_finishPush he _ _ _ _)
    · exact .still (still_fail he)
  case h_2 =>
    split
    · exact .still (still_finishPresence he _ _ _)
    · exact .still (still_fail he)
  case h_3 hphase =>
    split
    · exact .page he hphase
    · exact .still (still_fail he)
  case h_4 => exact .still (still_of_eq s)

/-- **Every step is one of the five.** -/
theorem Site.step_pull (s : Site) (i : SiteInput) : PullStep s i (s.step codec config i) := by
  cases i with
  | append id fields =>
    simp only [Site.step]
    split
    case isTrue h => exact .append h
    case isFalse => exact .still (still_of_eq s)
  | allocate => exact .still (still_presence s _)
  | commit id presence =>
    simp only [Site.step]
    split
    · exact .still (still_presence s _)
    · exact .still (still_of_eq s)
  | rollback id => exact .still (still_presence s _)
  | expire key => exact .expire key
  | start save => exact .still (still_start save)
  | crash =>
    -- a crash loses the engine, not the file
    refine .still ⟨rfl, rfl, by simp [Site.step], fun f hf => Or.inr (Or.inl ⟨f, hf, rfl⟩), ?_⟩
    intro e he
    cases he
  | tick =>
    simp only [Site.step]
    split
    case h_1 e he =>
      split
      · exact .still (still_proceed he rfl (by simp [Engine.NotIngesting]))
      · exact .still (still_of_eq s)
    case h_2 => exact .still (still_of_eq s)
  | store ok id save =>
    simp only [Site.step]
    split
    case h_1 e he => exact Site.stepStore_pull he ok id save
    case h_2 => exact .still (still_of_eq s)
  | cloud body save =>
    simp only [Site.step]
    split
    case h_1 e he => exact Site.stepCloud_pull he body save
    case h_2 => exact .still (still_of_eq s)

/-! ### What follows for the stream, the page in hand and the cursors -/

/-- What an ingestion that did not fail did. -/
theorem Site.ingestMessage_cases {s s' : Site} {m : Message} {id : StreamId}
    {outs : List SiteOutput} (h : s.ingestMessage m id = some (s', outs)) :
    ∃ origin, m.originHub = some origin ∧ origin ≠ "" ∧ m.id ≠ "" ∧
      ((ingestSeenKey origin m.id ∈ s.ingested ∧ s' = s ∧ outs = []) ∨
        (ingestSeenKey origin m.id ∉ s.ingested ∧ outs = [.ingested id m] ∧
          s' = { s with
            ingested := s.ingested ++ [ingestSeenKey origin m.id]
            stream := s.stream ++ [⟨id, syncedFields m origin⟩] })) := by
  unfold Site.ingestMessage at h
  split at h
  case h_1 => cases h
  case h_2 origin hfilter =>
    obtain ⟨horigin, hne⟩ := Option.filter_eq_some_iff.1 hfilter
    split_ifs at h with hid hseen hlt
    · refine ⟨origin, horigin, by simpa using hne, by simpa using hid, Or.inl ?_⟩
      obtain ⟨rfl, rfl⟩ := Prod.mk.inj (Option.some.inj h)
      exact ⟨by simpa using hseen, rfl, rfl⟩
    · refine ⟨origin, horigin, by simpa using hne, by simpa using hid, Or.inr ?_⟩
      obtain ⟨rfl, rfl⟩ := Prod.mk.inj (Option.some.inj h)
      exact ⟨by simpa using hseen, rfl, rfl⟩

theorem ingestNext_stream (s : Site) (e : Engine) (ms : List Message) (n : Nat) (more : Bool)
    (save : SaveResult) :
    (s.ingestNext e ms n more save).1.stream = s.stream ∧
      (s.ingestNext e ms n more save).1.ingested = s.ingested ∧
      ∀ id m, SiteOutput.ingested id m ∉ (s.ingestNext e ms n more save).2 := by
  rw [Site.ingestNext]
  split
  · exact ⟨rfl, rfl, not_ingested_requests _⟩
  · exact ⟨rfl, rfl, by simp [Site.proceed, Site.requests]⟩

/-- The page in hand after going on with a page. -/
theorem ingestNext_ingesting {s : Site} {ms ms' : List Message} {n n' : Nat} {more more' : Bool}
    {save : SaveResult} (he : (s.ingestNext e ms n more save).1.engine = some e')
    (hphase : e'.phase = .ingesting ms' n' more') :
    ms' = ms ∧ n' = n ∧ more' = more ∧ e'.cursors = e.cursors := by
  rw [Site.ingestNext] at he
  split at he
  · obtain rfl := Option.some.inj he
    have habs : (if more then Phase.pulling else Phase.idle) = .ingesting ms' n' more' := hphase
    split at habs <;> cases habs
  · obtain rfl := Option.some.inj he
    cases hphase
    exact ⟨rfl, rfl, rfl, rfl⟩

/-- The cursors after going on with a page: those before, or the page is done with. -/
theorem ingestNext_cursor {s s₀ : Site} {ms : List Message} {n : Nat} {more : Bool}
    {save : SaveResult} (he : s₀.engine = some e) (hfile : s.file = s₀.file) {c : Nat}
    (hc : (s.ingestNext e ms n more save).1.HasPullCursor c) :
    s₀.HasPullCursor c ∨ (ms = [] ∧ c = max n e.cursors.pullCursor) := by
  rw [Site.ingestNext] at hc
  split at hc
  case isTrue hnil =>
    rcases hc with rfl | ⟨f, hf, rfl⟩ | ⟨e', he', rfl⟩
    · exact Or.inl (Or.inl rfl)
    · simp only [Site.persist, SaveResult.file] at hf
      split at hf
      · exact Or.inl (Or.inr (Or.inl ⟨f, hfile ▸ hf, rfl⟩))
      · obtain rfl := Option.some.inj hf
        exact Or.inr ⟨List.isEmpty_iff.1 hnil, rfl⟩
    · obtain rfl := Option.some.inj he'
      exact Or.inr ⟨List.isEmpty_iff.1 hnil, rfl⟩
  case isFalse =>
    left
    rcases hc with rfl | ⟨f, hf, rfl⟩ | ⟨e', he', rfl⟩
    · exact Or.inl rfl
    · exact Or.inr (Or.inl ⟨f, hfile ▸ hf, rfl⟩)
    · obtain rfl := Option.some.inj he'
      exact Or.inr (Or.inr ⟨e, he, rfl⟩)

/-- The stream only grows. -/
theorem Site.step_stream (s : Site) (i : SiteInput) :
    s.stream <+: (s.step codec config i).1.stream := by
  have h : PullStep s i (s.step codec config i) := Site.step_pull s i
  generalize s.step codec config i = r at h ⊢
  cases h with
  | append h => exact List.prefix_append _ _
  | expire key => exact List.prefix_rfl
  | still h => rw [h.stream]
  | page he hphase =>
    rw [Site.readPage, (ingestNext_stream _ _ _ _ _ _).1]
  | ingest he hphase hi =>
    simp only [(ingestNext_stream _ _ _ _ _ _).1]
    obtain ⟨_, -, -, -, ⟨-, rfl, -⟩ | ⟨-, -, rfl⟩⟩ := Site.ingestMessage_cases hi
    · exact List.prefix_rfl
    · exact List.prefix_append _ _

variable (codec) (config) in
/-- A message is ingested from the head of the page in hand, with its marker; the markers are otherwise
left alone, unless one expires. -/
theorem Site.step_ingested (s : Site) (i : SiteInput) :
    ((∀ id m, SiteOutput.ingested id m ∉ (s.step codec config i).2) ∧
        ((s.step codec config i).1.ingested = s.ingested ∨
          ∃ key, i = .expire key ∧
            (s.step codec config i).1.ingested = s.ingested.filter (· ≠ key))) ∨
      ∃ e id m ms n more origin outs, s.engine = some e ∧ e.phase = .ingesting (m :: ms) n more ∧
        m.originHub = some origin ∧ origin ≠ "" ∧ ingestSeenKey origin m.id ∉ s.ingested ∧
        (s.step codec config i).1.ingested = s.ingested ++ [ingestSeenKey origin m.id] ∧
        (s.step codec config i).1.stream = s.stream ++ [⟨id, syncedFields m origin⟩] ∧
        (s.step codec config i).2 = .ingested id m :: outs ∧
        ∀ id m, SiteOutput.ingested id m ∉ outs := by
  have h : PullStep s i (s.step codec config i) := Site.step_pull s i
  generalize s.step codec config i = r at h ⊢
  cases h with
  | append h => exact Or.inl ⟨by simp, Or.inl rfl⟩
  | expire key => exact Or.inl ⟨by simp, Or.inr ⟨key, rfl, rfl⟩⟩
  | still h => exact Or.inl ⟨h.outs, Or.inl h.ingested⟩
  | page he hphase =>
    left
    rw [Site.readPage]
    obtain ⟨-, hingested, houts⟩ := ingestNext_stream s _ _ _ _ _
    exact ⟨houts, Or.inl hingested⟩
  -- either the marker was there, or this step sets it with the entry
  | @ingest e m ms n more id save s' outs he hphase hi =>
    obtain ⟨hstream, hingested, houts⟩ := ingestNext_stream s' e ms n more save
    obtain ⟨origin, horigin, hne, -, ⟨-, rfl, rfl⟩ | ⟨hseen, rfl, rfl⟩⟩ :=
      Site.ingestMessage_cases hi
    · exact Or.inl ⟨houts, Or.inl hingested⟩
    · right
      exact ⟨e, id, m, ms, n, more, origin, _, he, hphase, horigin, hne, hseen, hingested, hstream,
        rfl, houts⟩

/-- The page in hand is the one before, the rest of it, or one that was just read. -/
theorem Site.step_ingesting {i : SiteInput} {ms : List Message} {n : Nat} {more : Bool}
    (he' : (s.step codec config i).1.engine = some e') (hphase' : e'.phase = .ingesting ms n more) :
    s.engine = some e' ∨
      (∃ e m, s.engine = some e ∧ e.phase = .ingesting (m :: ms) n more ∧ e'.cursors = e.cursors ∧
        ∃ origin, m.originHub = some origin ∧
          ingestSeenKey origin m.id ∈ (s.step codec config i).1.ingested) ∨
      ∃ e body save, i = .cloud (some body) save ∧ s.engine = some e ∧ e.phase = .pulling ∧
        e'.cursors = e.cursors ∧ n = (pullPage body e.cursors.pullCursor).nextCursor ∧
        ms = (pullPage body e.cursors.pullCursor).messages.filter fun m =>
          m.originHub.any fun origin => origin ≠ e.hub := by
  have h : PullStep s i (s.step codec config i) := Site.step_pull s i
  generalize s.step codec config i = r at h he' ⊢
  cases h with
  | append h => exact Or.inl he'
  | expire key => exact Or.inl he'
  | still h =>
    rcases h.engine e' he' with heq | ⟨habs, -⟩
    · exact Or.inl (heq ▸ he')
    · exact absurd hphase' (habs ms n more)
  | page he hphase =>
    -- a page in hand is the one before, shorter by its head, or just read
    right
    right
    obtain ⟨rfl, rfl, -, hcur⟩ := ingestNext_ingesting he' hphase'
    exact ⟨_, _, _, rfl, he, hphase, hcur, rfl, rfl⟩
  | @ingest e m ms' n' more' id save s' outs he hphase hi =>
    right
    left
    obtain ⟨rfl, rfl, rfl, hcur⟩ := ingestNext_ingesting he' hphase'
    refine ⟨e, m, he, hphase, hcur, ?_⟩
    simp only [(ingestNext_stream _ _ _ _ _ _).2.1]
    obtain ⟨origin, horigin, -, -, ⟨hseen, rfl, -⟩ | ⟨-, -, rfl⟩⟩ := Site.ingestMessage_cases hi
    · exact ⟨origin, horigin, hseen⟩
    · exact ⟨origin, horigin, List.mem_append_right _ List.mem_cons_self⟩

/-- A cursor is one from before, or that of a page that is done with: of one whose last message was
ingested, or of one that was read and has nothing to ingest. -/
theorem Site.step_cursor {i : SiteInput} {c : Nat}
    (hc : (s.step codec config i).1.HasPullCursor c) :
    s.HasPullCursor c ∨
      (∃ e m n more, s.engine = some e ∧ e.phase = .ingesting [m] n more ∧
        c = max n e.cursors.pullCursor ∧ ∃ origin, m.originHub = some origin ∧
          ingestSeenKey origin m.id ∈ (s.step codec config i).1.ingested) ∨
      ∃ e body save, i = .cloud (some body) save ∧ s.engine = some e ∧ e.phase = .pulling ∧
        c = max (pullPage body e.cursors.pullCursor).nextCursor e.cursors.pullCursor ∧
        ((pullPage body e.cursors.pullCursor).messages.filter fun m =>
          m.originHub.any fun origin => origin ≠ e.hub) = [] := by
  have h : PullStep s i (s.step codec config i) := Site.step_pull s i
  generalize s.step codec config i = r at h hc ⊢
  cases h with
  | append h => exact Or.inl hc
  | expire key => exact Or.inl hc
  | still h =>
    left
    -- the cursor was zero, in the file, or in the engine
    rcases hc with rfl | ⟨f, hf, rfl⟩ | ⟨e, he, rfl⟩
    · exact Or.inl rfl
    · exact h.file f hf
    · rcases h.engine e he with heq | ⟨-, hcur⟩
      · exact Or.inr (Or.inr ⟨e, heq ▸ he, rfl⟩)
      · exact hcur
  | page he hphase =>
    rcases ingestNext_cursor he rfl hc with hc | ⟨hnil, rfl⟩
    · exact Or.inl hc
    · exact Or.inr (Or.inr ⟨_, _, _, rfl, he, hphase, rfl, hnil⟩)
  | @ingest e m ms n more id save s' outs he hphase hi =>
    obtain ⟨origin, horigin, -, -, hcases⟩ := Site.ingestMessage_cases hi
    -- an ingestion does not touch the file
    have hfile : s'.file = s.file := by
      rcases hcases with ⟨-, rfl, -⟩ | ⟨-, -, rfl⟩ <;> rfl
    rcases ingestNext_cursor he hfile hc with hc | ⟨rfl, rfl⟩
    · exact Or.inl hc
    · right
      left
      refine ⟨e, m, n, more, he, hphase, rfl, origin, horigin, ?_⟩
      simp only [(ingestNext_stream _ _ _ _ _ _).2.1]
      rcases hcases with ⟨hseen, rfl, -⟩ | ⟨-, -, rfl⟩
      · exact hseen
      · exact List.mem_append_right _ List.mem_cons_self

/-! ### Requests -/

/-- The outputs that are sent to the cloud. -/
def SiteOutput.isRequest : SiteOutput → Bool
  | .push _ | .pushPresence _ | .pull _ => true
  | _ => false

/-- The requests of a step are those of the call its engine goes on to; a step without an engine, or
with the engine as it was, makes none. -/
def Asks (s : Site) (r : Site × List SiteOutput) : Prop :=
  (r.2.filter SiteOutput.isRequest = [] ∧ (r.1.engine = none ∨ r.1.engine = s.engine)) ∨
    ∃ e, r.1.engine = some e ∧ r.2.filter SiteOutput.isRequest = Site.requests e

theorem filter_requests (e : Engine) :
    (Site.requests e).filter SiteOutput.isRequest = Site.requests e := by
  unfold Site.requests
  split <;> rfl

theorem asks_of_eq (s : Site) : Asks s (s, []) := Or.inl ⟨rfl, Or.inr rfl⟩

theorem asks_proceed (s s' : Site) (e : Engine) : Asks s (s'.proceed e) :=
  Or.inr ⟨e, rfl, filter_requests e⟩

theorem asks_persist (s s' : Site) (e : Engine) (save : SaveResult) : Asks s (s'.persist e save) :=
  Or.inr ⟨e, rfl, filter_requests e⟩

theorem asks_fail (s : Site) (e : Engine) : Asks s (s.fail e) := Or.inr ⟨_, rfl, rfl⟩

/-- Outputs in front that are no requests do not matter. -/
theorem Asks.append {r : Site × List SiteOutput} (h : Asks s r) {outs : List SiteOutput}
    (houts : outs.filter SiteOutput.isRequest = []) : Asks s (r.1, outs ++ r.2) := by
  rw [Asks, List.filter_append, houts, List.nil_append]
  exact h

theorem asks_flush (s : Site) (e : Engine) (chunks : Nat) (fullChunk : Bool) (save : SaveResult) :
    Asks s (s.flush e chunks fullChunk save) := by
  rw [Site.flush]
  split
  · exact asks_persist s s _ save
  · exact asks_proceed s s _

theorem asks_finishPush (s : Site) (e : Engine) (chunks : Nat) (fullChunk : Bool) (body : Value)
    (save : SaveResult) : Asks s (s.finishPush e chunks fullChunk body save) := by
  rw [Site.finishPush]
  split
  case h_1 => exact asks_fail s e
  case h_2 =>
    split
    case h_1 => exact Or.inr ⟨_, rfl, rfl⟩
    case h_2 =>
      split
      · exact Or.inr ⟨_, rfl, rfl⟩
      · exact Or.inr ⟨_, rfl, filter_requests _⟩

theorem asks_ingestNext (s s' : Site) (e : Engine) (messages : List Message) (nextCursor : Nat)
    (hasMore : Bool) (save : SaveResult) :
    Asks s (s'.ingestNext e messages nextCursor hasMore save) := by
  rw [Site.ingestNext]
  split
  · exact asks_persist s s' _ save
  · exact asks_proceed s s' _

theorem Site.ingestMessage_outs {s s' : Site} {m : Message} {id : StreamId}
    {outs : List SiteOutput} (h : s.ingestMessage m id = some (s', outs)) :
    outs.filter SiteOutput.isRequest = [] := by
  unfold Site.ingestMessage at h
  split at h
  case h_1 => cases h
  case h_2 =>
    split_ifs at h
    all_goals
      obtain ⟨-, rfl⟩ := Prod.mk.inj (Option.some.inj h)
      rfl

theorem Site.stepStore_asks (s : Site) (e : Engine) (ok : Bool) (id : StreamId)
    (save : SaveResult) : Asks s (s.stepStore codec e ok id save) := by
  rw [Site.stepStore]
  split
  case h_1 =>
    split
    · exact asks_flush s _ _ _ save
    · exact asks_fail s e
  case h_2 =>
    split
    · rw [Site.readPresence]
      split <;> exact asks_proceed s s _
    · exact asks_fail s e
  case h_3 =>
    split
    · split
      case h_1 => exact asks_fail s e
      case h_2 s' outs hi =>
        exact (asks_ingestNext s s' e _ _ _ save).append (Site.ingestMessage_outs hi)
    · exact asks_fail s e
  case h_4 => exact asks_of_eq s

theorem Site.stepCloud_asks (s : Site) (e : Engine) (body : Option Value) (save : SaveResult) :
    Asks s (s.stepCloud e body save) := by
  unfold Site.stepCloud
  split
  case h_1 =>
    split
    · exact asks_finishPush s e _ _ _ save
    · exact asks_fail s e
  case h_2 =>
    split
    · exact asks_persist s s _ save
    · exact asks_fail s e
  case h_3 =>
    split
    · exact asks_ingestNext s s e _ _ _ save
    · exact asks_fail s e
  case h_4 => exact asks_of_eq s

/-- **The requests of a step are those of its engine's next call.** -/
theorem Site.step_requests (s : Site) (i : SiteInput) : Asks s (s.step codec config i) := by
  cases i with
  | append id fields =>
    simp only [Site.step]
    split
    · exact Or.inl ⟨rfl, Or.inr rfl⟩
    · exact asks_of_eq s
  | allocate => exact Or.inl ⟨rfl, Or.inr rfl⟩
  | commit id presence =>
    simp only [Site.step]
    split
    · exact Or.inl ⟨rfl, Or.inr rfl⟩
    · exact asks_of_eq s
  | rollback id => exact Or.inl ⟨rfl, Or.inr rfl⟩
  | expire key => exact Or.inl ⟨rfl, Or.inr rfl⟩
  -- a start makes an engine that has asked for nothing
  | start save =>
    simp only [Site.step, Site.start]
    split
    case h_1 => exact asks_of_eq s
    case h_2 => exact Or.inr ⟨_, rfl, rfl⟩
    case h_3 =>
      split
      · exact Or.inr ⟨_, rfl, rfl⟩
      · exact Or.inl ⟨rfl, Or.inr rfl⟩
  | crash => exact Or.inl ⟨rfl, Or.inl rfl⟩
  | tick =>
    simp only [Site.step]
    split
    case h_1 =>
      split
      · exact asks_proceed s s _
      · exact asks_of_eq s
    case h_2 => exact asks_of_eq s
  | store ok id save =>
    simp only [Site.step]
    split
    case h_1 e _ => exact Site.stepStore_asks s e ok id save
    case h_2 => exact asks_of_eq s
  | cloud body save =>
    simp only [Site.step]
    split
    case h_1 e _ => exact Site.stepCloud_asks s e body save
    case h_2 => exact asks_of_eq s

/-- A batch that is sent is from the outbox. -/
theorem Site.step_push {i : SiteInput} {batch : List (StreamId × Message)}
    (h : SiteOutput.push batch ∈ (s.step codec config i).2) :
    ∃ e, (s.step codec config i).1.engine = some e ∧ batch ⊆ e.outbox := by
  have hmem := List.mem_filter.2 ⟨h, (rfl : (SiteOutput.push batch).isRequest = true)⟩
  have hasks : Asks s (s.step codec config i) := Site.step_requests s i
  rcases hasks with ⟨hnil, -⟩ | ⟨e, he, hrequests⟩
  · rw [hnil] at hmem
    cases hmem
  · refine ⟨e, he, ?_⟩
    rw [hrequests] at hmem
    unfold Site.requests at hmem
    split at hmem
    · cases List.mem_singleton.1 hmem
      exact List.take_subset _ _
    · cases List.mem_singleton.1 hmem
    · cases List.mem_singleton.1 hmem
    · cases hmem

end AgentHub.Sync
