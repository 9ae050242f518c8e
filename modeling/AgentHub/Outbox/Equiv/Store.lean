import AgentHub.Outbox.Store
import AgentHub.Outbox.Equiv.Client

/-!
# Every interleaving of processes on one path

A process that has passed the identity check under the lock of a file is the only one that can
change that file or move the path away from it (`ProcInv`).  So what is known of one journal with
one owner holds for every file here, and a retirement moves exactly the file that was inspected.

- `attempted_before_replay`: the transport is only called for a request with an attempt on file, and
  such a request is never dropped as expired or overtaken, nor retired.
- `scope_isolation`: a request only goes to the transport of the scope it was retained under, and
  leaves the active journal only settled, or expired and never attempted.
-/

namespace AgentHub.Outbox

/-! ### What a writer adds to a file -/

/-- What the records of a file say about its requests beyond the rules of `load`; the outputs tell
which answers the transport gave. -/
structure Logged (is : List StoreInput) (outs : List StoreOutput) (inode : Nat) (f : JournalFile) :
    Prop where
  file : ∃ d, FileInv d f
  used : ∀ r ∈ queuedRequests f.events, r.requestId ∈ Store.drawnIds is
  expired : ∀ id, .settled id .expired ∈ f.events → .attempted id ∉ f.events
  superseded : ∀ id, .settled id .superseded ∈ f.events → .attempted id ∈ f.events →
    ∃ o ∈ outs, o.inode = inode ∧ ∃ r, r.requestId = id ∧ o.output = .answered r (.ok .superseded)

theorem Store.drawnIds_append (a b : List StoreInput) :
    Store.drawnIds (a ++ b) = Store.drawnIds a ++ Store.drawnIds b := by
  simp [Store.drawnIds]

theorem Logged.mono {is : List StoreInput} {outs : List StoreOutput} {inode : Nat}
    {f f' : JournalFile} (h : Logged is outs inode f) (i : StoreInput) (more : List StoreOutput)
    (hfile : ∃ d, FileInv d f')
    (hevents : ∀ e ∈ f'.events, (∃ o d, e = .header o d) ∨ e ∈ f.events) :
    Logged (is ++ [i]) (outs ++ more) inode f' where
  file := hfile
  used := by
    intro r hr
    rw [Store.drawnIds_append, List.mem_append]
    -- a header retains no request
    rcases hevents _ (mem_queuedRequests.mp hr) with ⟨o, d, h'⟩ | h'
    · simp at h'
    · exact .inl (h.used r (mem_queuedRequests.mpr h'))
  expired := by
    intro id hs ha
    rcases hevents _ hs with ⟨o, d, h'⟩ | hs'
    · simp at h'
    rcases hevents _ ha with ⟨o, d, h'⟩ | ha'
    · simp at h'
    exact h.expired id hs' ha'
  superseded := by
    intro id hs ha
    rcases hevents _ hs with ⟨o, d, h'⟩ | hs'
    · simp at h'
    rcases hevents _ ha with ⟨o, d, h'⟩ | ha'
    · simp at h'
    -- the answer that superseded it is among the longer outputs
    obtain ⟨o, ho, hrest⟩ := h.superseded id hs' ha'
    exact ⟨o, List.mem_append_left _ ho, hrest⟩

/-- The records one step adds, seen from the log: a new request, the mark of a pending request, or
the settlement of one, which is only dropped while it has no mark. -/
theorem HandleInv.appended {d : String} {f f' : JournalFile} {hd hd' : Handle} {s : Loading}
    {call : Call} {outs : List Output} (h : HandleInv d f hd s)
    (hstep : Step hd f call hd' f' outs) :
    f'.events = f.events ∨ ∃ e, f'.events = f.events ++ [e] ∧
      ((∃ r, e = .queued r ∧ call.newId? = some r.requestId) ∨
        (∃ id, e = .attempted id ∧ id ∉ settledIds f.events) ∨
        ∃ id x, e = .settled id x ∧ (x = .expired → .attempted id ∉ f.events) ∧
          (x = .superseded → .attempted id ∉ f.events ∨
            ∃ fl r, r.requestId = id ∧ hd.phase = .answered fl r (.ok .superseded))) := by
  rcases hstep.events with hevents | ⟨e, j, hw, hclean, hevents⟩
  · exact .inl hevents
  · refine .inr ⟨e, hevents, ?_⟩
    have hstate := h.owned.loads.state
    have hfile := h.owned.events_of_clean hclean
    have hpending := h.owned.pending_eq
    have hattempted := h.owned.attempted_eq
    -- A pending request without a mark in memory has none on file.
    have unmarked : ∀ r ∈ hd.journal.pending, r.requestId ∉ hd.journal.attempted →
        .attempted r.requestId ∉ f.events := by
      intro r hr hnew hmark
      rw [hfile, ← mem_attemptedIds] at hmark
      rw [hattempted, hstate.attempted] at hnew
      rw [hpending] at hr
      exact hnew ⟨hmark, (hstate.mem_pending.mp hr).2⟩
    cases hw with
    | queued hcall hphase hprepare =>
      exact .inl ⟨_, rfl, (Writes.queued hcall hphase hprepare).newId?⟩
    | @expired fl r queue hphase hqueue hnew hexpires hnow =>
      have hr : r ∈ hd.journal.pending := (h.scanning hphase).1.subset (by simp [hqueue])
      exact .inr (.inr ⟨_, _, rfl, fun _ => unmarked r hr hnew, by simp⟩)
    | @overtaken fl r queue hphase hqueue hnew hoperation hnewer =>
      have hr : r ∈ hd.journal.pending := (h.scanning hphase).1.subset (by simp [hqueue])
      exact .inr (.inr ⟨_, _, rfl, by simp, fun _ => .inl (unmarked r hr hnew)⟩)
    | @attempted fl r queue hphase hqueue hnew =>
      have hr : r ∈ hd.journal.pending := (h.scanning hphase).1.subset (by simp [hqueue])
      refine .inr (.inl ⟨_, rfl, ?_⟩)
      rw [hfile]
      rw [hpending] at hr
      exact (hstate.mem_pending.mp hr).2
    | @answered fl r a x hphase hx =>
      refine .inr (.inr ⟨_, _, rfl, ?_, ?_⟩)
      · rintro rfl
        match a, hx with
        | .ok (.applied _), hx => simp [Answer.disposition] at hx
        | .ok .superseded, hx => simp [Answer.disposition] at hx
        | .ok .pending, hx => simp [Answer.disposition] at hx
        | .error .transport, hx => simp [Answer.disposition] at hx
        | .error .permanent, hx => simp [Answer.disposition] at hx
      · rintro rfl
        refine .inr ⟨fl, r, rfl, ?_⟩
        match a, hx, hphase with
        | .ok (.applied _), hx, _ => simp [Answer.disposition] at hx
        | .ok .superseded, _, hphase => exact hphase
        | .ok .pending, hx, _ => simp [Answer.disposition] at hx
        | .error .transport, hx, _ => simp [Answer.disposition] at hx
        | .error .permanent, hx, _ => simp [Answer.disposition] at hx

/-- One step of the owner keeps what is known of the file. -/
theorem Logged.step {is : List StoreInput} {outs : List StoreOutput} {inode : Nat} {d : String}
    {f f' : JournalFile} {hd hd' : Handle} {s s' : Loading} {call : Call} {more : List Output}
    (h : Logged is outs inode f) (hinv : HandleInv d f hd s) (hinv' : HandleInv d f' hd' s')
    (hstep : Step hd f call hd' f' more) {i : StoreInput} {more' : List StoreOutput}
    (hnew : ∀ id ∈ call.newId?, id ∈ Store.drawnIds [i])
    (hanswer : ∀ fl r a, hd.phase = .answered fl r a →
      ∃ o ∈ outs, o.inode = inode ∧ o.output = .answered r a) :
    Logged (is ++ [i]) (outs ++ more') inode f' := by
  -- one call appends at most one record
  rcases hinv.appended hstep with hevents | ⟨e, hevents, hcase⟩
  · exact h.mono i more' ⟨d, hinv'.owned.fileInv⟩ fun e he => .inr (hevents ▸ he)
  refine
    { file := ⟨d, hinv'.owned.fileInv⟩
      used := ?_
      expired := ?_
      superseded := ?_ }
  · intro r hr
    rw [Store.drawnIds_append, List.mem_append]
    rw [mem_queuedRequests, hevents, List.mem_append, List.mem_singleton] at hr
    rcases hr with hr | rfl
    · exact .inl (h.used r (mem_queuedRequests.mpr hr))
    · -- the record is a request under the identifier that was just drawn
      rcases hcase with ⟨r', hr', hid⟩ | ⟨id, he, -⟩ | ⟨id, x, he, -⟩
      · simp only [Event.queued.injEq] at hr'
        subst hr'
        exact .inr (hnew _ hid)
      · simp at he
      · simp at he
  · intro id hs ha
    rw [hevents, List.mem_append, List.mem_singleton] at hs ha
    rcases hcase with ⟨r', rfl, -⟩ | ⟨id', rfl, hunsettled⟩ | ⟨id', x, rfl, hx, -⟩
    · simp only [reduceCtorEq, or_false] at hs ha
      exact h.expired id hs ha
    · simp only [reduceCtorEq, or_false, Event.attempted.injEq] at hs ha
      rcases ha with ha | rfl
      · exact h.expired id hs ha
      · -- a request is marked only while it is not settled
        exact hunsettled (mem_settledIds.mpr ⟨_, hs⟩)
    · simp only [reduceCtorEq, or_false, Event.settled.injEq] at hs ha
      rcases hs with hs | ⟨rfl, rfl⟩
      · exact h.expired id hs ha
      · -- an expired settlement needs a request without the mark
        exact hx rfl ha
  · intro id hs ha
    rw [hevents, List.mem_append, List.mem_singleton] at hs ha
    have old : .settled id .superseded ∈ f.events → .attempted id ∈ f.events →
        ∃ o ∈ outs ++ more', o.inode = inode ∧
          ∃ r, r.requestId = id ∧ o.output = .answered r (.ok .superseded) := by
      intro hs ha
      obtain ⟨o, ho, hrest⟩ := h.superseded id hs ha
      exact ⟨o, List.mem_append_left _ ho, hrest⟩
    rcases hcase with ⟨r', rfl, -⟩ | ⟨id', rfl, hunsettled⟩ | ⟨id', x, rfl, -, hx⟩
    · simp only [reduceCtorEq, or_false] at hs ha
      exact old hs ha
    · simp only [reduceCtorEq, or_false, Event.attempted.injEq] at hs ha
      rcases ha with ha | rfl
      · exact old hs ha
      · exact absurd (mem_settledIds.mpr ⟨_, hs⟩) hunsettled
    · simp only [reduceCtorEq, or_false, Event.settled.injEq] at hs ha
      rcases hs with hs | ⟨rfl, rfl⟩
      · exact old hs ha
      · -- a superseded settlement is written for an answer of the hub
        rcases hx rfl with hnot | ⟨fl, r, hid, hphase⟩
        · exact absurd ha hnot
        · obtain ⟨o, ho, hinode, hout⟩ := hanswer fl r _ hphase
          exact ⟨o, List.mem_append_left _ ho, hinode, r, hid, hout⟩

/-! ### What a process knows at its stage -/

/-- The lock of the file the path names. -/
def Held (st : Store) (pid inode : Nat) : Prop := st.locks inode = some pid ∧ st.path = some inode

/-- Every request the records leave unsettled has expired and was never attempted. -/
def Lapsed (f : JournalFile) (nowMs : UInt64) : Prop :=
  ∀ r ∈ retained f.events, r.expiresMs ≠ 0 ∧ r.expiresMs ≤ nowMs ∧
    .attempted r.requestId ∉ f.events

/-- **The invariant of one process**: from the identity check on it holds the file the path names,
and what it has read of that file is still so. -/
def ProcInv (st : Store) (outs : List StoreOutput) (pid : Nat) (p : Proc) : Prop :=
  match p.stage with
  | .start | .opening _ | .opened _ _ => True
  | .locked _ inode => st.locks inode = some pid
  | .identified _ inode => Held st pid inode
  | .working inode hd _ _ =>
    Held st pid inode ∧ (∃ s, HandleInv p.scope (st.files inode) hd s) ∧
      ∀ fl r a, hd.phase = .answered fl r a →
        ∃ o ∈ outs, o.inode = inode ∧ o.output = .answered r a
  | .inspecting _ _ inode insp =>
    Held st pid inode ∧ (insp.destination = none ∨
      ∃ d s, LoadsTo d (st.files inode).events s ∧ insp = inspection s.journal (some d))
  | .retiring nowMs inode _ | .moving nowMs inode _ =>
    Held st pid inode ∧ Lapsed (st.files inode) nowMs

/-- A process keeps what it knows while nobody touches its file, its lock and its path. -/
theorem ProcInv.frame {st st' : Store} {outs : List StoreOutput} {pid : Nat} {p : Proc}
    (h : ProcInv st outs pid p) (more : List StoreOutput)
    (hlocks : ∀ i, st.locks i = some pid → st'.locks i = some pid)
    (hheld : ∀ i, Held st pid i → st'.path = some i ∧ st'.files i = st.files i) :
    ProcInv st' (outs ++ more) pid p := by
  -- what the process holds it still holds
  have held : ∀ i, Held st pid i → Held st' pid i := fun i hi =>
    ⟨hlocks i hi.1, (hheld i hi).1⟩
  unfold ProcInv at h ⊢
  cases hstage : p.stage with
  | start => trivial
  | opening purpose => trivial
  | opened purpose i => trivial
  | locked purpose i =>
    rw [hstage] at h
    exact hlocks i h
  | identified purpose i =>
    rw [hstage] at h
    exact held i h
  | working i hd enqueued nowMs =>
    rw [hstage] at h
    obtain ⟨hi, hinv, hanswer⟩ := h
    refine ⟨held i hi, ?_, ?_⟩
    · -- its file is as it was, so every fact about the file stays
      rw [(hheld i hi).2]
      exact hinv
    · intro fl r a hphase
      obtain ⟨o, ho, hrest⟩ := hanswer fl r a hphase
      exact ⟨o, List.mem_append_left _ ho, hrest⟩
  | inspecting policy nowMs i insp =>
    rw [hstage] at h
    obtain ⟨hi, hinsp⟩ := h
    refine ⟨held i hi, ?_⟩
    rw [(hheld i hi).2]
    exact hinsp
  | retiring nowMs i o =>
    rw [hstage] at h
    obtain ⟨hi, hlapsed⟩ := h
    refine ⟨held i hi, ?_⟩
    rw [(hheld i hi).2]
    exact hlapsed
  | moving nowMs i o =>
    rw [hstage] at h
    obtain ⟨hi, hlapsed⟩ := h
    refine ⟨held i hi, ?_⟩
    rw [(hheld i hi).2]
    exact hlapsed

/-! ### The invariant of the store -/

/-- What a call of the transport leaves on file: the request under a header of the caller's scope,
and its mark. -/
def Replayed (f : JournalFile) (scope : String) (r : ReplayRequest) : Prop :=
  .attempted r.requestId ∈ f.events ∧ .queued r ∈ f.events ∧
    ∃ originId rest, f.events = .header originId scope :: rest

theorem Replayed.mono {f f' : JournalFile} {scope : String} {r : ReplayRequest}
    (h : Replayed f scope r) (hgrows : f.events <+: f'.events) : Replayed f' scope r := by
  obtain ⟨hmark, hqueued, o, rest, hheader⟩ := h
  refine ⟨hgrows.subset hmark, hgrows.subset hqueued, ?_⟩
  obtain ⟨more, hmore⟩ := hgrows
  exact ⟨o, rest ++ more, by rw [← hmore, hheader, List.cons_append]⟩

/-- **The invariant of all processes on the path.** -/
structure StoreInv (is : List StoreInput) (st : Store) (outs : List StoreOutput) : Prop where
  procs : ∀ pid p, st.procs pid = some p → ProcInv st outs pid p
  logged : ∀ i, Logged is outs i (st.files i)
  path_lt : ∀ i, st.path = some i → i < st.inodes
  unborn : ∀ i, st.inodes ≤ i → st.files i = {}
  placed : ∀ i, i < st.inodes → st.path = some i ∨ ∃ a ∈ st.archives, a.inode = i
  archived : ∀ a ∈ st.archives, a.inode < st.inodes ∧ st.path ≠ some a.inode ∧
    Lapsed (st.files a.inode) a.nowMs
  replayed : ∀ o ∈ outs, ∀ r, o.output = .replayed r → Replayed (st.files o.inode) o.scope r

/-- While the transport is called, the request and its mark are on file. -/
theorem HandleInv.replayed {d : String} {f : JournalFile} {hd : Handle} {s : Loading}
    (h : HandleInv d f hd s) {fl : Flush} {r : ReplayRequest} (hphase : hd.phase = .calling fl r) :
    Replayed f d r := by
  have hdurable : ∀ e, e ∈ f.durable → e ∈ f.events := fun e he => List.mem_append_left _ he
  obtain ⟨-, hmarked, -⟩ := h.calling hphase
  obtain ⟨-, hqueued, -⟩ := h.calling_ordered hphase
  rw [h.owned.attempted_eq, h.owned.loads.state.attempted, mem_attemptedIds] at hmarked
  obtain ⟨o, rest, hheader⟩ := h.owned.loads.header
  exact ⟨hdurable _ hmarked.1, hdurable _ (mem_queuedRequests.mp hqueued), o, rest ++ f.unsynced,
    by rw [JournalFile.events, hheader, List.cons_append]⟩

theorem Step.events_grow {hd hd' : Handle} {f f' : JournalFile} {call : Call} {outs : List Output}
    (h : Step hd f call hd' f' outs) : f.events <+: f'.events := by
  rcases h.events with hevents | ⟨e, -, -, -, hevents⟩
  · rw [hevents]
  · rw [hevents]
    exact List.prefix_append _ _

/-- No two processes hold the same file. -/
theorem Held.unique {st : Store} {pid q i : Nat} (h : Held st pid i) (hq : st.locks i = some q) :
    q = pid := by
  have := h.1
  rw [hq] at this
  simpa using this

namespace StoreInv

variable {is : List StoreInput} {st st' : Store} {outs : List StoreOutput} {pid : Nat}

theorem init : StoreInv [] {} [] where
  procs := by simp
  logged := fun _ =>
    { file := ⟨"", .inl rfl, by simp [JournalFile.len, JournalFile.events]⟩
      used := by simp [JournalFile.events]
      expired := by simp [JournalFile.events]
      superseded := by simp [JournalFile.events] }
  path_lt := by simp
  unborn := fun _ _ => rfl
  placed := by simp
  archived := by simp
  replayed := by simp

theorem logged_mono (h : StoreInv is st outs) (i : StoreInput) (more : List StoreOutput)
    (inode : Nat) : Logged (is ++ [i]) (outs ++ more) inode (st.files inode) :=
  (h.logged inode).mono i more (h.logged inode).file fun _ he => .inr he

/-- A step that leaves the files and the names alone. -/
theorem quiet (h : StoreInv is st outs) (i : StoreInput) (pid : Nat) (hfiles : st'.files = st.files)
    (hpath : st'.path = st.path) (hinodes : st'.inodes = st.inodes)
    (harchives : st'.archives = st.archives) (hprocs : ∀ q, q ≠ pid → st'.procs q = st.procs q)
    (hlocks : ∀ q, q ≠ pid → ∀ j, st.locks j = some q → st'.locks j = some q)
    (hself : ∀ p, st'.procs pid = some p → ProcInv st' outs pid p) :
    StoreInv (is ++ [i]) st' (outs ++ []) where
  procs := by
    intro q p hp
    by_cases hq : q = pid
    · subst hq
      rw [List.append_nil]
      exact hself p hp
    · rw [hprocs q hq] at hp
      refine (h.procs q p hp).frame [] (hlocks q hq) fun j hj => ?_
      rw [hpath, hfiles]
      exact ⟨hj.2, rfl⟩
  logged := by
    intro j
    rw [hfiles]
    exact h.logged_mono i [] j
  path_lt := by rw [hpath, hinodes]; exact h.path_lt
  unborn := by rw [hinodes, hfiles]; exact h.unborn
  placed := by rw [hpath, hinodes, harchives]; exact h.placed
  archived := by rw [hpath, hinodes, harchives, hfiles]; exact h.archived
  replayed := by rw [List.append_nil, hfiles]; exact h.replayed

/-- A process that returns drops its locks. -/
theorem finish (h : StoreInv is st outs) (i : StoreInput) (pid : Nat) :
    StoreInv (is ++ [i]) (st.finish pid) (outs ++ []) := by
  refine h.quiet i pid rfl rfl rfl rfl (fun q hq => ?_) (fun q hq j hj => ?_) (fun p hp => ?_)
  · exact Function.update_of_ne hq _ _
  · show (if st.locks j = some pid then none else st.locks j) = some q
    rw [if_neg (by rw [hj]; simpa using hq), hj]
  · simp [Store.finish] at hp

/-- A process that goes on with the same names, files and locks. -/
theorem goto (h : StoreInv is st outs) (i : StoreInput) {p : Proc} {stage : Stage}
    (hself : ProcInv (st.goto pid p stage) outs pid { p with stage }) :
    StoreInv (is ++ [i]) (st.goto pid p stage) (outs ++ []) := by
  refine h.quiet i pid rfl rfl rfl rfl (fun q hq => ?_) (fun q hq j hj => hj) (fun p' hp => ?_)
  · exact Function.update_of_ne hq _ _
  · simp only [Store.goto, Store.setProc, Function.update_self, Option.some.injEq] at hp
    subst hp
    exact hself

/-- A process that starts over without its locks. -/
theorem reopen (h : StoreInv is st outs) (i : StoreInput) (p : Proc) (purpose : Purpose) :
    StoreInv (is ++ [i]) ((st.release pid).goto pid p (.opening purpose)) (outs ++ []) := by
  refine h.quiet i pid rfl rfl rfl rfl (fun q hq => ?_) (fun q hq j hj => ?_) (fun p' hp => ?_)
  · exact Function.update_of_ne hq _ _
  · show (if st.locks j = some pid then none else st.locks j) = some q
    rw [if_neg (by rw [hj]; simpa using hq), hj]
  · simp only [Store.goto, Store.setProc, Function.update_self, Option.some.injEq] at hp
    subst hp
    trivial

/-- A step that extends the file its process holds. -/
theorem write (h : StoreInv is st outs) (i : StoreInput) {inode : Nat} {f : JournalFile}
    {more : List StoreOutput} (hheld : Held st pid inode)
    (hgrows : (st.files inode).events <+: f.events)
    (hlogged : Logged (is ++ [i]) (outs ++ more) inode f)
    (hfiles : st'.files = Function.update st.files inode f) (hpath : st'.path = st.path)
    (hinodes : st'.inodes = st.inodes) (harchives : st'.archives = st.archives)
    (hprocs : ∀ q, q ≠ pid → st'.procs q = st.procs q)
    (hlocks : ∀ q, q ≠ pid → ∀ j, st.locks j = some q → st'.locks j = some q)
    (hself : ∀ p, st'.procs pid = some p → ProcInv st' (outs ++ more) pid p)
    (hreplayed : ∀ o ∈ more, ∀ r, o.output = .replayed r →
      o.inode = inode ∧ Replayed f o.scope r) :
    StoreInv (is ++ [i]) st' (outs ++ more) := by
  have hself_file : st'.files inode = f := by rw [hfiles, Function.update_self]
  have hother : ∀ j, j ≠ inode → st'.files j = st.files j := fun j hj => by
    rw [hfiles, Function.update_of_ne hj]
  refine
    { procs := ?_
      logged := ?_
      path_lt := by rw [hpath, hinodes]; exact h.path_lt
      unborn := ?_
      placed := by rw [hpath, hinodes, harchives]; exact h.placed
      archived := ?_
      replayed := ?_ }
  · -- every other process holds another inode
    intro q p hp
    by_cases hq : q = pid
    · subst hq
      exact hself p hp
    · rw [hprocs q hq] at hp
      refine (h.procs q p hp).frame more (hlocks q hq) fun j hj => ?_
      have hne : j ≠ inode := by
        rintro rfl
        exact hq (hheld.unique hj.1)
      exact ⟨by rw [hpath]; exact hj.2, hother j hne⟩
  · intro j
    by_cases hj : j = inode
    · subst hj
      rw [hself_file]
      exact hlogged
    · rw [hother j hj]
      exact h.logged_mono i more j
  · intro j hj
    rw [hinodes] at hj
    have hlt := h.path_lt inode hheld.2
    rw [hother j (by omega)]
    exact h.unborn j hj
  · intro a ha
    rw [harchives] at ha
    -- an archive is never the active journal
    obtain ⟨hlt, hne, hlapsed⟩ := h.archived a ha
    have hne' : a.inode ≠ inode := fun heq => hne (by rw [heq]; exact hheld.2)
    rw [hinodes, hpath, hother _ hne']
    exact ⟨hlt, hne, hlapsed⟩
  · intro o ho r hr
    rcases List.mem_append.mp ho with ho | ho
    · by_cases hj : o.inode = inode
      · rw [hj, hself_file]
        -- what was replayed before is still in the longer file
        exact (hj ▸ h.replayed o ho r hr).mono hgrows
      · rw [hother _ hj]
        exact h.replayed o ho r hr
    · obtain ⟨hinode, hrep⟩ := hreplayed o ho r hr
      rw [hinode, hself_file]
      exact hrep

/-! ### The stages of a call -/

theorem begin (h : StoreInv is st outs) (i : StoreInput) (p : Proc) :
    StoreInv (is ++ [i]) (st.begin pid p) (outs ++ []) := by
  unfold Store.begin
  cases p.job with
  | submit operation surface arguments => exact h.goto i trivial
  | flushPending =>
    simp only
    split
    · exact h.finish i pid
    · exact h.goto i trivial
  | rotate nowMs =>
    simp only
    split
    · exact h.finish i pid
    · exact h.goto i trivial
  | status =>
    simp only
    split
    · exact h.finish i pid
    · exact h.goto i trivial

/-- A new file under the path. -/
theorem create (h : StoreInv is st outs) (i : StoreInput) (hpath : st.path = none) (p : Proc)
    (purpose : Purpose) :
    StoreInv (is ++ [i])
      (({ st with inodes := st.inodes + 1, path := some st.inodes } : Store).goto pid p
        (.opened purpose st.inodes)) (outs ++ []) where
  procs := by
    -- no path is set, so no process holds a journal yet
    intro q p' hp
    by_cases hq : q = pid
    · subst hq
      simp only [Store.goto, Store.setProc, Function.update_self, Option.some.injEq] at hp
      subst hp
      trivial
    · simp only [Store.goto, Store.setProc, Function.update_of_ne hq] at hp
      refine (h.procs q p' hp).frame [] (fun j hj => hj) fun j hj => ?_
      have := hj.2
      rw [hpath] at this
      simp at this
  logged := h.logged_mono i []
  path_lt := by
    intro j hj
    simp only [Store.goto, Store.setProc, Option.some.injEq] at hj
    show j < st.inodes + 1
    omega
  unborn := by
    intro j hj
    have hj' : st.inodes + 1 ≤ j := hj
    exact h.unborn j (by omega)
  placed := by
    intro j hj
    have hj' : j < st.inodes + 1 := hj
    -- the new inode is the one at the path
    by_cases heq : j = st.inodes
    · exact .inl (by rw [heq]; rfl)
    · rcases h.placed j (by omega) with hplace | hplace
      · rw [hpath] at hplace
        simp at hplace
      · exact .inr hplace
  archived := by
    intro a ha
    obtain ⟨hlt, -, hlapsed⟩ := h.archived a ha
    -- the archives are older than the new inode
    refine ⟨Nat.lt_succ_of_lt hlt, ?_, hlapsed⟩
    show some st.inodes ≠ some a.inode
    intro heq
    simp only [Option.some.injEq] at heq
    omega
  replayed := by
    rw [List.append_nil]
    exact h.replayed

theorem openFile (h : StoreInv is st outs) (i : StoreInput) (p : Proc) (purpose : Purpose) :
    StoreInv (is ++ [i]) (st.openFile pid p purpose) (outs ++ []) := by
  unfold Store.openFile
  cases hpath : st.path with
  | none => exact h.create i hpath p purpose
  | some inode => exact h.goto i trivial

theorem lockFile (h : StoreInv is st outs) (i : StoreInput) (p : Proc) (purpose : Purpose)
    (inode : Nat) (retry : Bool) :
    StoreInv (is ++ [i]) (st.lockFile pid p purpose inode retry) (outs ++ []) := by
  unfold Store.lockFile
  cases hlock : st.locks inode with
  | none =>
    refine h.quiet i pid rfl rfl rfl rfl (fun q hq => ?_) (fun q hq j hj => ?_) (fun p' hp => ?_)
    · exact Function.update_of_ne hq _ _
    · -- the inode was not locked, so no other process has it
      have hne : j ≠ inode := by
        rintro rfl
        rw [hlock] at hj
        simp at hj
      show Function.update st.locks inode (some pid) j = some q
      rw [Function.update_of_ne hne, hj]
    · simp only [Store.goto, Store.setProc, Function.update_self, Option.some.injEq] at hp
      subst hp
      show Function.update st.locks inode (some pid) inode = some pid
      rw [Function.update_self]
  | some q =>
    cases purpose with
    | bind again =>
      simp only
      -- only an opening call tries again when another process has the lock
      split
      · exact h.goto i trivial
      · exact h.finish i pid
    | retire policy nowMs => exact h.finish i pid
    | status => exact h.finish i pid

theorem identify (h : StoreInv is st outs) (i : StoreInput) (p : Proc) (purpose : Purpose)
    (inode : Nat) (hlock : st.locks inode = some pid) :
    StoreInv (is ++ [i]) (st.identify pid p purpose inode) (outs ++ []) := by
  unfold Store.identify
  split
  case isTrue hpath => exact h.goto i ⟨hlock, hpath⟩
  case isFalse => exact h.finish i pid

/-- What loading the file it holds gives a process. -/
theorem loaded (h : StoreInv is st outs) (i : StoreInput) (inode : Nat) (scope : String)
    {expected : Option String} (hexpected : ∀ x ∈ expected, x = scope) (o : Uuid)
    (io : AppendIo) :
    (st.files inode).events <+: (load (st.files inode) expected o io).2.events ∧
      Logged (is ++ [i]) (outs ++ []) inode (load (st.files inode) expected o io).2 ∧
      ∀ j b, (load (st.files inode) expected o io).1 = .ok (j, b) →
        (∀ x ∈ expected, ∃ s, Owned x (load (st.files inode) expected o io).2 j s) ∧
        (expected = none → b = none ∨ ∃ d s, b = some d ∧
          LoadsTo d (load (st.files inode) expected o io).2.events s ∧ j = s.journal) := by
  have hlogged := h.logged inode
  obtain ⟨d, hfile, hd⟩ : ∃ d, FileInv d (st.files inode) ∧
      ∀ x ∈ expected, (st.files inode).events = [] → x = d := by
    obtain ⟨d, hfile⟩ := hlogged.file
    -- an empty file takes the scope of the first process that binds it
    by_cases hnil : (st.files inode).events = []
    · exact ⟨scope, ⟨.inl hnil, hfile.len⟩, fun x hx _ => hexpected x hx⟩
    · exact ⟨d, hfile, fun x _ hn => absurd hn hnil⟩
  obtain ⟨hfile', -, hevents, hopen⟩ := load_opened hfile hd o io
  refine ⟨?_, ?_, ?_⟩
  · -- a load appends nothing, or a header to an empty file
    rcases hevents with hevents | ⟨hnil, hevents⟩
    · rw [hevents]
    · rw [hnil]
      exact List.nil_prefix
  · refine hlogged.mono i [] ⟨d, hfile'⟩ fun e he => ?_
    rcases hevents with hevents | ⟨hnil, hevents⟩
    · exact .inr (hevents ▸ he)
    · rw [hevents, List.mem_singleton] at he
      exact .inl ⟨o, d, he⟩
  · intro j b hj
    obtain ⟨howned, hinsp⟩ := hopen j b hj
    refine ⟨howned, fun hnone => ?_⟩
    rcases hinsp hnone with hb | ⟨s, hb, hloads, hjs⟩
    · exact .inl hb
    · exact .inr ⟨d, s, hb, hloads, hjs⟩

/-- The file was read, and the process returned, started over or went on with it. -/
theorem read (h : StoreInv is st outs) (i : StoreInput) {inode : Nat} {f : JournalFile}
    (hheld : Held st pid inode) (hgrows : (st.files inode).events <+: f.events)
    (hlogged : Logged (is ++ [i]) (outs ++ []) inode f) (p : Proc) :
    StoreInv (is ++ [i]) ((st.setFile inode f).finish pid) (outs ++ []) ∧
      (∀ purpose, StoreInv (is ++ [i])
        (((st.setFile inode f).release pid).goto pid p (.opening purpose)) (outs ++ [])) ∧
      ∀ stage, ProcInv ((st.setFile inode f).goto pid p stage) outs pid { p with stage } →
        StoreInv (is ++ [i]) ((st.setFile inode f).goto pid p stage) (outs ++ []) := by
  -- the release takes no lock of another process
  have hrelease : ∀ q, q ≠ pid → ∀ j, st.locks j = some q →
      (if st.locks j = some pid then none else st.locks j) = some q := by
    intro q hq j hj
    rw [if_neg (by rw [hj]; simpa using hq), hj]
  refine ⟨?_, fun purpose => ?_, fun stage hstage => ?_⟩
  · refine h.write i hheld hgrows hlogged rfl rfl rfl rfl
      (fun q hq => Function.update_of_ne hq _ _) hrelease (fun p' hp => ?_) (by simp)
    simp [Store.finish] at hp
  · refine h.write i hheld hgrows hlogged rfl rfl rfl rfl
      (fun q hq => Function.update_of_ne hq _ _) hrelease (fun p' hp => ?_) (by simp)
    simp only [Store.goto, Store.setProc, Function.update_self, Option.some.injEq] at hp
    subst hp
    trivial
  · refine h.write i hheld hgrows hlogged rfl rfl rfl rfl
      (fun q hq => Function.update_of_ne hq _ _) (fun q hq j hj => hj) (fun p' hp => ?_) (by simp)
    simp only [Store.goto, Store.setProc, Function.update_self, Option.some.injEq] at hp
    subst hp
    rw [List.append_nil]
    exact hstage

theorem loadFile (h : StoreInv is st outs) (i : StoreInput) (p : Proc) (purpose : Purpose)
    (inode : Nat) (env : Env) (hheld : Held st pid inode) :
    StoreInv (is ++ [i]) (st.loadFile pid p purpose inode env) (outs ++ []) := by
  have held : ∀ f stage, Held ((st.setFile inode f).goto pid p stage) pid inode :=
    fun f stage => hheld
  have hfile : ∀ f stage, ((st.setFile inode f).goto pid p stage).files inode = f := by
    intro f stage
    show Function.update st.files inode f inode = f
    rw [Function.update_self]
  unfold Store.loadFile
  cases purpose with
  | bind again =>
    have hscope : ∀ x ∈ some p.scope, x = p.scope := by simp
    obtain ⟨hgrows, hlogged, hopen⟩ := h.loaded i inode p.scope hscope env.originId env.io
    simp only
    revert hgrows hlogged hopen
    rcases load (st.files inode) (some p.scope) env.originId env.io with ⟨err | ⟨j, b⟩, f⟩
    · intro hgrows hlogged hopen
      obtain ⟨hdone, hagain, -⟩ := h.read i hheld hgrows hlogged p
      simp only
      -- a first bind that finds another scope goes on to retire the journal
      split
      · exact hagain _
      · exact hdone
    · intro hgrows hlogged hopen
      obtain ⟨s, hs⟩ := (hopen j b rfl).1 p.scope rfl
      refine (h.read i hheld hgrows hlogged p).2.2 _ ⟨held _ _, ?_, ?_⟩
      · rw [hfile]
        exact ⟨s, .idle hs⟩
      · intro fl r a hphase
        simp at hphase
  | retire policy nowMs =>
    have hscope : ∀ x ∈ (none : Option String), x = p.scope := by simp
    obtain ⟨hgrows, hlogged, hopen⟩ := h.loaded i inode p.scope hscope env.originId env.io
    simp only
    revert hgrows hlogged hopen
    rcases load (st.files inode) none env.originId env.io with ⟨err | ⟨j, b⟩, f⟩
    · intro hgrows hlogged hopen
      exact (h.read i hheld hgrows hlogged p).1
    · intro hgrows hlogged hopen
      refine (h.read i hheld hgrows hlogged p).2.2 _ ⟨held _ _, ?_⟩
      -- the file is bound to no scope, or to that of its header
      rcases (hopen j b rfl).2 rfl with rfl | ⟨d, s, rfl, hloads, rfl⟩
      · exact .inl rfl
      · rw [hfile]
        exact .inr ⟨d, s, hloads, rfl⟩
  | status =>
    have hscope : ∀ x ∈ (none : Option String), x = p.scope := by simp
    obtain ⟨hgrows, hlogged, -⟩ := h.loaded i inode p.scope hscope env.originId env.io
    exact (h.read i hheld hgrows hlogged p).1

theorem afterRetire (h : StoreInv is st outs) (i : StoreInput) (p : Proc) (rotated : Bool) :
    StoreInv (is ++ [i]) (st.afterRetire pid p rotated) (outs ++ []) := by
  unfold Store.afterRetire
  cases p.job with
  | submit operation surface arguments => exact h.reopen i p _
  | flushPending =>
    simp only
    split
    · exact h.finish i pid
    · exact h.reopen i p _
  | rotate nowMs => exact h.finish i pid
  | status => exact h.finish i pid

/-- The file a process inspected becomes an archive. -/
theorem archive (h : StoreInv is st outs) (i : StoreInput) {a : Archive}
    (hheld : Held st pid a.inode) (hlapsed : Lapsed (st.files a.inode) a.nowMs)
    (hfiles : st'.files = st.files) (hpath : st'.path = none) (hinodes : st'.inodes = st.inodes)
    (harchives : st'.archives = st.archives ++ [a])
    (hprocs : ∀ q, q ≠ pid → st'.procs q = st.procs q)
    (hlocks : ∀ q, q ≠ pid → ∀ j, st.locks j = some q → st'.locks j = some q)
    (hself : ∀ p, st'.procs pid = some p → ProcInv st' outs pid p) :
    StoreInv (is ++ [i]) st' (outs ++ []) where
  procs := by
    intro q p hp
    by_cases hq : q = pid
    · subst hq
      rw [List.append_nil]
      exact hself p hp
    · rw [hprocs q hq] at hp
      refine (h.procs q p hp).frame [] (hlocks q hq) fun j hj => ?_
      -- Another holder of the path's file would share the lock.
      have hsame : j = a.inode := by
        have := hj.2
        rw [hheld.2] at this
        simpa using this.symm
      subst hsame
      exact absurd (hheld.unique hj.1) hq
  logged := by
    intro j
    rw [hfiles]
    exact h.logged_mono i [] j
  path_lt := by simp [hpath]
  unborn := by rw [hinodes, hfiles]; exact h.unborn
  placed := by
    intro j hj
    rw [hinodes] at hj
    rw [harchives]
    rcases h.placed j hj with hplace | ⟨b, hb, hinode⟩
    · have hja : a.inode = j := by
        rw [hheld.2] at hplace
        simpa using hplace
      exact .inr ⟨a, by simp, hja⟩
    · exact .inr ⟨b, by simp [hb], hinode⟩
  archived := by
    intro b hb
    rw [hinodes, hpath, hfiles]
    rw [harchives, List.mem_append, List.mem_singleton] at hb
    rcases hb with hb | rfl
    · obtain ⟨hlt, -, hl⟩ := h.archived b hb
      exact ⟨hlt, by simp, hl⟩
    · exact ⟨h.path_lt _ hheld.2, by simp, hlapsed⟩
  replayed := by
    rw [List.append_nil, hfiles]
    exact h.replayed

theorem rename (h : StoreInv is st outs) (i : StoreInput) (p : Proc) {nowMs : UInt64}
    {inode : Nat} (originId : Uuid) (hheld : Held st pid inode)
    (hlapsed : Lapsed (st.files inode) nowMs) :
    StoreInv (is ++ [i]) (st.rename pid p nowMs originId) (outs ++ []) := by
  have hrelease : ∀ q, q ≠ pid → ∀ j, st.locks j = some q →
      (if st.locks j = some pid then none else st.locks j) = some q := by
    intro q hq j hj
    rw [if_neg (by rw [hj]; simpa using hq), hj]
  -- every job but a submission is done when the journal is retired
  have hdone : StoreInv (is ++ [i])
      ((st.archive { originId, inode, nowMs }).finish pid) (outs ++ []) := by
    refine h.archive i hheld hlapsed rfl rfl rfl rfl
      (fun q hq => Function.update_of_ne hq _ _) hrelease (fun p' hp => ?_)
    simp [Store.finish] at hp
  -- a submission opens a new journal
  have hagain : StoreInv (is ++ [i])
      (((st.archive { originId, inode, nowMs }).release pid).goto pid p (.opening (.bind true)))
      (outs ++ []) := by
    refine h.archive i hheld hlapsed rfl rfl rfl rfl
      (fun q hq => Function.update_of_ne hq _ _) hrelease (fun p' hp => ?_)
    simp only [Store.goto, Store.setProc, Function.update_self, Option.some.injEq] at hp
    subst hp
    trivial
  unfold Store.rename
  rw [hheld.2]
  simp only
  split
  · exact h.finish i pid
  · unfold Store.afterRetire
    cases p.job with
    | submit operation surface arguments => exact hagain
    | flushPending => exact hdone
    | rotate nowMs => exact hdone
    | status => exact hdone

/-- **Nothing blocking means nothing lost**: under either policy a journal without blocking
requests retains only requests that expired and were never attempted. -/
theorem lapsed_of_blocking {f : JournalFile} {d : String} {s : Loading} (hloads : LoadsTo d f.events s)
    {policy : RetirePolicy} {nowMs : UInt64}
    (hblocking : Store.blocking (inspection s.journal (some d)) policy nowMs = []) :
    Lapsed f nowMs := by
  have hstate := hloads.state
  intro r hr
  have hpending : r ∈ s.journal.pending := by
    rw [hstate.pending]
    exact hr
  unfold Store.blocking at hblocking
  have hnot := (List.filter_eq_nil_iff.mp hblocking) r hpending
  cases policy with
  | settledOnly => simp at hnot
  | expiredOnly =>
    simp only [Bool.not_eq_true, Bool.not_eq_false', JournalInspection.canRetireExpired, inspection,
      Bool.and_eq_true, decide_eq_true_eq, ne_eq] at hnot
    obtain ⟨⟨hexpires, hnow⟩, hunmarked⟩ := hnot
    refine ⟨hexpires, hnow, fun hmark => of_decide_eq_true hunmarked ?_⟩
    exact (hstate.attempted _).mpr
      ⟨mem_attemptedIds.mpr hmark, (hstate.mem_pending.mp hpending).2⟩

theorem decideRetire (h : StoreInv is st outs) (i : StoreInput) (p : Proc) {policy : RetirePolicy}
    {nowMs : UInt64} {inode : Nat} {insp : JournalInspection} (hheld : Held st pid inode)
    (hinsp : insp.destination = none ∨
      ∃ d s, LoadsTo d (st.files inode).events s ∧ insp = inspection s.journal (some d)) :
    StoreInv (is ++ [i]) (st.decideRetire pid p policy nowMs inode insp) (outs ++ []) := by
  unfold Store.decideRetire
  rcases hinsp with hnone | ⟨d, s, hloads, rfl⟩
  · rw [hnone]
    exact h.afterRetire i p false
  · show StoreInv (is ++ [i]) (if d = p.scope then st.afterRetire pid p false
      else if Store.blocking (inspection s.journal (some d)) policy nowMs ≠ [] then st.finish pid
      else if st.archives.any fun a => a.originId = s.journal.originId then st.finish pid
      else st.goto pid p (.retiring nowMs inode s.journal.originId)) (outs ++ [])
    by_cases hscope : d = p.scope
    · rw [if_pos hscope]
      exact h.afterRetire i p false
    · rw [if_neg hscope]
      by_cases hblocking : Store.blocking (inspection s.journal (some d)) policy nowMs ≠ []
      · rw [if_pos hblocking]
        exact h.finish i pid
      · rw [if_neg hblocking]
        split
        · exact h.finish i pid
        · exact h.goto i ⟨hheld, lapsed_of_blocking hloads (not_not.mp hblocking)⟩

/-- A step on the bound journal. -/
theorem work (h : StoreInv is st outs) {p : Proc} {inode : Nat} {hd : Handle} {enqueued : Bool}
    {nowMs : UInt64} {env : Env} (hheld : Held st pid inode)
    (hinv : ∃ s, HandleInv p.scope (st.files inode) hd s)
    (hanswer : ∀ fl r a, hd.phase = .answered fl r a →
      ∃ o ∈ outs, o.inode = inode ∧ o.output = .answered r a)
    (hfresh : env.requestId ∉ Store.drawnIds is) :
    StoreInv (is ++ [.proceed pid env]) (st.work pid p inode hd enqueued nowMs env).1
      (outs ++ (st.work pid p inode hd enqueued nowMs env).2) := by
  obtain ⟨s, hs⟩ := hinv
  simp only [Store.work]
  generalize hcall : Store.nextCall p.job hd.phase enqueued nowMs env
    (if st.path = some inode then env.io else .refused .custody) = call
  have hnew : ∀ id ∈ call.newId?, id = env.requestId := by
    intro id hid
    subst hcall
    -- only `enqueue` brings an identifier, and it is the one that was drawn
    unfold Store.nextCall at hid
    split at hid <;> simp_all [Call.newId?]
  have hstep := step_sound hd (st.files inode) call
  revert hstep
  generalize hd.step (st.files inode) call = result
  obtain ⟨hd', f', more⟩ := result
  intro hstep
  -- the identifier is in none of the requests of this file
  have hunused : ∀ id ∈ call.newId?, id ∉ s.allIds := by
    intro id hid hmem
    obtain ⟨r, hr, hrid⟩ := mem_requestIds.mp ((hs.owned.loads.state.allIds id).mp hmem)
    refine hfresh ?_
    rw [← hnew id hid, ← hrid]
    exact (h.logged inode).used r
      (mem_queuedRequests.mpr (List.mem_append_left _ (mem_queuedRequests.mp hr)))
  obtain ⟨⟨s', hs'⟩, -⟩ := hs.step hunused hstep
  have hlogged : Logged (is ++ [.proceed pid env])
      (outs ++ more.map fun output => { scope := p.scope, inode, output }) inode f' := by
    refine (h.logged inode).step hs hs' hstep (fun id hid => ?_) hanswer
    rw [hnew id hid]
    simp [Store.drawnIds]
  have hgrows : (st.files inode).events <+: f'.events := hstep.events_grow
  -- what is replayed is in the file when the call is made
  have hreplayed : ∀ o ∈ more.map fun output => ({ scope := p.scope, inode, output } : StoreOutput),
      ∀ r, o.output = .replayed r → o.inode = inode ∧ Replayed f' o.scope r := by
    intro o ho r hr
    obtain ⟨output, houtput, rfl⟩ := List.mem_map.mp ho
    simp only at hr
    subst hr
    obtain ⟨fl, hphase⟩ := hstep.calling_of_replayed houtput
    exact ⟨rfl, hs'.replayed hphase⟩
  by_cases hreturns : Store.returns more = true
  · rw [if_pos hreturns]
    refine h.write _ hheld hgrows hlogged rfl rfl rfl rfl
      (fun q hq => Function.update_of_ne hq _ _) (fun q hq j hj => ?_) (fun p' hp => ?_) hreplayed
    · show (if st.locks j = some pid then none else st.locks j) = some q
      rw [if_neg (by rw [hj]; simpa using hq), hj]
    · simp [Store.finish] at hp
  · rw [if_neg hreturns]
    refine h.write _ hheld hgrows hlogged rfl rfl rfl rfl
      (fun q hq => Function.update_of_ne hq _ _) (fun q hq j hj => hj) (fun p' hp => ?_) hreplayed
    simp only [Store.goto, Store.setProc, Function.update_self, Option.some.injEq] at hp
    subst hp
    refine ⟨hheld, ⟨s', ?_⟩, ?_⟩
    · show HandleInv p.scope (Function.update st.files inode f' inode) hd' s'
      rw [Function.update_self]
      exact hs'
    · intro fl r a hphase
      rcases hstep.answered_phase hphase with hout | hold
      · exact ⟨_, List.mem_append_right _ (List.mem_map_of_mem hout), rfl, rfl⟩
      · obtain ⟨o, ho, hrest⟩ := hanswer fl r a hold
        exact ⟨o, List.mem_append_left _ ho, hrest⟩

/-- **One step of any process keeps the invariant.** -/
theorem step (h : StoreInv is st outs) (i : StoreInput)
    (hids : (Store.drawnIds (is ++ [i])).Nodup) :
    StoreInv (is ++ [i]) (st.step i).1 (outs ++ (st.step i).2) := by
  cases i with
  | stop pid => exact h.finish _ pid
  | spawn pid scope job =>
    cases hproc : st.procs pid with
    | some p =>
      simp only [Store.step, hproc]
      exact h.quiet _ pid rfl rfl rfl rfl (fun _ _ => rfl) (fun _ _ _ hj => hj)
        fun p' hp => h.procs pid p' hp
    | none =>
      simp only [Store.step, hproc]
      have hgoto : StoreInv (is ++ [.spawn pid scope job])
          (st.goto pid ⟨scope, job, .start⟩ .start) (outs ++ []) := h.goto _ trivial
      exact hgoto
  | proceed pid env =>
    cases hproc : st.procs pid with
    | none =>
      simp only [Store.step, hproc]
      exact h.quiet _ pid rfl rfl rfl rfl (fun _ _ => rfl) (fun _ _ _ hj => hj)
        fun p' hp => h.procs pid p' hp
    | some p =>
      have hp := h.procs pid p hproc
      have hfresh : env.requestId ∉ Store.drawnIds is := by
        intro hmem
        rw [Store.drawnIds_append, List.nodup_append] at hids
        exact hids.2.2 _ hmem env.requestId (by simp [Store.drawnIds]) rfl
      unfold ProcInv at hp
      simp only [Store.step, hproc, Store.proceed]
      cases hstage : p.stage with
      | start => exact h.begin _ p
      | opening purpose => exact h.openFile _ p purpose
      | opened purpose inode => exact h.lockFile _ p purpose inode env.retry
      | locked purpose inode =>
        rw [hstage] at hp
        exact h.identify _ p purpose inode hp
      | identified purpose inode =>
        rw [hstage] at hp
        exact h.loadFile _ p purpose inode env hp
      | working inode hd enqueued nowMs =>
        rw [hstage] at hp
        exact h.work hp.1 hp.2.1 hp.2.2 hfresh
      | inspecting policy nowMs inode insp =>
        rw [hstage] at hp
        exact h.decideRetire _ p hp.1 hp.2
      | retiring nowMs inode originId =>
        rw [hstage] at hp
        simp only
        split
        · exact h.goto _ hp
        · exact h.finish _ pid
      | moving nowMs inode originId =>
        rw [hstage] at hp
        exact h.rename _ p originId hp.1 hp.2

end StoreInv

/-- The invariant holds after every run with distinct identifiers. -/
theorem storeInv_exec (is : List StoreInput) (hids : (Store.drawnIds is).Nodup) :
    StoreInv is (Store.machine.exec {} is).1 (Store.machine.exec {} is).2 := by
  have hrule := Store.machine.exec_induction (s := ({} : Store))
    (P := fun is st outs => (Store.drawnIds is).Nodup → StoreInv is st outs)
    (fun _ => StoreInv.init)
    (fun is st outs i ih hids => by
      have hpre : (Store.drawnIds is).Nodup := by
        rw [Store.drawnIds_append] at hids
        exact (List.nodup_append.mp hids).1
      exact (ih hpre).step i hids) is
  exact hrule hids

/-! ### Results -/

/-- **Attempts are marked ahead.**  In every run, while a process calls the transport for a request
the file holds an attempt of it.  A request that was ever handed to the transport is never settled
as expired, is settled as superseded only after the transport answered so, and whoever inspects the
file, at whatever time, finds that it cannot be retired. -/
theorem attempted_before_replay (is : List StoreInput) (hids : (Store.drawnIds is).Nodup) :
    (∀ pid p inode hd enqueued nowMs fl r, (Store.machine.exec {} is).1.procs pid = some p →
      p.stage = .working inode hd enqueued nowMs → hd.phase = .calling fl r →
      .attempted r.requestId ∈ ((Store.machine.exec {} is).1.files inode).events) ∧
    ∀ o ∈ (Store.machine.exec {} is).2, ∀ r, o.output = .replayed r →
      .attempted r.requestId ∈ ((Store.machine.exec {} is).1.files o.inode).events ∧
      .settled r.requestId .expired ∉ ((Store.machine.exec {} is).1.files o.inode).events ∧
      (.settled r.requestId .superseded ∈ ((Store.machine.exec {} is).1.files o.inode).events →
        ∃ o' ∈ (Store.machine.exec {} is).2, o'.inode = o.inode ∧
          ∃ r', r'.requestId = r.requestId ∧ o'.output = .answered r' (.ok .superseded)) ∧
      ∀ originId io j b,
        (load ((Store.machine.exec {} is).1.files o.inode) none originId io).1 = .ok (j, b) →
        ∀ q ∈ (inspection j b).pending, q.requestId = r.requestId →
          ∀ nowMs, (inspection j b).canRetireExpired q nowMs = false := by
  have h := storeInv_exec is hids
  generalize Store.machine.exec {} is = run at h ⊢
  obtain ⟨st, outs⟩ := run
  simp only at h ⊢
  refine ⟨?_, ?_⟩
  · intro pid p inode hd enqueued nowMs fl r hproc hstage hphase
    have hp := h.procs pid p hproc
    unfold ProcInv at hp
    rw [hstage] at hp
    obtain ⟨-, ⟨s, hs⟩, -⟩ := hp
    exact (hs.replayed hphase).1
  · intro o ho r hr
    obtain ⟨hmark, -, -⟩ := h.replayed o ho r hr
    have hlogged := h.logged o.inode
    refine ⟨hmark, fun hexpired => hlogged.expired _ hexpired hmark,
      fun hsup => hlogged.superseded _ hsup hmark, ?_⟩
    intro originId io j b hload q hq hid nowMs
    rcases load_cases (st.files o.inode) none originId io with
      ⟨err, f', h', -⟩ | ⟨d, s, h', -, hloads, -⟩ | ⟨-, -, -, h'⟩ | ⟨-, -, d, hd, -⟩
    · simp [h'] at hload
    · simp only [h', Except.ok.injEq, Prod.mk.injEq] at hload
      obtain ⟨rfl, rfl⟩ := hload
      have hstate := hloads.state
      have hunsettled := (hstate.mem_pending.mp hq).2
      have hmarked : q.requestId ∈ s.journal.attempted := by
        rw [hstate.attempted, hid, mem_attemptedIds]
        exact ⟨hmark, hid ▸ hunsettled⟩
      simp [JournalInspection.canRetireExpired, inspection, hmarked]
    · simp only [h', Except.ok.injEq, Prod.mk.injEq] at hload
      obtain ⟨rfl, rfl⟩ := hload
      simp [inspection, Loading.start] at hq
    · simp at hd

/-- One process that submits a message and calls the transport for it. -/
def firstSubmit : List StoreInput :=
  .spawn 0 "hub" (.submit .send .cli
    [("body", .str "x"), ("recipient", .str "b"), ("sender", .str "a"), ("topic", .str "t")]) ::
  (List.range 8).map fun n => .proceed 0 ⟨5, Uuid.ofNat 0, Uuid.ofNat n, .ok, .ok .pending, true⟩

/-- A request goes to the transport. -/
def Output.isReplay : Output → Bool
  | .replayed _ => true
  | _ => false

theorem firstSubmit_replays :
    ∃ o ∈ (Store.machine.exec {} firstSubmit).2, ∃ r, o.output = .replayed r := by
  have hcalled : ((Store.machine.exec {} firstSubmit).2.any fun o => o.output.isReplay) = true := by
    decide +kernel
  obtain ⟨o, ho, hout⟩ := List.any_eq_true.mp hcalled
  cases hcase : o.output with
  | replayed r => exact ⟨o, ho, r, hcase⟩
  | _ => simp [hcase, Output.isReplay] at hout

theorem attempted_before_replay_firstSubmit :
    ∃ o ∈ (Store.machine.exec {} firstSubmit).2, ∃ r, o.output = .replayed r ∧
      .attempted r.requestId ∈ ((Store.machine.exec {} firstSubmit).1.files o.inode).events := by
  obtain ⟨o, ho, r, hr⟩ := firstSubmit_replays
  exact ⟨o, ho, r, hr, ((attempted_before_replay firstSubmit (by decide)).2 o ho r hr).1⟩

/-- **Scope isolation.**  In every interleaving of calls under any scopes:

1. a request is only handed to the transport of a scope that heads the journal it was retained in;
2. every request left pending in a retired archive has an expiry, had expired at the time of the
   retirement, and was never attempted nor handed to a transport;
3. any other request ever retained is settled, or still pending in the active journal. -/
theorem scope_isolation (is : List StoreInput) (hids : (Store.drawnIds is).Nodup) :
    (∀ o ∈ (Store.machine.exec {} is).2, ∀ r, o.output = .replayed r →
      ∃ originId rest, ((Store.machine.exec {} is).1.files o.inode).events =
        .header originId o.scope :: rest ∧ .queued r ∈ rest) ∧
    (∀ a ∈ (Store.machine.exec {} is).1.archives,
      ∀ r ∈ retained ((Store.machine.exec {} is).1.files a.inode).events,
        r.expiresMs ≠ 0 ∧ r.expiresMs ≤ a.nowMs ∧
        .attempted r.requestId ∉ ((Store.machine.exec {} is).1.files a.inode).events ∧
        ∀ o ∈ (Store.machine.exec {} is).2, o.inode = a.inode →
          ∀ r', o.output = .replayed r' → r'.requestId ≠ r.requestId) ∧
    ∀ inode r, .queued r ∈ ((Store.machine.exec {} is).1.files inode).events →
      r.requestId ∈ settledIds ((Store.machine.exec {} is).1.files inode).events ∨
      r ∈ retained ((Store.machine.exec {} is).1.files inode).events ∧
        ((Store.machine.exec {} is).1.path = some inode ∨
          ∃ a ∈ (Store.machine.exec {} is).1.archives, a.inode = inode) := by
  have h := storeInv_exec is hids
  generalize Store.machine.exec {} is = run at h ⊢
  obtain ⟨st, outs⟩ := run
  simp only at h ⊢
  refine ⟨?_, ?_, ?_⟩
  · intro o ho r hr
    obtain ⟨-, hqueued, originId, rest, hheader⟩ := h.replayed o ho r hr
    refine ⟨originId, rest, hheader, ?_⟩
    rw [hheader] at hqueued
    simpa using hqueued
  · intro a ha r hr
    obtain ⟨-, -, hlapsed⟩ := h.archived a ha
    obtain ⟨hexpires, hnow, hunmarked⟩ := hlapsed r hr
    refine ⟨hexpires, hnow, hunmarked, ?_⟩
    intro o ho hinode r' hr' hid
    have hmark := (h.replayed o ho r' hr').1
    rw [hinode, hid] at hmark
    exact hunmarked hmark
  · intro inode r hr
    by_cases hsettled : r.requestId ∈ settledIds (st.files inode).events
    · exact .inl hsettled
    · refine .inr ⟨by simp [retained, mem_queuedRequests.mpr hr, hsettled], ?_⟩
      refine h.placed inode ?_
      by_contra hunborn
      rw [h.unborn inode (by omega)] at hr
      simp [JournalFile.events] at hr

/-- The steps of a process at a moment, with request identifiers of its own. -/
def stepsOf (pid n : Nat) (nowMs : UInt64) : List StoreInput :=
  (List.range n).map fun i =>
    .proceed pid ⟨nowMs, Uuid.ofNat pid, Uuid.ofNat (10 * pid + i), .ok, .ok .pending, true⟩

/-- A process stops when its presence is retained; when that has expired a process of another scope
retires the journal, and a third submits a message. -/
def twoScopes : List StoreInput :=
  .spawn 0 "hub-a" (.submit .presence .cli [("agent", .str "a"), ("status", .str "online")]) ::
    stepsOf 0 6 5 ++
  .stop 0 :: .spawn 1 "hub-b" (.rotate 200000) :: stepsOf 1 8 200000 ++
  .spawn 2 "hub-b" (.submit .send .cli
    [("body", .str "x"), ("recipient", .str "b"), ("sender", .str "a"), ("topic", .str "t")]) ::
    stepsOf 2 8 200001

theorem twoScopes_run :
    (((Store.machine.exec {} twoScopes).2.any fun o => o.scope = "hub-b" && o.output.isReplay) &&
      (Store.machine.exec {} twoScopes).1.archives.any fun a =>
        !(retained ((Store.machine.exec {} twoScopes).1.files a.inode).events).isEmpty) = true := by
  decide +kernel

theorem scope_isolation_twoScopes :
    (∃ o ∈ (Store.machine.exec {} twoScopes).2, o.scope = "hub-b" ∧ ∃ r, o.output = .replayed r ∧
      ∃ originId rest, ((Store.machine.exec {} twoScopes).1.files o.inode).events =
        .header originId o.scope :: rest ∧ .queued r ∈ rest) ∧
    ∃ a ∈ (Store.machine.exec {} twoScopes).1.archives,
      ∃ r ∈ retained ((Store.machine.exec {} twoScopes).1.files a.inode).events,
        r.expiresMs ≠ 0 ∧ r.expiresMs ≤ a.nowMs ∧
        .attempted r.requestId ∉ ((Store.machine.exec {} twoScopes).1.files a.inode).events := by
  have hisolated := scope_isolation twoScopes (by decide +kernel)
  obtain ⟨hcalled, hretired⟩ := Bool.and_eq_true_iff.1 twoScopes_run
  constructor
  · obtain ⟨o, ho, hout⟩ := List.any_eq_true.1 hcalled
    obtain ⟨hscope, hreplay⟩ := Bool.and_eq_true_iff.1 hout
    cases hcase : o.output with
    | replayed r => exact ⟨o, ho, of_decide_eq_true hscope, r, hcase, hisolated.1 o ho r hcase⟩
    | _ => simp [hcase, Output.isReplay] at hreplay
  · obtain ⟨a, ha, hleft⟩ := List.any_eq_true.1 hretired
    obtain ⟨r, hr⟩ := List.exists_mem_of_ne_nil _ (by simpa using hleft)
    obtain ⟨hexpires, hnow, hunmarked, -⟩ := hisolated.2.1 a ha r hr
    exact ⟨a, ha, r, hr, hexpires, hnow, hunmarked⟩

end AgentHub.Outbox
