import AgentHub.Cloud.ImportRun
import AgentHub.Json.Equiv.Document

/-!
# What the exit code of the importer says

A row behind the offset of the state file was answered, in this run or in an earlier one
(`Faithful.covered`); how, only the run that pushed it knows.  So a run that exits with 0 speaks of the
rows from its offset on: `exit_zero_iff`.  `rejected_then_zero` are two runs the second of which exits
with 0 over a row that was rejected.
-/

namespace AgentHub.Cloud

open AgentHub.Json Program

/-! ### Rules -/

section Rules

variable {refused : ImportStream → Nat → Bool} {α β : Type}

/-- From the world `w` the program leads to an end as `post` says, whatever surrounds its calls. -/
def Leads (refused : ImportStream → Nat → Bool) (p : ImportProgram α) (w : ImportWorld)
    (post : Except String α → ImportWorld → Prop) : Prop :=
  p.wp (@ImportCall.serve refused) "stopped" (fun _ _ _ => True) post w

theorem leads_bind {p : ImportProgram α} {f : α → ImportProgram β} {w : ImportWorld}
    {post : Except String β → ImportWorld → Prop} (mid : Except String α → ImportWorld → Prop)
    (hp : Leads refused p w mid) (hok : ∀ a t, mid (.ok a) t → Leads refused (f a) t post)
    (herror : ∀ e t, mid (.error e) t → post (.error e) t) : Leads refused (p >>= f) w post := by
  refine wp_bind _ _ _ (wp_mono _ _ _ ?_ hp)
  intro r t hmid
  cases r with
  | ok a => exact hok a t hmid
  | error e => exact herror e t hmid

theorem leads_check {result : Except String α} {post : Except String α → ImportWorld → Prop}
    {w : ImportWorld} (h : post result w) : Leads refused (check result) w post := by
  cases result with
  | ok a => exact h
  | error e => exact h

/-- A call, before or after which the run may be stopped. -/
theorem leads_call {c : ImportCall} {f : c.Reply → ImportProgram α} {w : ImportWorld}
    {post : Except String α → ImportWorld → Prop} (hbefore : post (.error "stopped") w)
    (hafter : ∀ moment : ImportMoment refused,
      post (.error "stopped") (c.effect moment w).1 ∧
        Leads refused (f (c.effect moment w).2) (c.effect moment w).1 post) :
    Leads refused (perform c >>= f) w post := by
  intro moment _
  obtain ⟨hstop, hgo⟩ := hafter moment
  unfold ImportCall.serve
  split
  · exact ⟨nofun, fun _ => hbefore⟩
  · dsimp only
    split
    · exact ⟨nofun, fun _ => hstop⟩
    · refine ⟨?_, nofun⟩
      intro r hr
      obtain rfl := Option.some.inj hr
      exact hgo

/-- What a run ends with. -/
theorem run_of_leads {p : ImportProgram α} {w : ImportWorld}
    (post : Except String α → ImportWorld → Prop) (h : Leads refused p w post)
    (run : ImportRun refused) :
    post (p.run ImportCall.serve "stopped" run w).2 (p.run ImportCall.serve "stopped" run w).1 := by
  have halong : ∀ (p : ImportProgram α) (run : ImportRun refused) (w : ImportWorld),
      p.Along ImportCall.serve (fun _ _ _ => True) run w := by
    intro p
    induction p with
    | done a => exact fun _ _ => trivial
    | fail e => exact fun _ _ => trivial
    | call c next ih => exact fun run w => ⟨trivial, fun r _ => ih r _ _⟩
  exact run_of_wp _ _ _ run h (halong p run w)

end Rules

/-! ### The world of the runs -/

/-- A row that was answered. -/
def ImportWorld.Answered (w : ImportWorld) (stream : ImportStream) (i : Nat) : Prop :=
  ∃ a, (stream, i, a) ∈ w.answered

/-- The rows behind the offsets were answered. -/
def Covers (state : Fields) (w : ImportWorld) : Prop :=
  ∀ stream i, i < offsetOf state stream → w.Answered stream i

/-- The state is that of the job. -/
def Bound (job : ImportJob) (state : Fields) : Prop :=
  Fields.get state "binding" = some (.obj job.binding)

/-- What holds between the calls of the runs. -/
structure Faithful (job : ImportJob) (refused : ImportStream → Nat → Bool) (w : ImportWorld) :
    Prop where
  answers : ∀ stream i a, (stream, i, a) ∈ w.answered →
    (a = .rejected ↔ refused stream i = true) ∧ (stream = .presence → a ≠ .conflict)
  covered : ∀ state, w.file = some (.obj state) → Bound job state → Covers state w
  dry : job.dryRun = true → w.answered = []

/-- More was answered. -/
def Grown (w w' : ImportWorld) : Prop := ∀ x ∈ w.answered, x ∈ w'.answered

theorem Grown.trans {w w' w'' : ImportWorld} (h : Grown w w') (h' : Grown w' w'') : Grown w w'' :=
  fun x hx => h' x (h x hx)

theorem Covers.grown {state : Fields} {w w' : ImportWorld} (h : Covers state w) (hw : Grown w w') :
    Covers state w' := by
  intro stream i hi
  obtain ⟨a, ha⟩ := h stream i hi
  exact ⟨a, hw _ ha⟩

/-! ### Calls -/

section Calls

variable {job : ImportJob} {refused : ImportStream → Nat → Bool} {w : ImportWorld}

/-- What was answered after a push. -/
theorem mem_answered_post {moment : ImportMoment refused} {stream : ImportStream} {off : Nat}
    {batch : List Value} {x : ImportStream × Nat × Answer} :
    x ∈ ((ImportCall.post stream off batch).effect moment w).1.answered ↔
      x ∈ w.answered ∨ ∃ k < batch.length, x = (stream, off + k, moment.answer stream (off + k)) := by
  show x ∈ w.answered ++ _ ↔ _
  rw [List.mem_append, List.mem_map]
  refine or_congr_right ?_
  constructor
  · rintro ⟨⟨a, k⟩, ha, rfl⟩
    obtain ⟨hk, heq⟩ := List.mem_zipIdx' ha
    have hlt : k < batch.length := by simpa [ImportMoment.answers] using hk
    refine ⟨k, hlt, ?_⟩
    simp [heq, ImportMoment.answers]
  · rintro ⟨k, hk, rfl⟩
    refine ⟨(moment.answer stream (off + k), k), ?_, rfl⟩
    rw [List.mem_zipIdx_iff_getElem?]
    simp [ImportMoment.answers, hk]

theorem grown_post (moment : ImportMoment refused) (stream : ImportStream) (off : Nat)
    (batch : List Value) : Grown w ((ImportCall.post stream off batch).effect moment w).1 :=
  fun _ hx => mem_answered_post.2 (Or.inl hx)

theorem Faithful.post (h : Faithful job refused w) (hdry : job.dryRun = false)
    (moment : ImportMoment refused) (stream : ImportStream) (off : Nat) (batch : List Value) :
    Faithful job refused ((ImportCall.post stream off batch).effect moment w).1 where
  answers := by
    intro stream' i a ha
    rcases mem_answered_post.1 ha with hin | ⟨k, -, heq⟩
    · exact h.answers stream' i a hin
    · obtain ⟨rfl, rfl, rfl⟩ : stream' = stream ∧ i = off + k ∧ a = moment.answer stream (off + k) := by
        simpa using heq
      refine ⟨moment.consistent _ _, ?_⟩
      rintro rfl
      exact moment.eventful _
  covered := fun state hfile hbound =>
    (h.covered state hfile hbound).grown (grown_post moment stream off batch)
  dry := fun htrue => by rw [hdry] at htrue; cases htrue

/-- A state that covers what it says may be saved. -/
theorem Faithful.save (h : Faithful job refused w) (moment : ImportMoment refused) {state : Fields}
    (hcovers : Covers state w) :
    Faithful job refused ((ImportCall.saveState state).effect moment w).1 where
  answers := h.answers
  covered := by
    intro saved hfile _
    obtain rfl : state = saved := Value.obj.inj (Option.some.inj hfile)
    exact hcovers
  dry := h.dry

end Calls

/-! ### States -/

theorem offsetKey_injective {stream other : ImportStream}
    (h : other.offsetKey = stream.offsetKey) : other = stream := by
  have hkeys : ImportStream.offsetKey .messages ≠ ImportStream.offsetKey .presence := by decide
  cases stream with
  | messages =>
    cases other with
    | messages => rfl
    | presence => exact absurd h.symm hkeys
  | presence =>
    cases other with
    | messages => exact absurd h hkeys
    | presence => rfl

theorem offsetOf_insert (state : Fields) (stream other : ImportStream) (n : Nat) :
    offsetOf (Fields.insert state stream.offsetKey (.int n)) other =
      if other = stream then n else offsetOf state other := by
  unfold offsetOf
  rw [Fields.get_insert]
  by_cases hsame : other = stream
  · rw [if_pos (congrArg _ hsame), if_pos hsame]
    exact Int.toNat_natCast n
  · rw [if_neg fun h => hsame (offsetKey_injective h), if_neg hsame]

/-- Binding a state changes no offset. -/
theorem offsetOf_bind (state binding : Fields) (stream : ImportStream) :
    offsetOf (Fields.insert state "binding" (.obj binding)) stream = offsetOf state stream := by
  have hne : stream.offsetKey ≠ "binding" := by cases stream <;> decide
  unfold offsetOf
  rw [Fields.get_insert, if_neg hne]

theorem Bound.insert {job : ImportJob} {state : Fields} (h : Bound job state) (stream : ImportStream)
    (v : Value) : Bound job (Fields.insert state stream.offsetKey v) := by
  have hne : "binding" ≠ stream.offsetKey := by cases stream <;> decide
  rw [Bound, Fields.get_insert, if_neg hne]
  exact h

theorem checkOffset_eq_ok {state : Fields} {stream : ImportStream} {n : Nat}
    (h : checkOffset state stream.offsetKey = .ok n) : offsetOf state stream = n := by
  unfold checkOffset at h
  unfold offsetOf
  generalize Fields.get state stream.offsetKey = found at h
  rcases found with _ | v
  · exact Except.ok.inj h
  · cases v with
    | int m =>
      dsimp only at h ⊢
      split at h
      · cases h
      · exact Except.ok.inj h
    | null | bool b | float x | str s | arr items | obj fields => cases h

/-- A state is accepted as it is where it is bound, and without offsets where it is not. -/
theorem bindResumeState_eq_ok {job : ImportJob} {state bound : Fields}
    (h : bindResumeState state job.binding = .ok bound) :
    bound = Fields.insert state "binding" (.obj job.binding) ∧
      (Bound job state ∨ ∀ stream, offsetOf state stream = 0) := by
  unfold bindResumeState at h
  cases hm : checkOffset state "messages_offset" with
  | error e => rw [hm] at h; cases h
  | ok m =>
    cases hp : checkOffset state "presence_offset" with
    | error e => rw [hm, hp] at h; cases h
    | ok p =>
      have hmessages : offsetOf state .messages = m := checkOffset_eq_ok hm
      have hpresence : offsetOf state .presence = p := checkOffset_eq_ok hp
      -- both offsets are zero, or the state has to be bound to this job
      have hzero : ¬ (m ≠ 0 ∨ p ≠ 0) → ∀ stream, offsetOf state stream = 0 := by
        intro hnone stream
        cases stream <;> omega
      rw [hm, hp] at h
      dsimp only [Bind.bind, Except.bind] at h
      -- no binding in the state
      split at h
      · split at h
        · cases h
        · next hnone => exact ⟨(Except.ok.inj h).symm, Or.inr (hzero hnone)⟩
      · split at h
        · cases h
        · next hnone => exact ⟨(Except.ok.inj h).symm, Or.inr (hzero hnone)⟩
      · -- a binding: it must be this job's
        next previous hget =>
        split at h
        · cases h
        · next heq =>
          refine ⟨(Except.ok.inj h).symm, Or.inl ?_⟩
          rw [Bound, hget, not_not.1 heq]

/-! ### The loop -/

/-- A row that was answered and not rejected. -/
def ImportWorld.Clean (w : ImportWorld) (stream : ImportStream) (i : Nat) : Prop :=
  ∃ a, (stream, i, a) ∈ w.answered ∧ a ≠ .rejected

/-- What the loop leads to from `start` on: what it rejects it counts. -/
structure Swept (job : ImportJob) (refused : ImportStream → Nat → Bool) (stream : ImportStream)
    (start stop : Nat) (w : ImportWorld) (state : Fields) (counts : Counts) (w' : ImportWorld)
    (state' : Fields) (counts' : Counts) : Prop where
  faithful : Faithful job refused w'
  grown : Grown w w'
  bound : Bound job state'
  covers : Covers state' w'
  other : ∀ s, s ≠ stream → offsetOf state' s = offsetOf state s
  counted : counts.rejected ≤ counts'.rejected
  clean : counts'.rejected = counts.rejected → ∀ i, start ≤ i → i < stop → w'.Clean stream i

section Loop

variable {job : ImportJob} {refused : ImportStream → Nat → Bool}

theorem leads_saveState {w : ImportWorld} (hw : Faithful job refused w) {state : Fields}
    (hcovers : Covers state w) :
    Leads refused (saveState job state) w
      (fun _ t => Faithful job refused t ∧ t.answered = w.answered) := by
  unfold saveState
  by_cases hpath : job.statePath = true
  · rw [if_pos hpath]
    refine leads_call (f := fun _ => pure ()) ⟨hw, rfl⟩ ?_
    intro moment
    exact ⟨⟨hw.save moment hcovers, rfl⟩, hw.save moment hcovers, rfl⟩
  · rw [if_neg hpath]
    exact ⟨hw, rfl⟩

/-- A batch without rejections. -/
theorem clean_of_count {moment : ImportMoment refused} {w : ImportWorld} {stream : ImportStream}
    {off : Nat} {batch : List Value}
    (h : (moment.answers stream off batch.length).count .rejected = 0) {i : Nat} (hoff : off ≤ i)
    (hi : i < off + batch.length) :
    ((ImportCall.post stream off batch).effect moment w).1.Clean stream i := by
  refine ⟨moment.answer stream i, mem_answered_post.2 (Or.inr ⟨i - off, by omega, ?_⟩), ?_⟩
  · rw [Nat.add_sub_cancel' hoff]
  · intro hrejected
    refine List.count_eq_zero.1 h ?_
    rw [ImportMoment.answers, List.mem_map]
    exact ⟨i - off, List.mem_range.2 (by omega), by rw [Nat.add_sub_cancel' hoff, hrejected]⟩

theorem ImportWorld.Clean.grown {w w' : ImportWorld} {stream : ImportStream} {i : Nat}
    (h : w.Clean stream i) (hw : Grown w w') : w'.Clean stream i := by
  obtain ⟨a, ha, hne⟩ := h
  exact ⟨a, hw _ ha, hne⟩

/-- **The loop**, by the number of batches that are left: the rows behind it are answered. -/
theorem leads_sendRows (hdry : job.dryRun = false) (stream : ImportStream) (items : List Value)
    (n : Nat) {start : Nat} {state : Fields} {counts : Counts} {w : ImportWorld}
    (hw : Faithful job refused w) (hbound : Bound job state) (hcovers : Covers state w)
    (hbehind : ∀ i < start, i < items.length → w.Answered stream i)
    (hn : n = (items.length - start + 499) / 500) :
    Leads refused (sendRows job stream items (List.range' start n 500) state counts) w
      (fun r t => (∀ e, r = .error e → Faithful job refused t) ∧
        ∀ out, r = .ok out →
          Swept job refused stream start items.length w state counts t out.1 out.2) := by
  induction n generalizing start state counts w with
  | zero =>
    refine ⟨nofun, ?_⟩
    rintro out ⟨⟩
    refine
      { faithful := hw
        grown := fun _ hx => hx
        bound := hbound
        covers := hcovers
        other := fun _ _ => rfl
        counted := Nat.le_refl _
        clean := ?_ }
    intro _ i hstart hi
    omega
  | succ n ih =>
    have hlength : ((items.drop start).take batchSize).length = min 500 (items.length - start) := by
      rw [List.length_take, List.length_drop]
      rfl
    rw [List.range'_succ, sendRows, hdry, if_neg Bool.false_ne_true]
    refine leads_call ⟨fun _ _ => hw, nofun⟩ ?_
    intro moment
    have hposted := hw.post hdry moment stream start ((items.drop start).take batchSize)
    have hgrown := grown_post (w := w) moment stream start ((items.drop start).take batchSize)
    refine ⟨⟨fun _ _ => hposted, nofun⟩, ?_⟩
    generalize hposted_eq : ((ImportCall.post stream start ((items.drop start).take batchSize)).effect
      moment w).1 = posted at hposted hgrown
    -- What the new offset covers: the rows behind the batch and those of the batch.
    have hanswered : ∀ i < start + ((items.drop start).take batchSize).length,
        posted.Answered stream i := by
      intro i hi
      by_cases hlt : i < start
      · obtain ⟨a, ha⟩ := hbehind i hlt (by omega)
        exact ⟨a, hgrown _ ha⟩
      · refine ⟨moment.answer stream i, ?_⟩
        rw [← hposted_eq]
        refine mem_answered_post.2 (Or.inr ⟨i - start, by omega, ?_⟩)
        rw [Nat.add_sub_cancel' (by omega)]
    have hnext : Covers (Fields.insert state stream.offsetKey
        (.int (start + ((items.drop start).take batchSize).length : Nat))) posted := by
      intro s i hi
      rw [offsetOf_insert] at hi
      split at hi
      · next hs =>
        subst hs
        exact hanswered i hi
      · exact hcovers.grown hgrown s i hi
    refine leads_bind _ (leads_saveState hposted hnext) ?_ ?_
    · rintro ⟨⟩ t ⟨ht, hsame⟩
      have hkept : Grown posted t := fun x hx => hsame ▸ hx
      refine wp_mono _ _ _ ?_ (ih ht (hbound.insert stream _) (hnext.grown hkept) ?_ (by omega))
      · rintro r t' ⟨herror, hok⟩
        refine ⟨herror, ?_⟩
        intro out hout
        have hswept := hok out hout
        have hcount := hswept.counted
        refine
          { faithful := hswept.faithful
            grown := (hgrown.trans hkept).trans hswept.grown
            bound := hswept.bound
            covers := hswept.covers
            other := ?_
            counted := (Nat.le_add_right _ _).trans hcount
            clean := ?_ }
        · intro s hs
          rw [hswept.other s hs, offsetOf_insert, if_neg hs]
        · intro hzero i hstart hi
          have hnone : (moment.answers stream start
              ((items.drop start).take batchSize).length).count .rejected = 0 := by
            have hle : counts.rejected + (moment.answers stream start
                ((items.drop start).take batchSize).length).count .rejected ≤ out.2.rejected := hcount
            omega
          by_cases hbatch : i < start + ((items.drop start).take batchSize).length
          · have hclean := clean_of_count (w := w) hnone hstart hbatch
            rw [hposted_eq] at hclean
            exact (hclean.grown hkept).grown hswept.grown
          · refine hswept.clean ?_ i (by omega) hi
            show out.2.rejected = counts.rejected + (moment.answers stream start
              ((items.drop start).take batchSize).length).count .rejected
            rw [hzero, hnone, Nat.add_zero]
      · intro i hi hlt
        obtain ⟨a, ha⟩ := hanswered i (by omega)
        exact ⟨a, hkept _ ha⟩
    · rintro e t ⟨ht, -⟩
      exact ⟨fun _ _ => ht, nofun⟩

end Loop

/-! ### The exports -/

section Main

variable (python : PresencePython) (job : ImportJob) {refused : ImportStream → Nat → Bool}

/-- How many rows are to be sent: those of the messages that are not skipped, and all of the others. -/
def rowCount : ImportStream → Nat
  | .messages =>
    ((job.messages.getD []).filter fun row => !skipped python.toPython job.excludedIds row).length
  | .presence => (job.presence.getD []).length

/-- The offset a run starts from. -/
def startOffset (file : Option Value) (stream : ImportStream) : Nat :=
  match file with
  | some (.obj state) => if job.statePath ∧ ¬ job.dryRun then offsetOf state stream else 0
  | _ => 0

/-- What an export leads to. -/
structure Handled (job : ImportJob) (refused : ImportStream → Nat → Bool) (stream : ImportStream)
    (rows : Nat) (w : ImportWorld) (state : Fields) (w' : ImportWorld) (state' : Fields)
    (counts : Option Counts) : Prop where
  faithful : Faithful job refused w'
  grown : Grown w w'
  bound : Bound job state'
  covers : Covers state' w'
  other : ∀ s, s ≠ stream → offsetOf state' s = offsetOf state s
  within : offsetOf state stream ≤ rows
  clean : (counts.map Counts.rejected).getD 0 = 0 →
    ∀ i, offsetOf state stream ≤ i → i < rows → w'.Clean stream i

theorem length_of_mapM {α β : Type} {f : α → Option β} {items : List α} {results : List β}
    (h : items.mapM f = some results) : results.length = items.length := by
  induction items generalizing results with
  | nil =>
    obtain rfl : [] = results := Option.some.inj h
    rfl
  | cons item items ih =>
    rw [List.mapM_cons, Option.bind_eq_bind, Option.bind_eq_some_iff] at h
    obtain ⟨b, -, h⟩ := h
    rw [Option.bind_eq_bind, Option.bind_eq_some_iff] at h
    obtain ⟨rest, hrest, h⟩ := h
    obtain rfl := Option.some.inj h
    rw [List.length_cons, List.length_cons, ih hrest]

variable {python job}

theorem leads_sendItems (hdry : job.dryRun = false) (stream : ImportStream) (exceeds : String)
    (rows : Nat) (items : List Value) {state : Fields} {w : ImportWorld}
    (hw : Faithful job refused w) (hbound : Bound job state) (hcovers : Covers state w) :
    Leads refused (sendItems job stream exceeds rows items state) w
      (fun r t => (∀ e, r = .error e → Faithful job refused t) ∧
        ∀ out, r = .ok out →
          Handled job refused stream items.length w state t out.1 out.2) := by
  unfold sendItems
  dsimp only
  -- the offset lies behind the end of the items
  by_cases hexceeds : items.length < offsetOf state stream
  · rw [if_pos hexceeds]
    exact ⟨fun _ _ => hw, nofun⟩
  · rw [if_neg hexceeds]
    -- otherwise the rows from the offset on are sent one by one
    refine leads_bind _ (leads_sendRows hdry stream items _ hw hbound hcovers
      (fun i hi _ => hcovers stream i hi) rfl) ?_ ?_
    · rintro ⟨state', counts⟩ t ⟨-, hok⟩
      have hswept := hok _ rfl
      refine ⟨nofun, ?_⟩
      rintro out ⟨⟩
      exact
        { faithful := hswept.faithful
          grown := hswept.grown
          bound := hswept.bound
          covers := hswept.covers
          other := hswept.other
          within := Nat.le_of_not_lt hexceeds
          clean := fun hzero => hswept.clean hzero }
    · rintro e t ⟨herror, -⟩
      exact ⟨fun _ _ => herror e rfl, nofun⟩

/-- An export that is not there. -/
theorem handled_none {stream : ImportStream} {state : Fields} {w : ImportWorld}
    (hw : Faithful job refused w) (hbound : Bound job state) (hcovers : Covers state w)
    (hzero : offsetOf state stream = 0) :
    Handled job refused stream 0 w state w state none where
  faithful := hw
  grown := fun _ hx => hx
  bound := hbound
  covers := hcovers
  other := fun _ _ => rfl
  within := hzero.le
  clean := fun _ i _ hi => absurd hi (Nat.not_lt_zero i)

theorem leads_sendMessages (hdry : job.dryRun = false) {state : Fields} {w : ImportWorld}
    (hw : Faithful job refused w) (hbound : Bound job state) (hcovers : Covers state w)
    (hstray : strayOffset job state = false) :
    Leads refused (sendMessages python job state) w
      (fun r t => (∀ e, r = .error e → Faithful job refused t) ∧
        ∀ out, r = .ok out →
          Handled job refused .messages (rowCount python job .messages) w state t out.1 out.2) := by
  unfold sendMessages rowCount
  cases hmessages : job.messages with
  | none =>
    refine ⟨nofun, ?_⟩
    rintro out ⟨⟩
    refine handled_none hw hbound hcovers ?_
    simp only [strayOffset, hmessages, Option.isNone_none, Bool.true_and, Bool.or_eq_false_iff,
      decide_eq_false_iff_not, not_not] at hstray
    exact hstray.1
  | some rows =>
    dsimp only [Option.getD_some]
    split
    · exact ⟨fun _ _ => hw, nofun⟩
    · next items hitems =>
      rw [← length_of_mapM hitems]
      exact leads_sendItems hdry .messages _ _ items hw hbound hcovers

theorem leads_sendPresence (hdry : job.dryRun = false) {state : Fields} {w : ImportWorld}
    (hw : Faithful job refused w) (hbound : Bound job state) (hcovers : Covers state w)
    (hstray : job.presence = none → offsetOf state .presence = 0) :
    Leads refused (sendPresence python job state) w
      (fun r t => (∀ e, r = .error e → Faithful job refused t) ∧
        ∀ out, r = .ok out →
          Handled job refused .presence (rowCount python job .presence) w state t out.1 out.2) := by
  unfold sendPresence rowCount
  cases hpresence : job.presence with
  | none =>
    refine ⟨nofun, ?_⟩
    rintro out ⟨⟩
    exact handled_none hw hbound hcovers (hstray hpresence)
  | some rows =>
    dsimp only [Option.getD_some]
    split
    · exact ⟨fun _ _ => hw, nofun⟩
    · next items hitems =>
      rw [← length_of_mapM hitems]
      exact leads_sendItems hdry .presence _ _ items hw hbound hcovers

/-! ### A run -/

theorem leads_loadState {w : ImportWorld} {post : Except String Fields → ImportWorld → Prop}
    (hnone : job.statePath = false → post (.ok []) w) (hstop : post (.error "stopped") w)
    (hread : job.statePath = true → post (stateOf w.file) w) :
    Leads refused (loadState job) w post := by
  unfold loadState
  cases hpath : job.statePath with
  | false => exact hnone hpath
  | true =>
    rw [if_pos rfl]
    refine leads_call hstop ?_
    intro moment
    exact ⟨hstop, leads_check (hread hpath)⟩

/-- The state a run starts from covers what it says. -/
theorem leads_startState (hdry : job.dryRun = false) {w : ImportWorld}
    (hw : Faithful job refused w) :
    Leads refused (startState job) w (fun r t => t = w ∧ ∀ state, r = .ok state →
      Bound job state ∧ Covers state w ∧
        ∀ stream, offsetOf state stream = startOffset job w.file stream) := by
  -- a bound state keeps its offsets
  have hbind : ∀ {found state : Fields}, bindResumeState found job.binding = .ok state →
      (Bound job found → Covers found w) → Bound job state ∧ Covers state w ∧
        ∀ stream, offsetOf state stream = offsetOf found stream := by
    intro found state hstate hcovers
    obtain ⟨rfl, hcase⟩ := bindResumeState_eq_ok hstate
    refine ⟨?_, ?_, offsetOf_bind found job.binding⟩
    · rw [Bound, Fields.get_insert, if_pos rfl]
    · intro stream i hi
      -- the offsets were reached by this job, or they are zero
      rw [offsetOf_bind] at hi
      rcases hcase with hbound | hzero
      · exact hcovers hbound stream i hi
      · rw [hzero stream] at hi
        exact absurd hi (Nat.not_lt_zero i)
  -- without a state the run begins at zero
  have hnothing : ∀ {state : Fields}, bindResumeState [] job.binding = .ok state →
      Bound job state ∧ Covers state w ∧ ∀ stream, offsetOf state stream = 0 := by
    intro state hstate
    exact hbind hstate (fun _ stream i hi => absurd hi (Nat.not_lt_zero i))
  unfold startState
  rw [hdry, if_neg Bool.false_ne_true]
  refine leads_bind (fun r t => t = w ∧ ∀ found, r = .ok found → ∀ state,
    bindResumeState found job.binding = .ok state → Bound job state ∧ Covers state w ∧
      ∀ stream, offsetOf state stream = startOffset job w.file stream)
    (leads_loadState ?_ ⟨rfl, nofun⟩ ?_) ?_ ?_
  · intro hpath
    refine ⟨rfl, ?_⟩
    rintro found ⟨⟩ state hstate
    obtain ⟨hbound, hcovers, hoffsets⟩ := hnothing hstate
    refine ⟨hbound, hcovers, ?_⟩
    intro stream
    rw [hoffsets]
    unfold startOffset
    split
    · rw [if_neg]
      simp [hpath]
    · rfl
  · -- the state file is read
    intro hpath
    refine ⟨rfl, ?_⟩
    intro found hfound state hstate
    cases hfile : w.file with
    | none =>
      rw [hfile] at hfound
      obtain rfl := Except.ok.inj hfound
      exact hnothing hstate
    -- what was saved covers the rows before its offsets
    | some v =>
      rw [hfile] at hfound
      cases v with
      | obj fields =>
        obtain rfl := Except.ok.inj hfound
        obtain ⟨hbound, hcovers, hoffsets⟩ := hbind hstate (hw.covered fields hfile)
        refine ⟨hbound, hcovers, ?_⟩
        intro stream
        rw [hoffsets, startOffset, if_pos ⟨hpath, by simp [hdry]⟩]
      | null | bool b | int n | float x | str s | arr items => cases hfound
  · rintro found t ⟨rfl, hfound⟩
    exact leads_check ⟨rfl, hfound found rfl⟩
  · rintro e t ⟨rfl, -⟩
    exact ⟨rfl, nofun⟩

/-- What a run that pushes leads to. -/
structure Imported (python : PresencePython) (job : ImportJob)
    (refused : ImportStream → Nat → Bool) (w w' : ImportWorld) (summary : ImportSummary) : Prop where
  within : ∀ stream, startOffset job w.file stream ≤ rowCount python job stream
  behind : ∀ stream i, i < startOffset job w.file stream → w.Answered stream i
  grown : Grown w w'
  clean : summary.totalRejected = 0 → ∀ stream i, startOffset job w.file stream ≤ i →
    i < rowCount python job stream → w'.Clean stream i

variable (python) in
/-- **A run** keeps what the offsets say, and where it counts no rejections there are none from its
offsets on. -/
theorem leads_importMain (hdry : job.dryRun = false) {w : ImportWorld}
    (hw : Faithful job refused w) :
    Leads refused (importMain python job) w (fun r t => Faithful job refused t ∧
      ∀ summary, r = .ok summary → Imported python job refused w t summary) := by
  unfold importMain
  split
  · exact ⟨hw, nofun⟩
  refine leads_bind _ (leads_startState hdry hw) ?_ ?_
  · rintro state t ⟨rfl, hstate⟩
    -- the offsets are those of the file
    obtain ⟨hbound, hcovers, hoffsets⟩ := hstate state rfl
    cases hstray : strayOffset job state with
    | true => exact ⟨hw, nofun⟩
    | false =>
      rw [if_neg Bool.false_ne_true]
      refine leads_bind _ (leads_sendMessages hdry hw hbound hcovers hstray) ?_ ?_
      · rintro ⟨state', messages⟩ t' ⟨-, hok⟩
        have hmessages := hok _ rfl
        -- the messages' pass leaves the other offset alone
        have hpresent : offsetOf state' .presence = offsetOf state .presence :=
          hmessages.other .presence (by decide)
        refine leads_bind _ (leads_sendPresence hdry hmessages.faithful hmessages.bound
          hmessages.covers ?_) ?_ ?_
        · intro hnone
          simp only [strayOffset, hnone, Option.isNone_none, Bool.true_and, Bool.or_eq_false_iff,
            decide_eq_false_iff_not, not_not] at hstray
          exact hpresent.trans hstray.2
        · rintro ⟨state'', presence⟩ t'' ⟨-, hok'⟩
          have hpresence := hok' _ rfl
          refine ⟨hpresence.faithful, ?_⟩
          rintro summary ⟨⟩
          -- both passes went through: the summary adds their counts up
          refine
            { within := ?_
              behind := fun stream i hi => hcovers stream i ((hoffsets stream).symm ▸ hi)
              grown := hmessages.grown.trans hpresence.grown
              clean := ?_ }
          · intro stream
            rw [← hoffsets]
            cases stream with
            | messages => exact hmessages.within
            | presence => exact hpresent ▸ hpresence.within
          · intro hzero stream i hi hlt
            -- no row was refused in either pass
            obtain ⟨hzero, hzero'⟩ := Nat.add_eq_zero_iff.1 hzero
            rw [← hoffsets] at hi
            cases stream with
            | messages => exact (hmessages.clean hzero i hi hlt).grown hpresence.grown
            | presence => exact hpresence.clean hzero' i (hpresent ▸ hi) hlt
        · rintro e t'' ⟨herror, -⟩
          exact ⟨herror e rfl, nofun⟩
      · rintro e t' ⟨herror, -⟩
        exact ⟨herror e rfl, nofun⟩
  · rintro e t ⟨rfl, -⟩
    exact ⟨hw, nofun⟩

variable (python) in
/-- A preview changes nothing. -/
theorem leads_importMain_dry (hdry : job.dryRun = true) (w : ImportWorld) :
    Leads refused (importMain python job) w (fun _ t => t = w) := by
  -- a dry run sends no row
  have hrows : ∀ stream items offs state counts,
      sendRows job stream items offs state counts = pure (state, counts) := by
    intro stream items offs state counts
    induction offs with
    | nil => rfl
    | cons off offs ih =>
      rw [sendRows, hdry, if_pos rfl]
      exact ih
  have hitems : ∀ stream exceeds rows items state,
      Leads refused (sendItems job stream exceeds rows items state) w (fun _ t => t = w) := by
    intro stream exceeds rows items state
    unfold sendItems
    simp only [hrows]
    split
    · rfl
    · rfl
  have hmessages : ∀ state,
      Leads refused (sendMessages python job state) w (fun _ t => t = w) := by
    intro state
    unfold sendMessages
    split
    · rfl
    · split
      · rfl
      · exact hitems _ _ _ _ _
  have hpresence : ∀ state,
      Leads refused (sendPresence python job state) w (fun _ t => t = w) := by
    intro state
    unfold sendPresence
    split
    · rfl
    · split
      · rfl
      · exact hitems _ _ _ _ _
  unfold importMain startState
  rw [hdry]
  split
  · rfl
  refine leads_bind (p := pure []) (fun _ t => t = w) rfl ?_ (fun _ _ h => h)
  rintro state t rfl
  -- so each of its passes leaves the world as it was
  split
  · rfl
  refine leads_bind _ (hmessages state) ?_ (fun _ _ h => h)
  rintro ⟨state', messages⟩ t rfl
  refine leads_bind _ (hpresence state') ?_ (fun _ _ h => h)
  rintro ⟨state'', presence⟩ t rfl
  rfl

/-! ### Runs -/

/-- Rows that are all answered, and not rejected: accepted, found to be there or, for messages, in
conflict. -/
def Truthful (python : PresencePython) (job : ImportJob) (w : ImportWorld) : Prop :=
  ∀ stream i, i < rowCount python job stream → ∃ a, (stream, i, a) ∈ w.answered ∧
    (a = .accepted ∨ a = .duplicate ∨ stream = .messages ∧ a = .conflict)

/-- A run that pushes what is left, with no rejected row behind the offset it starts from. -/
def Untroubled (python : PresencePython) (job : ImportJob) (refused : ImportStream → Nat → Bool)
    (file : Option Value) : Prop :=
  (job.dryRun = true → ∀ stream, rowCount python job stream = 0) ∧
    ∀ stream i, i < startOffset job file stream → refused stream i = false

variable (python) in
theorem Faithful.step {w : ImportWorld} (hw : Faithful job refused w) (run : ImportRun refused) :
    Faithful job refused ((importer python job refused).step w run).1 := by
  cases hdry : job.dryRun with
  | true =>
    have hsame := run_of_leads _ (leads_importMain_dry python hdry w) run
    show Faithful job refused ((importMain python job).run ImportCall.serve "stopped" run w).1
    rw [hsame]
    exact hw
  | false => exact (run_of_leads _ (leads_importMain python hdry hw) run).1

theorem Faithful.exec {file : Option Value} (hfile : ∀ state, file = some (.obj state) →
    ¬ Bound job state) (runs : List (ImportRun refused)) :
    Faithful job refused ((importer python job refused).exec ⟨file, []⟩ runs).1 := by
  refine (importer python job refused).exec_induction (P := fun _ w _ => Faithful job refused w) ?_
    (fun _ _ _ run hw => hw.step python run) runs
  exact
    { answers := nofun
      covered := fun state hstate hbound => absurd hbound (hfile state hstate)
      dry := fun _ => rfl }

/-- A preview that exits with 0. -/
theorem truthful_dry_iff (hdry : job.dryRun = true) {w w' : ImportWorld}
    (hw' : Faithful job refused w') :
    Truthful python job w' ↔ Untroubled python job refused w.file := by
  have hstart : ∀ stream, startOffset job w.file stream = 0 := by
    intro stream
    unfold startOffset
    split
    · rw [if_neg (by simp [hdry])]
    · rfl
  constructor
  · intro htruthful
    refine ⟨?_, ?_⟩
    · intro _ stream
      by_contra hrows
      obtain ⟨a, ha, -⟩ := htruthful stream 0 (Nat.pos_of_ne_zero hrows)
      rw [hw'.dry hdry] at ha
      cases ha
    · intro stream i hi
      rw [hstart] at hi
      exact absurd hi (Nat.not_lt_zero i)
  · rintro ⟨hnone, -⟩ stream i hi
    rw [hnone hdry stream] at hi
    exact absurd hi (Nat.not_lt_zero i)

/-- A row that was answered and not rejected has one of the other answers. -/
theorem Faithful.answer_of_clean {w : ImportWorld} (hw : Faithful job refused w)
    {stream : ImportStream} {i : Nat} (h : w.Clean stream i) :
    ∃ a, (stream, i, a) ∈ w.answered ∧
      (a = .accepted ∨ a = .duplicate ∨ stream = .messages ∧ a = .conflict) := by
  obtain ⟨a, ha, hne⟩ := h
  refine ⟨a, ha, ?_⟩
  have hpresence := (hw.answers stream i a ha).2
  cases a with
  | accepted => exact Or.inl rfl
  | duplicate => exact Or.inr (Or.inl rfl)
  | conflict =>
    cases stream with
    | messages => exact Or.inr (Or.inr ⟨rfl, rfl⟩)
    | presence => exact absurd rfl (hpresence rfl)
  | rejected => exact absurd rfl hne

/-- An import that counts no rejections. -/
theorem Imported.truthful_iff (hdry : job.dryRun = false) {w w' : ImportWorld}
    (hw : Faithful job refused w) (hw' : Faithful job refused w') {summary : ImportSummary}
    (himported : Imported python job refused w w' summary) (hrejected : summary.totalRejected = 0) :
    Truthful python job w' ↔ Untroubled python job refused w.file := by
  constructor
  · intro htruthful
    refine ⟨?_, ?_⟩
    · intro htrue
      rw [hdry] at htrue
      cases htrue
    · intro stream i hi
      -- a row refused here would have been counted, or was before the offset
      obtain ⟨a, ha, hanswer⟩ := htruthful stream i (hi.trans_le (himported.within stream))
      have hne : a ≠ .rejected := by
        rintro rfl
        simp at hanswer
      rw [Bool.eq_false_iff]
      exact fun hrefused => hne ((hw'.answers stream i a ha).1.2 hrefused)
  · rintro ⟨-, hbehind⟩ stream i hi
    refine hw'.answer_of_clean ?_
    -- behind the offset: answered by an earlier run, and not refused
    by_cases hlt : i < startOffset job w.file stream
    · obtain ⟨a, ha⟩ := himported.behind stream i hlt
      refine ⟨a, himported.grown _ ha, ?_⟩
      rintro rfl
      have hrefused := (hw.answers stream i _ ha).1.1 rfl
      rw [hbehind stream i hlt] at hrefused
      cases hrefused
    · exact himported.clean hrejected stream i (Nat.le_of_not_lt hlt) hi

/-- What exits with 0 has counted no rejections. -/
theorem exitCode_eq_zero (hrejects : job.allowRejects = false) {ended : Except String ImportSummary}
    (h : exitCode job ended = 0) : ∃ summary, ended = .ok summary ∧ summary.totalRejected = 0 := by
  cases ended with
  | error e => cases h
  | ok summary =>
    refine ⟨summary, rfl, ?_⟩
    unfold exitCode at h
    dsimp only at h
    split at h
    · cases h
    · next hnot =>
      rw [hrejects] at hnot
      simpa using hnot

/-- **A run that exits with 0**, from a world the runs before it left. -/
theorem truthful_step_iff (hrejects : job.allowRejects = false) {w : ImportWorld}
    (hw : Faithful job refused w) {run : ImportRun refused}
    (hzero : ((importer python job refused).step w run).2 = [0]) :
    Truthful python job ((importer python job refused).step w run).1 ↔
      Untroubled python job refused w.file := by
  have hnext := hw.step python run
  cases hdry : job.dryRun with
  | true => exact truthful_dry_iff hdry hnext
  | false =>
    obtain ⟨-, hrun⟩ := run_of_leads _ (leads_importMain python hdry hw) run
    obtain ⟨summary, hsummary, hrejected⟩ :=
      exitCode_eq_zero hrejects (List.head_eq_of_cons_eq hzero)
    exact (hrun summary hsummary).truthful_iff hdry hw hnext hrejected

end Main

/-- After any runs with one state file, which was not bound to these inputs before them, a run that
exits with 0 tells the truth exactly where it pushes what is left and the Worker rejects no row behind
the offsets it starts from. -/
theorem exit_zero_iff (python : PresencePython) (job : ImportJob) (hrejects : job.allowRejects = false)
    (refused : ImportStream → Nat → Bool) (file : Option Value)
    (hfile : ∀ state, file = some (.obj state) → ¬ Bound job state)
    (runs : List (ImportRun refused)) (run : ImportRun refused)
    (hzero : ((importer python job refused).step
      ((importer python job refused).exec ⟨file, []⟩ runs).1 run).2 = [0]) :
    Truthful python job ((importer python job refused).exec ⟨file, []⟩ (runs ++ [run])).1 ↔
      Untroubled python job refused
        ((importer python job refused).exec ⟨file, []⟩ runs).1.file := by
  rw [Machine.exec_snoc_fst]
  exact truthful_step_iff hrejects (Faithful.exec hfile runs) hzero

/-! ### Two runs -/

section Sample

/-- Python on the row below. -/
def samplePython : PresencePython where
  search _ _ := false
  loads _ := none
  isoToUtc s :=
    if s = "2026-06-12T12:06:02.895291-04:00" then some "2026-06-12T16:06:02.895291Z" else none
  int _ := none

/-- One message, with a state file. -/
def sampleJob : ImportJob where
  originHub := "hub"
  originHost := "host"
  messages := some
    [{ id := "1"
       timestampUtc := "2026-06-12 12:06:02.895291-04"
       protocolVersion := "1.0"
       sender := "a"
       recipient := "b"
       topic := "t"
       body := "hello"
       threadId := none
       tags := ""
       priority := "normal"
       requestAck := "f"
       replyTo := none
       metadata := ""
       sensitivity := none }]
  presence := none
  excludedIds := []
  statePath := true
  dryRun := false
  allowRejects := false
  token := "token"
  binding := [("version", .int 1)]

/-- A run that nothing stops, with a Worker that answers so. -/
def answering (a : Answer) (ha : a ≠ .conflict) :
    ImportRun (fun _ _ => a = .rejected) := fun _ =>
  { before := false
    after := false
    answer := fun _ _ => a
    consistent := fun _ _ => by simp
    eventful := fun _ => ha }

/-- A row that one run has accepted, and the next does not ask about. -/
theorem exit_zero_iff_accepted :
    Truthful samplePython sampleJob
        ((importer samplePython sampleJob _).exec ⟨none, []⟩
          ([answering .accepted (by decide)] ++ [answering .accepted (by decide)])).1 ↔
      Untroubled samplePython sampleJob (fun _ _ => Answer.accepted = .rejected)
        ((importer samplePython sampleJob _).exec ⟨none, []⟩
          [answering .accepted (by decide)]).1.file :=
  exit_zero_iff samplePython sampleJob rfl _ none nofun _ _ (by decide +kernel)

/-- **A row that is rejected** by one run, which exits with 1, and not asked about by the next, which
exits with 0. -/
theorem rejected_then_zero :
    ((importer samplePython sampleJob _).exec ⟨none, []⟩
        [answering .rejected (by decide), answering .rejected (by decide)]).2 = [1, 0] ∧
      ¬ Truthful samplePython sampleJob
        ((importer samplePython sampleJob _).exec ⟨none, []⟩
          [answering .rejected (by decide), answering .rejected (by decide)]).1 := by
  have hanswered : ((importer samplePython sampleJob _).exec ⟨none, []⟩
      [answering .rejected (by decide), answering .rejected (by decide)]).1.answered =
        [(.messages, 0, .rejected)] := by decide +kernel
  refine ⟨by decide, ?_⟩
  intro htruthful
  obtain ⟨a, ha, hanswer⟩ := htruthful .messages 0 (by decide)
  rw [hanswered] at ha
  obtain rfl : a = .rejected := by simpa using ha
  simp at hanswer

end Sample


end AgentHub.Cloud
