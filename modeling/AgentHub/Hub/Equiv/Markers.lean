import AgentHub.Hub.Markers
import AgentHub.Hub.Equiv.Compare
import AgentHub.Hub.Equiv.Script

/-!
# The order of replayed presences

The marker of an agent only moves forward in creation time (`marker_forward`), which is all the
script guarantees across origins.  Within one origin the sequences ascend as long as the marker in
force still tells of the origin whenever one of its older presences comes late: `markers_ordered`
says that this is exactly the condition, and `inOrder_of_clock` that an origin whose clock never
stands still between two presences always meets it.  Below `10 ^ 14`, where the writer of the marker
keeps every digit, a marker of the origin tells of all that is older (`told_of_stale`).
-/

namespace AgentHub.Hub

open AgentHub.Outbox

/-! ### What a run does to the markers -/

theorem markers_writes {db : Redis} {ws : List Write}
    (h : ws.filterMap Write.application? = []) : (db.writes ws).markers = db.markers := by
  induction ws generalizing db with
  | nil => rfl
  | cons w ws ih =>
    rw [List.filterMap_eq_nil_iff] at h
    have hw := h w List.mem_cons_self
    have hws : ws.filterMap Write.application? = [] :=
      List.filterMap_eq_nil_iff.mpr fun v hv => h v (List.mem_cons_of_mem _ hv)
    rw [Redis.writes_cons, ih hws]
    cases w with
    | setMarker agent marker deadline => simp [Write.application?] at hw
    | _ => rfl

/-- A run without a marker among its writes, however far it gets. -/
theorem applications_runScript {ρ : Type} {reply : ρ} {ws : List Write} (io : ScriptIo)
    (h : ∀ w ∈ ws, w.application? = none) :
    (runScript (reply, ws) io).2.filterMap Write.application? = [] := by
  rw [List.filterMap_eq_nil_iff]
  intro w hw
  cases io with
  | done => exact h w hw
  | unreached => cases hw
  | aborted n => exact h w (List.mem_of_mem_take hw)

theorem application?_saveMemo (input : ScriptInput) (now : Nat) (state : MemoState) :
    (saveMemo input now state).application? = none := rfl

/-- A message sets no marker. -/
theorem messageWrites_application? {plan : MessagePlan} {streamId : String} {now : Nat} {w : Write}
    (hw : w ∈ messageWrites plan streamId now) : w.application? = none := by
  rcases List.mem_cons.mp hw with rfl | hw
  · rfl
  · simp only [messageFollowUps, List.mem_append] at hw
    rcases hw with (hw | hw) | hw
    · split at hw
      · obtain rfl := List.mem_singleton.mp hw
        rfl
      · cases hw
    · split at hw
      · rcases List.mem_cons.mp hw with rfl | hw
        · rfl
        · obtain rfl := List.mem_singleton.mp hw
          rfl
      · cases hw
    · split at hw
      · obtain rfl := List.mem_singleton.mp hw
        rfl
      · rcases List.mem_cons.mp hw with rfl | hw
        · rfl
        · obtain rfl := List.mem_singleton.mp hw
          rfl
      · cases hw

/-- A run gets to its third write, or makes no more than the first two. -/
theorem runScript_third {ρ : Type} (reply : ρ) (a b c : Write) (rest : List Write) (io : ScriptIo) :
    (io.makes 3 = true ∧ ∃ more, more <+: rest ∧
      (runScript (reply, a :: b :: c :: rest) io).2 = a :: b :: c :: more) ∨
    io.makes 3 = false ∧ (runScript (reply, a :: b :: c :: rest) io).2 <+: [a, b] := by
  cases io with
  | done => exact .inl ⟨rfl, rest, List.prefix_rfl, rfl⟩
  | unreached => exact .inr ⟨rfl, List.nil_prefix⟩
  | aborted n =>
    match n with
    | 0 => exact .inr ⟨rfl, List.nil_prefix⟩
    | 1 => exact .inr ⟨rfl, [b], rfl⟩
    | 2 => exact .inr ⟨rfl, [], rfl⟩
    | n + 3 => exact .inl ⟨by simp [ScriptIo.makes], rest.take n, List.take_prefix _ _, rfl⟩

/-- The marker a presence leaves. -/
def ScriptInput.marker (input : ScriptInput) : Marker :=
  { originId := input.originId, sequence := input.sequence, createdMs := input.createdMs }

/-- The presence of a request, as it takes effect. -/
def ScriptInput.application (input : ScriptInput) (presence : Presence) : Application :=
  ⟨presence.agent, input.originId, input.sequence, input.createdMs⟩

/-- **What a run of the replay script does to the markers.**  A presence takes effect when the
request gets that far and is not overtaken, and nothing else sets a marker. -/
theorem replay_applies (db : Redis) (now : Nat) (input : ScriptInput) (streamId : String)
    (foreign : Bool) (io : ScriptIo) :
    (∃ p, input.effect = .presence p ∧ attempts db now input foreign io = true ∧
      presenceOvertaken db now input p = false ∧
      (runScript (replayScript db now input streamId foreign) io).2.filterMap Write.application? =
        [input.application p] ∧
      ∃ deadline, (db.writes (runScript (replayScript db now input streamId foreign) io).2).markers =
        Function.update db.markers p.agent (some ⟨input.marker.reread, deadline⟩)) ∨
    ((runScript (replayScript db now input streamId foreign) io).2.filterMap Write.application? = [] ∧
      ∀ p, input.effect = .presence p → attempts db now input foreign io = true →
        presenceOvertaken db now input p = true) := by
  unfold replayScript attempts
  -- the checks in the script's order: memo, expiry, clock, permissions
  cases hmemo : readKey (db.memos input.requestId) now with
  | some record => exact .inr ⟨applications_runScript io (by simp), by simp⟩
  | none =>
    simp only [Option.isNone_none, Bool.true_and, ne_eq]
    by_cases hexpired : input.expiresMs ≠ 0 ∧ input.expiresMs ≤ now
    · rw [if_pos hexpired]
      exact .inr ⟨applications_runScript io (by simp), by simp [hexpired]⟩
    rw [if_neg hexpired]
    by_cases hfuture : now + 300000 < input.createdMs
    · rw [if_pos hfuture]
      have hlate : ¬ input.createdMs ≤ now + 300000 := by omega
      exact .inr ⟨applications_runScript io (by simp), by simp [hlate]⟩
    rw [if_neg hfuture]
    by_cases hpre : preflightFails db now input foreign = true
    · rw [if_pos hpre]
      exact .inr ⟨applications_runScript io (by simp), by simp [hpre]⟩
    rw [if_neg hpre]
    have hcreated : input.createdMs ≤ now + 300000 := by omega
    have hready : ((!(decide ¬ input.expiresMs = 0 && decide (input.expiresMs ≤ now)) &&
        decide (input.createdMs ≤ now + 300000) && !preflightFails db now input foreign) && io.makes 3) =
        io.makes 3 := by
      have hlive : (decide ¬ input.expiresMs = 0 && decide (input.expiresMs ≤ now)) = false := by
        simpa using hexpired
      rw [hlive]
      simp [hcreated, hpre]
    -- past the checks the script writes; only a presence reaches a marker
    rw [hready]
    unfold applyEffect
    cases heffect : input.effect with
    | claim key agent =>
      exact .inr ⟨applications_runScript io (by simp [application?_saveMemo]), by simp⟩
    | message plan =>
      refine .inr ⟨applications_runScript io ?_, by simp⟩
      intro w hw
      simp only [List.mem_append, List.mem_singleton] at hw
      rcases hw with (rfl | hw) | rfl
      · rfl
      · exact messageWrites_application? hw
      · rfl
    | presence p =>
      simp only
      -- the stored marker decides
      by_cases hover : presenceOvertaken db now input p = true
      · rw [if_pos hover]
        refine .inr ⟨applications_runScript io (by simp [application?_saveMemo]), ?_⟩
        rintro q ⟨⟩ -
        exact hover
      · rw [if_neg hover]
        simp only [Bool.not_eq_true] at hover
        rcases runScript_third (ScriptReply.stored (.presence p)) (saveMemo input now .pending)
            (.setPresence p.agent p input.expiresMs)
            (.setMarker p.agent
              { originId := input.originId, sequence := input.sequence, createdMs := input.createdMs }
              (input.expiresMs + memoRetentionMs))
            [.publish (.presence p), saveMemo input now (.applied (.presence p) none)] io with
          -- the third write is the presence: the run reached it, or it stopped before
          ⟨hmakes, more, hmore, hrun⟩ | ⟨hmakes, hrun⟩
        · have hnone : more.filterMap Write.application? = [] := by
            rw [List.filterMap_eq_nil_iff]
            intro w hw
            have hw' := hmore.subset hw
            simp only [List.mem_cons, List.not_mem_nil, or_false] at hw'
            rcases hw' with rfl | rfl <;> rfl
          refine .inl ⟨p, rfl, hmakes, hover, ?_, some (input.expiresMs + memoRetentionMs), ?_⟩
          · show (runScript _ io).2.filterMap _ = _
            rw [hrun]
            simp only [List.filterMap_cons, application?_saveMemo, hnone]
            rfl
          · show (db.writes (runScript _ io).2).markers = _
            rw [hrun]
            simp only [Redis.writes_cons]
            rw [markers_writes hnone]
            rfl
        · refine .inr ⟨?_, ?_⟩
          · show (runScript _ io).2.filterMap _ = _
            rw [List.filterMap_eq_nil_iff]
            intro w hw
            have hw' := hrun.subset hw
            simp only [List.mem_cons, List.not_mem_nil, or_false] at hw'
            rcases hw' with rfl | rfl <;> rfl
          · simp [hmakes]

/-- What overtakes a presence: the marker of its own origin, or something newer. -/
theorem presenceOvertaken_iff {db : Redis} {now : Nat} {input : ScriptInput} {p : Presence} :
    presenceOvertaken db now input p = true ↔
      (∃ m, readKey (db.markers p.agent) now = some m ∧ m.originId = input.originId ∧
        luaNumber input.sequence ≤ m.sequence) ∨
      outdated db now input p = true := by
  unfold presenceOvertaken outdated
  cases readKey (db.markers p.agent) now with
  | none => simp
  | some m => simp [or_assoc]

/-! ### Steps -/

namespace MarkerState

/-- A command of another program sets no marker. -/
theorem command_application? {db : Redis} {now : Nat} {command : Command} {w : Write}
    (hw : w ∈ command.writes db now) : w.application? = none := by
  cases command with
  | claim c =>
    obtain rfl := List.mem_singleton.mp hw
    rfl
  | post entry =>
    simp only [Command.writes] at hw
    split at hw
    · cases hw
    · obtain rfl := List.mem_singleton.mp hw
      rfl
  | announce presence ttlSeconds =>
    obtain rfl := List.mem_singleton.mp hw
    rfl

/-- **What an input does to the markers.** -/
theorem step_cases (s : MarkerState) (i : MarkerInput) :
    (∃ now input streamId foreign io p, i = .replay now input streamId foreign io ∧
      input.effect = .presence p ∧ attempts s.db (s.clock i) input foreign io = true ∧
      presenceOvertaken s.db (s.clock i) input p = false ∧
      (s.step i).2 = [input.application p] ∧
      (s.step i).1.marker? = Function.update s.marker? p.agent (some input.marker.reread)) ∨
    ((s.step i).2 = [] ∧ (s.step i).1.marker? = s.marker? ∧
      ∀ now input streamId foreign io p, i = .replay now input streamId foreign io →
        input.effect = .presence p → attempts s.db (s.clock i) input foreign io = true →
        presenceOvertaken s.db (s.clock i) input p = true) := by
  cases i with
  | command now command =>
    -- a direct command sets no marker
    have hnone : (s.written (.command now command)).filterMap Write.application? = [] :=
      List.filterMap_eq_nil_iff.mpr fun w hw => command_application? hw
    refine .inr ⟨hnone, ?_, by simp⟩
    funext agent
    show ((s.db.writes _).markers agent).map _ = _
    rw [markers_writes hnone]
    rfl
  | replay now input streamId foreign io =>
    have happlies := replay_applies s.db (max s.now now) input streamId foreign io
    have hwritten : (runScript (replayScript s.db (max s.now now) input streamId foreign) io).2 =
        s.written (.replay now input streamId foreign io) := rfl
    rw [hwritten] at happlies
    rcases happlies with
      ⟨p, heffect, hattempts, hover, houts, deadline, hmarkers⟩ | ⟨hnone, hover⟩
    · -- the marker of that agent alone is the new one
      refine .inl ⟨now, input, streamId, foreign, io, p, rfl, heffect, hattempts, hover, houts, ?_⟩
      funext agent
      show ((s.db.writes _).markers agent).map _ = _
      rw [hmarkers]
      by_cases hagent : agent = p.agent
      · subst hagent
        simp
      · simp [Function.update_of_ne hagent, marker?]
    · refine .inr ⟨hnone, ?_, ?_⟩
      · funext agent
        show ((s.db.writes _).markers agent).map _ = _
        rw [markers_writes hnone]
        rfl
      · rintro _ _ _ _ _ p ⟨⟩ heffect hattempts
        exact hover p heffect hattempts

end MarkerState

/-! ### Forward in creation time -/

/-- Every marker is in force when an input comes. -/
def Retained (s : MarkerState) (i : MarkerInput) : Prop :=
  ∀ agent e, s.db.markers agent = some e → ∀ t ∈ e.deadline, s.clock i ≤ t

theorem MarkerState.step_forward {s : MarkerState} {i : MarkerInput} (h : Retained s i)
    {agent : String} {m : Marker} (hm : s.marker? agent = some m) :
    ∃ m', (s.step i).1.marker? agent = some m' ∧ m.createdMs ≤ m'.createdMs := by
  rcases s.step_cases i with ⟨now, input, streamId, foreign, io, p, rfl, -, -, hover, -, hnext⟩ |
    ⟨-, hkept, -⟩
  · rw [hnext]
    by_cases hagent : agent = p.agent
    · subst hagent
      refine ⟨input.marker.reread, by simp, ?_⟩
      obtain ⟨e, he, rfl⟩ := Option.map_eq_some_iff.mp hm
      have hread : readKey (s.db.markers p.agent) (s.clock (.replay now input streamId foreign io)) =
          some e.value := readKey_eq_some.mpr ⟨e.deadline, he, h _ _ he⟩
      by_contra hlt
      have hnewer : input.createdMs < e.value.createdMs := Nat.lt_of_not_le hlt
      simp [presenceOvertaken, hread, hnewer] at hover
    · exact ⟨m, by rw [Function.update_of_ne hagent, hm], le_rfl⟩
  · exact ⟨m, by rw [hkept, hm], le_rfl⟩

/-- **The marker of an agent moves forward** while markers are in force. -/
theorem marker_forward {is : List MarkerInput}
    (h : ∀ pre i, pre ++ [i] <+: is → Retained (MarkerState.machine.exec {} pre).1 i)
    {pre : List MarkerInput} (hpre : pre <+: is) {agent : String} {m : Marker}
    (hm : (MarkerState.machine.exec {} pre).1.marker? agent = some m) :
    ∃ m', (MarkerState.machine.exec {} is).1.marker? agent = some m' ∧
      m.createdMs ≤ m'.createdMs := by
  induction is using List.reverseRecOn with
  | nil =>
    obtain rfl := List.prefix_nil.mp hpre
    exact ⟨m, hm, le_rfl⟩
  | append_singleton is i ih =>
    rcases List.prefix_concat_iff.mp hpre with rfl | hpre
    · exact ⟨m, hm, le_rfl⟩
    · have hbefore : ∀ pre j, pre ++ [j] <+: is →
          Retained (MarkerState.machine.exec {} pre).1 j :=
        fun pre j hj => h pre j (hj.trans (List.prefix_append _ _))
      obtain ⟨m', hm', hle⟩ := ih hbefore hpre
      obtain ⟨m'', hm'', hle'⟩ := MarkerState.step_forward (h is i List.prefix_rfl) hm'
      rw [Machine.exec_snoc]
      exact ⟨m'', hm'', hle.trans hle'⟩

/-! ### Ascending sequences -/

theorem ascending_snoc {as : List Application} {a : Application} :
    Ascending (as ++ [a]) ↔ Ascending as ∧
      ∀ b ∈ as, b.agent = a.agent → b.originId = a.originId → b.sequence < a.sequence := by
  unfold Ascending
  constructor
  · intro h
    constructor
    · intro agent originId
      have hall := h agent originId
      rw [List.filter_append, List.pairwise_append] at hall
      exact hall.1
    · intro b hb hagent horigin
      have hall := h a.agent a.originId
      rw [List.filter_append, List.pairwise_append] at hall
      exact hall.2.2 b (List.mem_filter.mpr ⟨hb, by simp [hagent, horigin]⟩) a (by simp)
  · rintro ⟨h, hnew⟩ agent originId
    rw [List.filter_append, List.pairwise_append]
    refine ⟨h agent originId, List.Pairwise.filter _ (List.pairwise_singleton _ _), ?_⟩
    intro b hb a' ha'
    simp only [List.mem_filter, List.mem_singleton, decide_eq_true_eq] at hb ha'
    obtain ⟨hb, hagent, horigin⟩ := hb
    obtain ⟨rfl, hagent', horigin'⟩ := ha'
    exact hnew b hb (hagent.trans hagent'.symm) (horigin.trans horigin'.symm)

/-- A marker tells of the last presence of its origin that took effect. -/
structure MarkerInv (past : List Application) (s : MarkerState) : Prop where
  ascending : Ascending past
  latest : ∀ agent m, s.marker? agent = some m → ∀ a ∈ past, a.agent = agent →
    a.originId = m.originId → luaReread a.sequence ≤ m.sequence

theorem marker?_of_read {s : MarkerState} {agent : String} {now : Nat} {m : Marker}
    (h : readKey (s.db.markers agent) now = some m) : s.marker? agent = some m := by
  obtain ⟨deadline, hslot, -⟩ := readKey_eq_some.mp h
  simp [MarkerState.marker?, hslot]

/-- What holds a stale presence back, given the marker's own history. -/
theorem MarkerInv.overtaken {past : List Application} {s : MarkerState} (h : MarkerInv past s)
    {now : Nat} {input : ScriptInput} {p : Presence}
    (hheld : (ownMarker s.db now input p = true ∧ Told past input p) ∨
      outdated s.db now input p = true) : presenceOvertaken s.db now input p = true := by
  rw [presenceOvertaken_iff]
  refine hheld.imp_left ?_
  rintro ⟨hown, a, ha, hagent, horigin, htold⟩
  obtain ⟨m, hm, hsame⟩ := (Option.any_eq_true _ _).mp hown
  have hsame' : m.originId = input.originId := by simpa using hsame
  refine ⟨m, hm, hsame', htold.trans ?_⟩
  exact_mod_cast h.latest p.agent m (marker?_of_read hm) a ha hagent (horigin.trans hsame'.symm)

/-- **One input in order keeps the sequences ascending.** -/
theorem MarkerInv.step {past : List Application} {s : MarkerState} (h : MarkerInv past s)
    {i : MarkerInput} (hi : InOrder past s i) :
    MarkerInv (past ++ (s.step i).2) (s.step i).1 := by
  rcases s.step_cases i with ⟨now, input, streamId, foreign, io, p, rfl, heffect, hattempts, hover,
    houts, hnext⟩ | ⟨houts, hkept, -⟩
  · rw [houts]
    -- an older application of this origin would have been overtaken
    have hfresh : ∀ b ∈ past, b.agent = p.agent → b.originId = input.originId →
        b.sequence < input.sequence := by
      intro b hb hagent horigin
      by_contra hle
      have hstale : Stale past input p := ⟨b, hb, hagent, horigin, Nat.le_of_not_lt hle⟩
      rw [h.overtaken (hi p heffect hattempts hstale)] at hover
      cases hover
    refine ⟨ascending_snoc.mpr ⟨h.ascending, hfresh⟩, ?_⟩
    intro agent m hm a ha hagent horigin
    rw [hnext] at hm
    rcases List.mem_append.mp ha with ha | ha
    · by_cases hp : agent = p.agent
      · -- the marker is the new one, as the script reads it back
        subst hp
        obtain rfl : input.marker.reread = m := by simpa using hm
        exact luaReread_mono (hfresh a ha hagent horigin).le
      · rw [Function.update_of_ne hp] at hm
        exact h.latest agent m hm a ha hagent horigin
    · obtain rfl := List.mem_singleton.mp ha
      obtain rfl : p.agent = agent := hagent
      obtain rfl : input.marker.reread = m := by simpa using hm
      exact le_rfl
  · rw [houts, List.append_nil]
    refine ⟨h.ascending, ?_⟩
    rw [hkept]
    exact h.latest

/-- Every marker was left by a presence that took effect. -/
def Left (past : List Application) (s : MarkerState) : Prop :=
  ∀ agent m, s.marker? agent = some m →
    ∃ a ∈ past, a.agent = agent ∧ a.originId = m.originId ∧ luaReread a.sequence = m.sequence

theorem left_exec (is : List MarkerInput) :
    Left (MarkerState.machine.exec {} is).2 (MarkerState.machine.exec {} is).1 := by
  induction is using List.reverseRecOn with
  | nil => intro agent m hm; cases hm
  | append_singleton is i ih =>
    rw [Machine.exec_snoc]
    intro agent m hm
    rcases (MarkerState.machine.exec {} is).1.step_cases i with
      ⟨now, input, streamId, foreign, io, p, -, -, -, -, houts, hnext⟩ | ⟨-, hkept, -⟩
    · replace hm : ((MarkerState.machine.exec {} is).1.step i).1.marker? agent = some m := hm
      rw [hnext] at hm
      by_cases hp : agent = p.agent
      · subst hp
        obtain rfl : input.marker.reread = m := by simpa using hm
        refine ⟨input.application p, List.mem_append_right _ ?_, rfl, rfl, rfl⟩
        show _ ∈ ((MarkerState.machine.exec {} is).1.step i).2
        rw [houts]
        exact List.mem_singleton_self _
      · rw [Function.update_of_ne hp] at hm
        obtain ⟨a, ha, hrest⟩ := ih agent m hm
        exact ⟨a, List.mem_append_left _ ha, hrest⟩
    · replace hm : ((MarkerState.machine.exec {} is).1.step i).1.marker? agent = some m := hm
      rw [hkept] at hm
      obtain ⟨a, ha, hrest⟩ := ih agent m hm
      exact ⟨a, List.mem_append_left _ ha, hrest⟩

/-- An input after which the sequences still ascend is in order. -/
theorem inOrder_of_ascending {past : List Application} {s : MarkerState} {i : MarkerInput}
    (hleft : Left past s) (h : Ascending (past ++ (s.step i).2)) : InOrder past s i := by
  cases i with
  | command now command => trivial
  | replay now input streamId foreign io =>
    intro p heffect hattempts hstale
    rcases s.step_cases (.replay now input streamId foreign io) with
      ⟨now', input', streamId', foreign', io', p', heq, heffect', -, -, houts, -⟩ | ⟨-, -, hover⟩
    · -- it takes effect, which an ascending order excludes for a stale presence
      cases heq
      rw [heffect] at heffect'
      cases heffect'
      rw [houts, ascending_snoc] at h
      obtain ⟨a, ha, hagent, horigin, hseq⟩ := hstale
      exact absurd (h.2 a ha hagent horigin) (Nat.not_lt.mpr hseq)
    · have hovertaken := hover now input streamId foreign io p rfl heffect hattempts
      refine (presenceOvertaken_iff.mp hovertaken).imp_left ?_
      rintro ⟨m, hm, horigin, htold⟩
      obtain ⟨a, ha, hagent, hsame, hsequence⟩ := hleft p.agent m (marker?_of_read hm)
      refine ⟨(Option.any_eq_true _ _).mpr ⟨m, hm, by simp [horigin]⟩, ?_⟩
      exact ⟨a, ha, hagent, hsame.trans horigin, by rwa [hsequence]⟩

/-- Below 10^14 a stale presence is told of wherever the marker is of its origin. -/
theorem told_of_stale {past : List Application} {input : ScriptInput} {p : Presence}
    (h : Stale past input p) (hbound : ∀ a ∈ past, a.sequence < 10 ^ 14) : Told past input p := by
  obtain ⟨a, ha, hagent, horigin, hle⟩ := h
  have hlt := hbound a ha
  refine ⟨a, ha, hagent, horigin, ?_⟩
  rw [luaReread_of_lt hlt, luaNumber_of_le (by omega)]
  exact_mod_cast hle

/-- A presence that is answered as applied, and was not remembered, takes effect. -/
theorem application_of_applied {s : MarkerState} {now : Nat} {input : ScriptInput}
    {streamId : String} {foreign : Bool} {io : ScriptIo} {p : Presence}
    (hmemo : readKey (s.db.memos input.requestId) (max s.now now) = none)
    (hreply : (runScript (replayScript s.db (max s.now now) input streamId foreign) io).1 =
      some (.stored (.presence p))) :
    (s.step (.replay now input streamId foreign io)).2 = [input.application p] := by
  -- an aborted script has no reply
  have hdone : io = .done := by
    cases io with
    | done => rfl
    | _ => cases hreply
  subst hdone
  have hsound := replayScript_sound s.db (max s.now now) input streamId foreign
  have hstep : (s.step (.replay now input streamId foreign .done)).2 =
      (replayScript s.db (max s.now now) input streamId foreign).2.filterMap
        Write.application? := rfl
  rw [hstep]
  simp only [runScript, Option.some.injEq] at hreply
  generalize replayScript s.db (max s.now now) input streamId foreign = run at hsound hreply ⊢
  cases hsound with
  | cached hmemo' => simp [hmemo] at hmemo'
  | expired => cases hreply
  | refused _ _ hkind =>
    rcases hkind with rfl | rfl
    · cases hreply
    · cases hreply
  | applied =>
    unfold applyEffect at hreply ⊢
    cases heffect : input.effect with
    | claim key agent => simp [heffect] at hreply
    | message plan => simp [heffect] at hreply
    | presence q =>
      simp only [heffect] at hreply ⊢
      split_ifs at hreply ⊢ with hover
      · cases hreply
      · cases hreply
        rfl

/-- **Replayed presences.**  For every run of replays and of the commands of other programs:

1. while the markers are in force, the creation time of an agent's marker never decreases;
2. a presence that is newly answered as applied takes effect;
3. the presences of each origin take effect with ascending sequences exactly when every input is in
   order: a presence that comes for the first time after an equal or later one of its origin finds
   the marker still of this origin, and one of the origin's sequences not below its own with the
   fourteen digits a marker keeps, or the marker or the live presence newer than itself. -/
theorem markers_ordered (is : List MarkerInput) :
    ((∀ pre i, pre ++ [i] <+: is → Retained (MarkerState.machine.exec {} pre).1 i) →
      ∀ pre, pre <+: is → ∀ agent m,
        (MarkerState.machine.exec {} pre).1.marker? agent = some m →
        ∃ m', (MarkerState.machine.exec {} is).1.marker? agent = some m' ∧
          m.createdMs ≤ m'.createdMs) ∧
    (∀ pre now input streamId foreign io p,
      pre ++ [.replay now input streamId foreign io] <+: is →
      readKey ((MarkerState.machine.exec {} pre).1.db.memos input.requestId)
        (max (MarkerState.machine.exec {} pre).1.now now) = none →
      (runScript (replayScript (MarkerState.machine.exec {} pre).1.db
        (max (MarkerState.machine.exec {} pre).1.now now) input streamId foreign) io).1 =
          some (.stored (.presence p)) →
      input.application p ∈ (MarkerState.machine.exec {} is).2) ∧
    ((∀ pre i, pre ++ [i] <+: is →
        InOrder (MarkerState.machine.exec {} pre).2 (MarkerState.machine.exec {} pre).1 i) ↔
      Ascending (MarkerState.machine.exec {} is).2) := by
  refine ⟨fun h pre hpre agent m hm => marker_forward h hpre hm, ?_, ?_, ?_⟩
  · rintro pre now input streamId foreign io p ⟨more, rfl⟩ hmemo hreply
    have hnew := application_of_applied hmemo hreply
    rw [Machine.exec_append, Machine.exec_snoc]
    refine List.mem_append_left _ (List.mem_append_right _ ?_)
    show _ ∈ (MarkerState.step _ _).2
    rw [hnew]
    exact List.mem_singleton_self _
  · intro h
    have hinv : MarkerInv (MarkerState.machine.exec {} is).2 (MarkerState.machine.exec {} is).1 := by
      induction is using List.reverseRecOn with
      | nil => exact ⟨by simp [Ascending], by simp⟩
      | append_singleton is i ih =>
        rw [Machine.exec_snoc]
        refine (ih fun pre j hj => h pre j (hj.trans (List.prefix_append _ _))).step ?_
        exact h is i List.prefix_rfl
    exact hinv.ascending
  · rintro h pre i ⟨more, rfl⟩
    rw [Machine.exec_append, Machine.exec_snoc] at h
    refine inOrder_of_ascending (left_exec pre) ?_
    intro agent originId
    have hall := h agent originId
    rw [List.filter_append, List.pairwise_append] at hall
    exact hall.1

/-! ### Clocks that do not stand still -/

/-- While markers are in force, the marker of an agent is not older than any of its presences. -/
theorem marker_newest {is : List MarkerInput}
    (h : ∀ pre i, pre ++ [i] <+: is → Retained (MarkerState.machine.exec {} pre).1 i) :
    ∀ a ∈ (MarkerState.machine.exec {} is).2, ∃ m,
      (MarkerState.machine.exec {} is).1.marker? a.agent = some m ∧ a.createdMs ≤ m.createdMs := by
  induction is using List.reverseRecOn with
  | nil => simp
  | append_singleton is i ih =>
    rw [Machine.exec_snoc]
    intro a ha
    rcases List.mem_append.mp ha with ha | ha
    · obtain ⟨m, hm, hle⟩ := ih (fun pre j hj => h pre j (hj.trans (List.prefix_append _ _))) a ha
      obtain ⟨m', hm', hle'⟩ := MarkerState.step_forward (h is i List.prefix_rfl) hm
      exact ⟨m', hm', hle.trans hle'⟩
    · rcases (MarkerState.machine.exec {} is).1.step_cases i with
        ⟨now, input, streamId, foreign, io, p, -, -, -, -, houts, hnext⟩ | ⟨houts, -, -⟩
      · replace ha : a ∈ ((MarkerState.machine.exec {} is).1.step i).2 := ha
        rw [houts] at ha
        obtain rfl := List.mem_singleton.mp ha
        refine ⟨input.marker.reread, ?_, le_rfl⟩
        show ((MarkerState.machine.exec {} is).1.step i).1.marker? p.agent = _
        rw [hnext, Function.update_self]
      · replace ha : a ∈ ((MarkerState.machine.exec {} is).1.step i).2 := ha
        rw [houts] at ha
        cases ha

/-- **A clock that moves between two presences is enough**: while markers are in force, the
presences of an origin are in order when an earlier sequence always means an earlier time. -/
theorem inOrder_of_clock {is : List MarkerInput}
    (hkept : ∀ pre i, pre ++ [i] <+: is → Retained (MarkerState.machine.exec {} pre).1 i)
    {pre : List MarkerInput} {i : MarkerInput} (hpre : pre ++ [i] <+: is)
    (hclock : ∀ now input streamId foreign io p, i = .replay now input streamId foreign io →
      input.effect = .presence p → ∀ a ∈ (MarkerState.machine.exec {} pre).2,
        a.agent = p.agent → a.originId = input.originId → input.sequence ≤ a.sequence →
        input.createdMs < a.createdMs) :
    InOrder (MarkerState.machine.exec {} pre).2 (MarkerState.machine.exec {} pre).1 i := by
  have hbefore : ∀ pre' j, pre' ++ [j] <+: pre →
      Retained (MarkerState.machine.exec {} pre').1 j :=
    fun pre' j hj => hkept pre' j (hj.trans ((List.prefix_append _ _).trans hpre))
  cases i with
  | command now command => trivial
  | replay now input streamId foreign io =>
    rintro p heffect - ⟨a, ha, hagent, horigin, hseq⟩
    have hearlier := hclock now input streamId foreign io p rfl heffect a ha hagent horigin hseq
    obtain ⟨m, hm, hle⟩ := marker_newest hbefore a ha
    rw [hagent] at hm
    obtain ⟨e, he, rfl⟩ := Option.map_eq_some_iff.mp hm
    have hread := readKey_eq_some.mpr ⟨e.deadline, he, hkept pre _ hpre _ _ he⟩
    have hnewer : input.createdMs < e.value.createdMs := hearlier.trans_le hle
    right
    unfold outdated
    rw [hread]
    simp [hnewer]

/-! ### Two origins in one millisecond -/

/-- A presence of the agent "a", created at the tenth millisecond. -/
def tenthMillisecond : Presence where
  agent := "a"
  status := "online"
  protocolVersion := "1.0"
  timestampUtc := "1970-01-01T00:00:00.010000Z"
  sessionId := "s"
  capabilities := []
  metadata := .obj []
  ttlSeconds := 180

/-- Its replay by an origin, under a sequence. -/
def replayTenth (requestId originId sequence : Nat) : MarkerInput :=
  .replay 20
    { requestId := Uuid.ofNat requestId, fingerprint := "", createdMs := 10, expiresMs := 180010,
      originId := Uuid.ofNat originId, sequence, effect := .presence tenthMillisecond }
    "0-1" false .done

theorem markers_ordered_replayTenth :
    (MarkerState.machine.exec {} [replayTenth 1 7 1, replayTenth 2 7 2]).2.length = 2 ∧
    ∀ pre i, pre ++ [i] <+: [replayTenth 1 7 1, replayTenth 2 7 2] →
      InOrder (MarkerState.machine.exec {} pre).2 (MarkerState.machine.exec {} pre).1 i := by
  have hrun : (MarkerState.machine.exec {} [replayTenth 1 7 1, replayTenth 2 7 2]).2 =
      [⟨"a", Uuid.ofNat 7, 1, 10⟩, ⟨"a", Uuid.ofNat 7, 2, 10⟩] := by
    decide
  refine ⟨by rw [hrun]; rfl, (markers_ordered _).2.2.mpr ?_⟩
  rw [hrun]
  intro agent originId
  refine List.Pairwise.filter _ ?_
  simp

/-- Fifteen digits are not kept, so an origin's own marker lets its older presence pass. -/
example : ¬ Ascending (MarkerState.machine.exec {}
    [replayTenth 1 7 100000000000004, replayTenth 2 7 100000000000003]).2 := by
  have hrun : (MarkerState.machine.exec {}
      [replayTenth 1 7 100000000000004, replayTenth 2 7 100000000000003]).2 =
      [⟨"a", Uuid.ofNat 7, 100000000000004, 10⟩, ⟨"a", Uuid.ofNat 7, 100000000000003, 10⟩] := by
    decide
  rw [hrun]
  intro h
  simpa using h "a" (Uuid.ofNat 7)

/-- A second origin takes the marker over in the same millisecond, and the first one's older
presence takes effect after its newer one. -/
theorem markers_unordered_replayTenth :
    (∀ m, (MarkerState.machine.exec {}
      [replayTenth 1 7 2, replayTenth 2 8 1, replayTenth 3 7 1]).1.db.markers "a" = some m →
        ∀ t ∈ m.deadline, 20 ≤ t) ∧
    ((MarkerState.machine.exec {}
      [replayTenth 1 7 2, replayTenth 2 8 1, replayTenth 3 7 1]).2.filter fun a =>
        a.agent = "a" ∧ a.originId = Uuid.ofNat 7).map (fun a => a.sequence) = [2, 1] ∧
    ¬ Ascending (MarkerState.machine.exec {}
      [replayTenth 1 7 2, replayTenth 2 8 1, replayTenth 3 7 1]).2 := by
  have hrun : (MarkerState.machine.exec {}
      [replayTenth 1 7 2, replayTenth 2 8 1, replayTenth 3 7 1]).2 =
      [⟨"a", Uuid.ofNat 7, 2, 10⟩, ⟨"a", Uuid.ofNat 8, 1, 10⟩, ⟨"a", Uuid.ofNat 7, 1, 10⟩] := by
    decide
  have hdeadline : ((MarkerState.machine.exec {} [replayTenth 1 7 2, replayTenth 2 8 1,
      replayTenth 3 7 1]).1.db.markers "a").all (fun m => m.deadline.all (20 ≤ ·)) = true := by
    decide
  have hsequences : (([⟨"a", Uuid.ofNat 7, 2, 10⟩, ⟨"a", Uuid.ofNat 8, 1, 10⟩,
      ⟨"a", Uuid.ofNat 7, 1, 10⟩] : List Application).filter fun a =>
        a.agent = "a" ∧ a.originId = Uuid.ofNat 7).map (fun a => a.sequence) = [2, 1] := by
    decide
  rw [hrun]
  refine ⟨?_, hsequences, ?_⟩
  · intro m hm t ht
    rw [hm] at hdeadline
    have hall : ∀ t ∈ m.deadline, 20 ≤ t := by simpa [Option.all_eq_true] using hdeadline
    exact hall t ht
  · intro h
    have hpair := List.pairwise_map.mpr (h "a" (Uuid.ofNat 7))
    rw [hsequences] at hpair
    simp at hpair

end AgentHub.Hub
