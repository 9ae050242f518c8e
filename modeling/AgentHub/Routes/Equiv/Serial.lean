import AgentHub.Routes.Equiv.Resolve

/-!
# The walk is a schedule of the races

* `walk_schedule`: what a walk reports and finds is what a race reports and finds when each task is
  started and joined in turn.
* `walkStages_schedule`: so a serial resolution is a run of the concurrent one, with the same
  contacts and, up to the losers it lists, the same answer.

`authority_barrier` states what both resolutions contact and may answer.
-/

namespace AgentHub.Routes

open Resolution

/-- A race as a machine. -/
def racer (accept : Nat → ProbeInfo → Bool) : Machine RaceState RaceEvent Report :=
  ⟨RaceState.step accept⟩

/-- An event of the schedule a walk stands for. -/
def Scheduled {σ : Type} (probe : SerialProbe σ) (slots : List Slot) : RaceEvent → Prop
  | .start _ => True
  | .join slot probed _ => ∃ s state, slots[slot]? = some s ∧
      probed = .ofAnswer (probe state s.url).1.1
  | .broke _ => False
  | .drop => False

/-! ### One stage -/

section Walk

variable {σ : Type} {accept : Nat → ProbeInfo → Bool} {probe : SerialProbe σ}

theorem slot_won {w : Walk σ} (h : w.winner.isSome = true) (p : Slot × Nat) :
    w.slot accept probe p = { w with outcomes := w.outcomes ++ [.failed .skipped] } := if_pos h

theorem slot_skipped {w : Walk σ} (h : w.winner = none) {p : Slot × Nat} {reason : ProbeFailure}
    (hskip : p.1.skip = some reason) :
    w.slot accept probe p = { w with outcomes := w.outcomes ++ [.failed reason] } := by
  simp [Walk.slot, h, hskip]

theorem slot_probed {w : Walk σ} (h : w.winner = none) {p : Slot × Nat} (hskip : p.1.skip = none)
    {outcome : SlotOutcome} {report : Report} {winner : Option Winner}
    (hjudge : judge accept p.2 (probe w.state p.1.url).1.2
      (.ofAnswer (probe w.state p.1.url).1.1) = (outcome, report, winner)) :
    w.slot accept probe p = {
      state := (probe w.state p.1.url).2
      outcomes := w.outcomes ++ [outcome]
      winner
      reports := w.reports ++ [.started p.2, report] } := by
  simp [Walk.slot, h, hskip, hjudge]

theorem foldl_won {ps : List (Slot × Nat)} : ∀ {w : Walk σ}, w.winner.isSome = true →
    (ps.foldl (Walk.slot accept probe) w).reports = w.reports ∧
      (ps.foldl (Walk.slot accept probe) w).winner = w.winner ∧
      (ps.foldl (Walk.slot accept probe) w).state = w.state := by
  induction ps with
  | nil => simp
  | cons p ps ih =>
    intro w h
    rw [List.foldl_cons, slot_won h]
    exact @ih { w with outcomes := w.outcomes ++ [.failed .skipped] } h

/-- A race with nothing started from the slot `k` on, and everything before it joined. -/
structure Fresh (slots : List Slot) (k : Nat) (race : RaceState) : Prop where
  nodup : race.pending.Nodup
  started : ∀ j ∈ race.started, j < k
  pending : race.winner = none →
    ∀ j, j ∈ race.pending ↔ k ≤ j ∧ ∃ s, slots[j]? = some s ∧ s.skip = none

/-- **A walk is a schedule of the race**: start and join each task in turn until one wins. -/
theorem walk_schedule {slots : List Slot} (rest : List Slot) : ∀ (k : Nat) (w : Walk σ)
    (race : RaceState), slots.drop k = rest → race.winner = w.winner → Fresh slots k race →
    ∃ events, (∀ e ∈ events, Scheduled probe slots e) ∧
      ((rest.zipIdx k).foldl (Walk.slot accept probe) w).reports =
        w.reports ++ ((racer accept).exec race events).2 ∧
      ((racer accept).exec race events).1.winner =
        ((rest.zipIdx k).foldl (Walk.slot accept probe) w).winner ∧
      (((rest.zipIdx k).foldl (Walk.slot accept probe) w).winner = none →
        ((racer accept).exec race events).1.pending = []) := by
  induction rest with
  | nil =>
    intro k w race hdrop hwinner hfresh
    refine ⟨[], by simp, by simp, hwinner, fun hnone => ?_⟩
    rw [Machine.exec_nil, List.eq_nil_iff_forall_not_mem]
    intro j hj
    -- no slot is left
    obtain ⟨hle, s, hs, -⟩ := (hfresh.pending (hwinner.trans hnone) j).1 hj
    have hlen : slots.length ≤ k := List.drop_eq_nil_iff.1 hdrop
    have hlt := (List.getElem?_eq_some_iff.1 hs).1
    omega
  | cons s rest ih =>
    intro k w race hdrop hwinner hfresh
    have hs : slots[k]? = some s := by
      have hget := congrArg (·[0]?) hdrop
      simpa using hget
    have hrest : slots.drop (k + 1) = rest := by
      have htail := congrArg List.tail hdrop
      simpa using htail
    rw [List.zipIdx_cons, List.foldl_cons]
    by_cases hwon : w.winner.isSome = true
    · -- the walk has its winner, so the race is over too
      obtain ⟨hreports, hkept, -⟩ :=
        @foldl_won σ accept probe (rest.zipIdx (k + 1)) (w.slot accept probe (s, k))
          (by rw [slot_won hwon]; exact hwon)
      refine ⟨[], by simp, ?_, ?_, fun hnone => ?_⟩
      · rw [hreports, slot_won hwon]
        simp
      · rw [hkept, slot_won hwon]
        exact hwinner
      · rw [hkept, slot_won hwon] at hnone
        rw [show w.winner = none from hnone] at hwon
        cases hwon
    have hnone : w.winner = none := by simpa using hwon
    -- a skipped slot is not pending in the race either
    cases hskip : s.skip with
    | some reason =>
      rw [slot_skipped hnone (show (s, k).1.skip = some reason from hskip)]
      refine ih (k + 1) { w with outcomes := w.outcomes ++ [.failed reason] } race hrest hwinner ?_
      refine ⟨hfresh.nodup, fun j hj => Nat.lt_succ_of_lt (hfresh.started j hj), fun h j => ?_⟩
      rw [hfresh.pending h j]
      constructor
      · rintro ⟨hle, t, ht, htskip⟩
        refine ⟨?_, t, ht, htskip⟩
        rcases Nat.lt_or_eq_of_le hle with hlt | rfl
        · exact hlt
        · rw [hs] at ht
          rw [← Option.some.inj ht, hskip] at htskip
          cases htskip
      · rintro ⟨hle, ht⟩
        exact ⟨by omega, ht⟩
    | none =>
      -- the slot is probed: in the race it starts and joins at once
      have hrace : race.winner = none := hwinner.trans hnone
      have hpending : k ∈ race.pending := (hfresh.pending hrace k).2 ⟨le_rfl, s, hs, hskip⟩
      have hidle : k ∉ race.started := fun h => absurd (hfresh.started k h) (lt_irrefl k)
      obtain ⟨outcome, report, winner, hjudge⟩ : ∃ outcome report winner,
          judge accept k (probe w.state s.url).1.2 (.ofAnswer (probe w.state s.url).1.1) =
            (outcome, report, winner) := ⟨_, _, _, rfl⟩
      rw [slot_probed hnone (show (s, k).1.skip = none from hskip) hjudge]
      let started : RaceState := { race with started := k :: race.started }
      let joined : RaceState := { started with
        pending := started.pending.erase k
        outcomes := Function.update started.outcomes k (some outcome)
        winner }
      have htwo : (racer accept).exec race [.start k,
          .join k (.ofAnswer (probe w.state s.url).1.1) (probe w.state s.url).1.2] =
            (joined, [.started k, report]) := by
        have hfirst : race.step accept (.start k) = (started, [.started k]) :=
          step_start ⟨hpending, hidle⟩
        have hsecond : started.step accept (.join k (.ofAnswer (probe w.state s.url).1.1)
            (probe w.state s.url).1.2) = (joined, [report]) :=
          @step_join accept started k _ _ ⟨hrace, hpending, List.mem_cons_self⟩ _ _ _ hjudge
        simp [Machine.exec, Machine.extend, racer, hfirst, hsecond]
      -- the slots behind it are as they were
      have hfresh' : Fresh slots (k + 1) joined := by
        refine ⟨hfresh.nodup.erase k, ?_, fun _ j => ?_⟩
        · intro j hj
          rcases List.mem_cons.1 hj with rfl | hj
          · exact Nat.lt_succ_self j
          · exact Nat.lt_succ_of_lt (hfresh.started j hj)
        · show j ∈ race.pending.erase k ↔ _
          rw [hfresh.nodup.mem_erase_iff, hfresh.pending hrace j]
          constructor
          · rintro ⟨hne, hle, ht⟩
            exact ⟨by omega, ht⟩
          · rintro ⟨hle, ht⟩
            exact ⟨by omega, by omega, ht⟩
      -- the rest of the walk is matched by induction
      obtain ⟨events, hscheduled, hreports, hwinner', hempty⟩ :=
        ih (k + 1) {
          state := (probe w.state s.url).2
          outcomes := w.outcomes ++ [outcome]
          winner
          reports := w.reports ++ [.started k, report] } joined hrest rfl hfresh'
      refine ⟨[.start k, .join k (.ofAnswer (probe w.state s.url).1.1)
        (probe w.state s.url).1.2] ++ events, ?_, ?_, ?_, ?_⟩
      · intro e he
        rcases List.mem_append.1 he with he | he
        · simp only [List.mem_cons, List.not_mem_nil, or_false] at he
          rcases he with rfl | rfl
          · trivial
          · exact ⟨s, w.state, hs, rfl⟩
        · exact hscheduled e he
      · rw [Machine.exec_append, htwo, hreports]
        simp
      · rw [Machine.exec_append, htwo, hwinner']
      · rw [Machine.exec_append, htwo]
        exact hempty

theorem fresh_begin (slots : List Slot) : Fresh slots 0 (RaceState.begin slots) := by
  refine ⟨?_, by simp [RaceState.begin], fun _ j => ?_⟩
  · have hsub : ((slots.zipIdx.filter fun p => p.1.skip.isNone).map Prod.snd).Sublist
        (slots.zipIdx.map Prod.snd) := List.filter_sublist.map _
    rw [List.zipIdx_map_snd] at hsub
    exact List.Nodup.sublist hsub List.nodup_range'
  · simp only [RaceState.begin, List.mem_map, List.mem_filter, List.mem_zipIdx_iff_getElem?,
      Prod.exists, Option.isNone_iff_eq_none]
    constructor
    · rintro ⟨s, i, ⟨hs, hskip⟩, rfl⟩
      exact ⟨Nat.zero_le _, s, hs, hskip⟩
    · rintro ⟨-, s, hs, hskip⟩
      exact ⟨s, j, ⟨hs, hskip⟩, rfl⟩

end Walk

/-! ### One resolution -/

namespace Resolution

variable {res : Resolution}

/-- Events of one stage other than its end are events of its race. -/
theorem exec_racing {routes : List PlannedRoute} {rest : List (List PlannedRoute)}
    {race : RaceState} {tally : Tally} {events : List RaceEvent} (h : ∀ e ∈ events, e ≠ .drop) :
    res.resolver.exec (.racing routes rest race tally) events =
      (.racing routes rest ((racer (res.accepts routes)).exec race events).1 tally,
        ((racer (res.accepts routes)).exec race events).2.map (contact routes)) := by
  induction events using List.reverseRecOn with
  | nil => rfl
  | append_singleton events e ih =>
    have hstep : ∀ race', res.step (.racing routes rest race' tally) e =
        (.racing routes rest (race'.step (res.accepts routes) e).1 tally,
          (race'.step (res.accepts routes) e).2.map (contact routes)) := by
      intro race'
      cases e with
      | drop => exact absurd rfl (h .drop (by simp))
      | start slot => rfl
      | join slot probed rtt => rfl
      | broke slot => rfl
    rw [Machine.exec_snoc, Machine.exec_snoc, ih fun e he => h e (by simp [he])]
    simp [Machine.extend, resolver, racer, hstep]

/-- Two answers that differ in what they list of the routes that did not win. -/
def SameAnswer : HubBackend → HubBackend → Prop
  | .remote url authoritative build _ _, .remote url' authoritative' build' _ _ =>
    url = url' ∧ authoritative = authoritative' ∧ build = build'
  | .offline _ _, .offline _ _ => True
  | .localOnly, .localOnly => True
  | _, _ => False

/-- What the surroundings deliver to a phase: the answer of a fixed probe for the URL of a slot. -/
def Delivers (res : Resolution) (answer : String → Option ProbeInfo) : Phase → RaceEvent → Prop
  | .racing routes _ _ _, .join slot probed _ => ∀ route, routes[slot]? = some route →
      probed = .ofAnswer (answer (res.candidate route).url)
  | _, .broke _ => False
  | _, _ => True

/-- Each event delivers, to the phase it finds, what the probe answers. -/
def Delivered (res : Resolution) (answer : String → Option ProbeInfo) :
    Phase → List RaceEvent → Prop
  | _, [] => True
  | phase, e :: es => res.Delivers answer phase e ∧ res.Delivered answer (res.step phase e).1 es

theorem delivers_drop {answer : String → Option ProbeInfo} (phase : Phase) :
    res.Delivers answer phase .drop := by
  cases phase <;> trivial

theorem exec_cons (phase : Phase) (e : RaceEvent) (es : List RaceEvent) :
    res.resolver.exec phase (e :: es) =
      ((res.resolver.exec (res.step phase e).1 es).1,
        (res.step phase e).2 ++ (res.resolver.exec (res.step phase e).1 es).2) := by
  exact Machine.exec_cons _ phase e es

theorem delivered_append {answer : String → Option ProbeInfo} {es fs : List RaceEvent} :
    ∀ {phase : Phase}, res.Delivered answer phase (es ++ fs) ↔
      res.Delivered answer phase es ∧ res.Delivered answer (res.resolver.exec phase es).1 fs := by
  induction es with
  | nil => simp [Delivered]
  | cons e es ih =>
    intro phase
    rw [List.cons_append, Delivered, Delivered, ih, exec_cons, and_assoc]

theorem delivered_race {answer : String → Option ProbeInfo} {routes : List PlannedRoute}
    {rest : List (List PlannedRoute)} {tally : Tally} {events : List RaceEvent} :
    ∀ {race : RaceState}, (∀ e ∈ events, e ≠ .drop ∧
      ∀ race', res.Delivers answer (.racing routes rest race' tally) e) →
      res.Delivered answer (.racing routes rest race tally) events := by
  induction events with
  | nil => exact fun _ => trivial
  | cons e es ih =>
    intro race h
    refine ⟨(h e (by simp)).2 race, ?_⟩
    have hstep : ∃ race', (res.step (.racing routes rest race tally) e).1 =
        .racing routes rest race' tally := by
      cases e with
      | drop => exact absurd rfl (h .drop (by simp)).1
      | start slot => exact ⟨_, rfl⟩
      | join slot probed rtt => exact ⟨_, rfl⟩
      | broke slot => exact ⟨_, rfl⟩
    obtain ⟨race', hrace'⟩ := hstep
    rw [hrace']
    exact ih fun e he => h e (by simp [he])

/-- **A serial resolution is a run of the concurrent one.**  When its probe answers each URL in one
way, so does the run. -/
theorem walkStages_schedule {σ : Type} (probe : SerialProbe σ)
    (answer : String → Option ProbeInfo) (stages : List (List PlannedRoute)) : ∀ (state : σ)
    (tally tally' : Tally), ∃ events answer', SameAnswer
        (res.walkStages probe state tally stages).answer.1 answer'.1 ∧
      res.resolver.exec (res.openStage tally' stages) events =
        (.done answer', (res.walkStages probe state tally stages).contacts) ∧
      ((∀ s url, (probe s url).1.1 = answer url) →
        res.Delivered answer (res.openStage tally' stages) events) := by
  induction stages with
  | nil =>
    intro state tally tally'
    exact ⟨[], exhausted tally', trivial, rfl, fun _ => trivial⟩
  | cons routes rest ih =>
    intro state tally tally'
    obtain ⟨events, hscheduled, hreports, hwinner, hempty⟩ :=
      @walk_schedule σ (res.accepts routes) probe (res.slots routes) (res.slots routes) 0 { state }
        (RaceState.begin (res.slots routes)) rfl rfl (fresh_begin _)
    have hnodrop : ∀ e ∈ events, e ≠ .drop := by
      rintro e he rfl
      exact hscheduled _ he
    have hrun := @exec_racing res routes rest (RaceState.begin (res.slots routes)) tally' _ hnodrop
    have hdelivered : (∀ s url, (probe s url).1.1 = answer url) →
        res.Delivered answer (res.openStage tally' (routes :: rest)) events := by
      intro hfixed
      apply delivered_race
      intro e he
      refine ⟨hnodrop e he, fun race' => ?_⟩
      have hevent := hscheduled e he
      cases e with
      | start slot => trivial
      | drop => trivial
      | broke slot => exact hevent
      | join slot probed rtt =>
        intro route hroute
        obtain ⟨s, state', hs, rfl⟩ := hevent
        simp only [Resolution.slots, List.getElem?_map, hroute, Option.map_some,
          Option.some.injEq] at hs
        rw [hfixed, ← hs]
    -- the race is over where the walk is, and both have the same winner
    let w := walk (res.accepts routes) probe (res.slots routes) state
    let race := ((racer (res.accepts routes)).exec (RaceState.begin (res.slots routes)) events).1
    have hsame : race.winner = w.winner := hwinner
    have hover : race.over = true := by
      cases hw : w.winner with
      | none => simp [RaceState.over, hempty hw, race]
      | some winner => simp [RaceState.over, hsame, hw]
    have hclose : res.resolver.exec (res.openStage tally' (routes :: rest)) (events ++ [.drop]) =
        (res.closeStage routes rest race tally', w.reports.map (contact routes)) := by
      have hdrop : res.step (.racing routes rest race tally') .drop =
          (res.closeStage routes rest race tally', []) := by
        simp [Resolution.step, hover]
      have hreports' : ((racer (res.accepts routes)).exec (RaceState.begin (res.slots routes))
          events).2 = w.reports := by
        rw [show w.reports = _ from hreports]
        rfl
      rw [Machine.exec_append]
      simp only [openStage, hrun, exec_cons, Machine.exec_nil, hreports']
      rw [show res.step (.racing routes rest _ tally') .drop = _ from hdrop]
      simp
    cases hbind : w.winner.bind fun winner => routes[winner.slot]?.map fun route => (route, winner) with
    | some p =>
      obtain ⟨route, winner⟩ := p
      refine ⟨events ++ [.drop], res.succeed route winner (res.record tally' routes
        race.result.outcomes), ?_, ?_, fun hfixed => ?_⟩
      · simp only [walkStages]
        rw [show (walk (res.accepts routes) probe (res.slots routes) state).winner.bind _ = _
          from hbind]
        exact ⟨rfl, rfl, rfl⟩
      · rw [hclose]
        simp only [closeStage, hsame, hbind, walkStages]
        rw [show (walk (res.accepts routes) probe (res.slots routes) state).winner.bind _ = _
          from hbind]
      · exact delivered_append.2 ⟨hdelivered hfixed, delivers_drop _, trivial⟩
    | none =>
      obtain ⟨more, answer', hanswer, hmore, hfixed'⟩ :=
        ih w.state (res.record tally routes w.outcomes) (res.record tally' routes race.result.outcomes)
      have hopen : res.closeStage routes rest race tally' =
          res.openStage (res.record tally' routes race.result.outcomes) rest := by
        simp only [closeStage, hsame, hbind]
      have hwalk : res.walkStages probe state tally (routes :: rest) =
          { res.walkStages probe w.state (res.record tally routes w.outcomes) rest with
            contacts := w.reports.map (contact routes) ++
              (res.walkStages probe w.state (res.record tally routes w.outcomes) rest).contacts } := by
        simp only [walkStages]
        rw [show (walk (res.accepts routes) probe (res.slots routes) state).winner.bind _ = _
          from hbind]
      refine ⟨(events ++ [.drop]) ++ more, answer', ?_, ?_, fun hfixed => ?_⟩
      · rw [hwalk]
        exact hanswer
      · rw [Machine.exec_append, hclose, hopen, hmore, hwalk]
      · refine delivered_append.2 ⟨delivered_append.2 ⟨hdelivered hfixed, delivers_drop _, trivial⟩, ?_⟩
        rw [hclose, hopen]
        exact hfixed' hfixed

end Resolution

/-! ### The barrier -/

/-- The credential of the candidate can be resolved. -/
def Usable (w : Surroundings) (settings : Settings) (index : Nat) (candidate : HubCandidate) :
    Prop :=
  ∃ token, HubAuth.credentialFor w.crate ⟨settings.authToken, settings.effectiveHubCandidates⟩
    candidate (w.envAt index) = .ok token

/-- The backend of a resolution that has ended. -/
def Resolution.Phase.backend : Phase → Option HubBackend
  | .racing _ _ _ _ => none
  | .done answer => some answer.1

/-- What a resolution contacts, and what it may answer, if it has answered. -/
structure Respects (w : Surroundings) (settings : Settings) (authorityOnly : Bool)
    (contacts : List Contact) (answer : Option HubBackend) : Prop where
  /-- Local mode is without candidates, in a valid configuration. -/
  localOnly : answer = some .localOnly →
    settings.effectiveHubCandidates = [] ∧ invalidConfig w.crate settings = false
  /-- An invalid configuration contacts nothing. -/
  refused : invalidConfig w.crate settings = true → contacts = []
  /-- Another store waits for every usable route to the authority. -/
  barrier : ∀ before i after c, contacts = before ++ .started i :: after →
    settings.effectiveHubCandidates[i]? = some c → c.role ≠ .authoritative →
      authorityOnly = false ∧ ∀ a d, settings.effectiveHubCandidates[a]? = some d →
        d.role = .authoritative → Usable w settings a d → Settled before a
  /-- Only candidates with a credential are contacted. -/
  credential : ∀ i, .started i ∈ contacts →
    ∃ c, settings.effectiveHubCandidates[i]? = some c ∧ Usable w settings i c
  /-- An authoritative answer is one of the authority, as the hub it is configured to be. -/
  authority : ∀ url build tried probes, answer = some (.remote url true build tried probes) →
    ∃ i c info, settings.effectiveHubCandidates[i]? = some c ∧ c.url = url ∧
      c.role = .authoritative ∧ .accepted i info ∈ contacts ∧ identityMatches c info = true
  /-- Offline means that every planned candidate failed. -/
  offline : ∀ tried probes, answer = some (.offline tried probes) →
    invalidConfig w.crate settings = false → ∀ i c,
      settings.effectiveHubCandidates[i]? = some c →
      (authorityOnly = true → c.role = .authoritative) → Usable w settings i c → Settled contacts i

/-- The routes of a stage are candidates of the list. -/
theorem Staged.candidate {res : Resolution} {authorityOnly : Bool} (h : Staged res authorityOnly)
    {stage : List PlannedRoute} (hstage : stage ∈ res.stages) {route : PlannedRoute}
    (hroute : route ∈ stage) : res.candidates[route.index]? = some (res.candidate route) := by
  obtain ⟨group, ⟨_, _, _, _, hstore⟩, hmem⟩ := h.store stage hstage
  obtain ⟨c, hc, -⟩ := hstore _ (hmem route hroute)
  simp [Resolution.candidate, hc]

theorem open_iff_usable {w : Surroundings} {settings : Settings} {res : Resolution}
    (hw : res.surroundings = w)
    (hauth : res.auth = ⟨settings.authToken, settings.effectiveHubCandidates⟩)
    (route : PlannedRoute) :
    res.Open route ↔ Usable w settings route.index (res.candidate route) := by
  subst hw
  unfold Resolution.Open Resolution.usable Usable
  rw [hauth]
  split
  next token h => exact ⟨fun _ => ⟨token, h⟩, fun _ => rfl⟩
  next e h =>
    constructor
    · intro hfalse
      cases hfalse
    · rintro ⟨token, htoken⟩
      rw [h] at htoken
      cases htoken

/-- A run of the races respects the barrier. -/
theorem respects_exec {w : Surroundings} {settings : Settings} {authorityOnly : Bool}
    {res : Resolution} (hbegin : Resolution.begin w settings authorityOnly = .ok res)
    (events : List RaceEvent) :
    Respects w settings authorityOnly (res.resolver.exec res.start events).2
      (res.resolver.exec res.start events).1.backend := by
  obtain ⟨hstaged, hcandidates, hw, hauth, hvalid, hnonempty⟩ := stages_split hbegin
  obtain ⟨horder, hphase⟩ := res.exec_inv events
  obtain ⟨authority, others, hstages, hauthorityRole, hothersRole, honly, hauthorityMem, hmem⟩ :=
    hstaged.split
  have husable : ∀ stage ∈ res.stages, ∀ route ∈ stage, ∀ c,
      settings.effectiveHubCandidates[route.index]? = some c → c = res.candidate route := by
    intro stage hstage route hroute c hc
    rw [← hcandidates, hstaged.candidate hstage hroute] at hc
    exact (Option.some.inj hc).symm
  have hsettled : ∀ (log : List Contact) (stages : List (List PlannedRoute)),
      (∀ stage ∈ stages, stage ∈ res.stages) →
      (∀ stage ∈ stages, res.Exhausted log stage) → ∀ i c,
        settings.effectiveHubCandidates[i]? = some c →
        (∃ stage ∈ stages, ∃ route ∈ stage, route.index = i) → Usable w settings i c →
          Settled log i := by
    rintro log stages hsub hexhausted i c hc ⟨stage, hstage, route, hroute, rfl⟩ hopen
    apply hexhausted stage hstage route hroute
    rw [open_iff_usable hw hauth, ← husable stage (hsub stage hstage) route hroute c hc]
    exact hopen
  generalize (res.resolver.exec res.start events).2 = contacts at horder hphase ⊢
  generalize (res.resolver.exec res.start events).1 = phase at hphase ⊢
  constructor
  · intro h
    cases phase with
    | racing routes rest race tally => cases h
    | done answer =>
      rcases hphase with ⟨_, _, _, route, winner, tally, -, -, -, rfl⟩ | ⟨tally, rfl, -⟩ <;> cases h
  · intro h
    rw [hvalid] at h
    cases h
  · intro before i after c hsplit hc hrole
    obtain ⟨passed, routes, rest, hpassed, ⟨route, hroute, rfl, -⟩, hexhausted⟩ :=
      horder before i after hsplit
    have hnotin : routes ∉ authority := by
      intro hin
      exact hrole (hauthorityRole routes hin route hroute c (by rw [hcandidates]; exact hc))
    have hothers : routes ∈ others := by
      have hin : routes ∈ authority ++ others := by
        rw [← hstages, hpassed]
        simp
      exact (List.mem_append.1 hin).resolve_left hnotin
    -- the stages of the authority are all behind the one of the contact
    have hbehind : ∀ stage ∈ authority, stage ∈ passed := by
      rw [hstages] at hpassed
      rcases List.append_eq_append_iff.1 hpassed with ⟨mid, rfl, -⟩ | ⟨mid, hmid, htail⟩
      · exact fun stage hs => List.mem_append_left _ hs
      · cases mid with
        | nil =>
          rw [List.append_nil] at hmid
          exact fun stage hs => hmid ▸ hs
        | cons x xs =>
          rw [List.cons_append, List.cons.injEq] at htail
          exact absurd (by rw [hmid, htail.1]; simp) hnotin
    refine ⟨?_, fun a d hd hdrole hopen => ?_⟩
    · rw [Bool.eq_false_iff]
      intro h
      rw [honly h] at hothers
      cases hothers
    · obtain ⟨stage, hstage, hindex⟩ := hauthorityMem a d (by rw [hcandidates]; exact hd) hdrole
      exact hsettled before passed (fun s hs => by rw [hpassed]; simp [hs]) hexhausted a d hd
        ⟨stage, hbehind stage hstage, hindex⟩ hopen
  · intro i hi
    obtain ⟨before, after, hsplit⟩ := List.append_of_mem hi
    obtain ⟨passed, routes, rest, hpassed, ⟨route, hroute, rfl, hopen⟩, -⟩ :=
      horder before i after hsplit
    have hstage : routes ∈ res.stages := by
      rw [hpassed]
      simp
    refine ⟨res.candidate route, ?_, (open_iff_usable hw hauth route).1 hopen⟩
    rw [← hcandidates]
    exact hstaged.candidate hstage hroute
  · intro url build tried probes h
    cases phase with
    | racing routes rest race tally => cases h
    | done answer =>
      rcases hphase with ⟨passed, routes, rest, route, winner, tally, hpassed, -, haccepted, rfl⟩ |
        ⟨tally, rfl, -⟩
      · obtain ⟨hroute, -, hlog, hmatch⟩ := haccepted
        have hstage : routes ∈ res.stages := by
          rw [hpassed]
          simp
        simp only [Phase.backend, succeed, Option.some.injEq, HubBackend.remote.injEq,
          decide_eq_true_eq] at h
        refine ⟨route.index, res.candidate route, winner.info, ?_, h.1, h.2.1, hlog, hmatch⟩
        rw [← hcandidates]
        exact hstaged.candidate hstage hroute
      · cases h
  · intro tried probes h _ i c hc hrole hopen
    cases phase with
    | racing routes rest race tally => cases h
    | done answer =>
      rcases hphase with ⟨_, _, _, route, winner, tally, -, -, -, rfl⟩ | ⟨tally, rfl, hall⟩
      · cases h
      · exact hsettled contacts res.stages (fun s hs => hs) hall i c hc
          (hmem i c (by rw [hcandidates]; exact hc) hrole) hopen

theorem Respects.congr {w : Surroundings} {settings : Settings} {authorityOnly : Bool}
    {contacts : List Contact} {a b : HubBackend} (hsame : SameAnswer a b)
    (h : Respects w settings authorityOnly contacts (some b)) :
    Respects w settings authorityOnly contacts (some a) := by
  refine ⟨?_, h.refused, h.barrier, h.credential, ?_, ?_⟩
  · intro ha
    obtain rfl := Option.some.inj ha
    cases b with
    | localOnly => exact h.localOnly rfl
    | remote url authoritative build tried probes => exact hsame.elim
    | offline tried probes => exact hsame.elim
  · intro url build tried probes ha
    obtain rfl := Option.some.inj ha
    cases b with
    | localOnly => exact hsame.elim
    | remote url' authoritative build' tried' probes' =>
      obtain ⟨rfl, rfl, rfl⟩ := hsame
      exact h.authority _ _ _ _ rfl
    | offline tried probes => exact hsame.elim
  · intro tried probes ha
    obtain rfl := Option.some.inj ha
    cases b with
    | localOnly => exact hsame.elim
    | remote url authoritative build tried probes => exact hsame.elim
    | offline tried' probes' => exact h.offline _ _ rfl

/-- What `Resolution::begin` refuses: an invalid configuration, and none. -/
theorem begin_error {w : Surroundings} {settings : Settings} {authorityOnly : Bool}
    {backend : HubBackend} (h : Resolution.begin w settings authorityOnly = .error backend) :
    (invalidConfig w.crate settings = true ∧ backend = .offline settings.serverUrls []) ∨
      (invalidConfig w.crate settings = false ∧ settings.effectiveHubCandidates = [] ∧
        backend = .localOnly) := by
  unfold Resolution.begin at h
  dsimp only at h
  split_ifs at h with hconfig hempty
  · exact .inl ⟨hconfig, (Except.error.inj h).symm⟩
  · exact .inr ⟨by simpa using hconfig, hempty, (Except.error.inj h).symm⟩

theorem respects_refused {w : Surroundings} {settings : Settings} {authorityOnly : Bool}
    {backend : HubBackend} (h : Resolution.begin w settings authorityOnly = .error backend) :
    Respects w settings authorityOnly [] (some backend) := by
  refine ⟨?_, fun _ => rfl, by simp, by simp, ?_, ?_⟩
  · intro hbackend
    rcases begin_error h with ⟨-, rfl⟩ | ⟨hvalid, hempty, -⟩
    · cases hbackend
    · exact ⟨hempty, hvalid⟩
  · intro url build tried probes hbackend
    rcases begin_error h with ⟨-, rfl⟩ | ⟨-, -, rfl⟩ <;> cases hbackend
  · intro tried probes hbackend hvalid i c hc
    rcases begin_error h with ⟨hinvalid, -⟩ | ⟨-, hempty, -⟩
    · rw [hvalid] at hinvalid
      cases hinvalid
    · rw [hempty] at hc
      cases hc

/-- **The authority barrier.**  Both resolutions, the concurrent one after any events of its races,
contact another store only once every usable route to the authority was probed and failed, and answer
accordingly. -/
theorem authority_barrier (w : Surroundings) (settings : Settings) (authorityOnly : Bool) :
    (∀ (σ : Type) (probe : SerialProbe σ) (state : σ), Respects w settings authorityOnly
      (resolveSerial w settings authorityOnly probe state).contacts
      (some (resolveSerial w settings authorityOnly probe state).answer.1)) ∧
    ∀ events, Respects w settings authorityOnly
      (resolveConcurrent w settings authorityOnly events).2
      (resolveConcurrent w settings authorityOnly events).1.backend := by
  unfold resolveSerial resolveConcurrent
  cases hbegin : Resolution.begin w settings authorityOnly with
  | error backend => exact ⟨fun _ _ _ => respects_refused hbegin, fun _ => respects_refused hbegin⟩
  | ok res =>
    refine ⟨fun σ probe state => ?_, respects_exec hbegin⟩
    obtain ⟨events, answer, hsame, hrun, -⟩ :=
      @walkStages_schedule res σ probe (fun _ => none) res.stages state {} {}
    have hrespects := respects_exec hbegin events
    rw [show res.start = res.openStage {} res.stages from rfl, hrun] at hrespects
    exact hrespects.congr hsame

end AgentHub.Routes
