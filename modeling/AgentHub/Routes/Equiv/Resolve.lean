import AgentHub.Routes.Equiv.Plan

/-!
# The authority comes first

* `stages_split`: the stages of the authority are opened before those of any other store.
* `exec_inv`: in every run of the races a route is contacted only when each usable route of the
  stages before its own was probed and failed.
* `walk_schedule`, `walkStages_schedule`: a walk is one schedule of the races, so a serial
  resolution is one run of the concurrent one.

`authority_barrier` states for both what they contact and what they may answer.
-/

namespace AgentHub.Routes

open Resolution

/-! ### Stages -/

def stagesOf (plans : List RoutePlan) : List (List PlannedRoute) :=
  (plans.flatMap fun plan => [plan.primary, plan.deferred]).filter (· ≠ [])

theorem mem_stagesOf {plans : List RoutePlan} {stage : List PlannedRoute}
    (h : stage ∈ stagesOf plans) : ∃ plan ∈ plans, ∀ route ∈ stage, route ∈ plan.routes := by
  obtain ⟨h, -⟩ := List.mem_filter.1 h
  obtain ⟨plan, hplan, h⟩ := List.mem_flatMap.1 h
  refine ⟨plan, hplan, fun route hroute => ?_⟩
  simp only [List.mem_cons, List.not_mem_nil, or_false] at h
  rcases h with rfl | rfl
  · exact List.mem_append_left _ hroute
  · exact List.mem_append_right _ hroute

theorem exists_stage {plans : List RoutePlan} {plan : RoutePlan} (hplan : plan ∈ plans)
    {route : PlannedRoute} (h : route ∈ plan.routes) : ∃ stage ∈ stagesOf plans, route ∈ stage := by
  have hstage : ∀ stage ∈ [plan.primary, plan.deferred], route ∈ stage → stage ∈ stagesOf plans := by
    intro stage hstage hroute
    refine List.mem_filter.2 ⟨List.mem_flatMap.2 ⟨plan, hplan, hstage⟩, ?_⟩
    exact decide_eq_true (List.ne_nil_of_mem hroute)
  rcases List.mem_append.1 h with h | h
  · exact ⟨plan.primary, hstage _ (by simp) h, h⟩
  · exact ⟨plan.deferred, hstage _ (by simp) h, h⟩

/-- The stages of a resolution: first those of the authority, then those of other stores. -/
structure Staged (res : Resolution) (authorityOnly : Bool) : Prop where
  split : ∃ authority others, res.stages = authority ++ others ∧
    (∀ stage ∈ authority, ∀ route ∈ stage, ∀ c, res.candidates[route.index]? = some c →
      c.role = .authoritative) ∧
    (∀ stage ∈ others, ∀ route ∈ stage, ∀ c, res.candidates[route.index]? = some c →
      c.role ≠ .authoritative) ∧
    (authorityOnly = true → others = []) ∧
    (∀ i c, res.candidates[i]? = some c → c.role = .authoritative →
      ∃ stage ∈ authority, ∃ route ∈ stage, route.index = i) ∧
    ∀ i c, res.candidates[i]? = some c → (authorityOnly = true → c.role = .authoritative) →
      ∃ stage ∈ res.stages, ∃ route ∈ stage, route.index = i
  store : ∀ stage ∈ res.stages, ∃ group, StoreGroup res.candidates group ∧
    ∀ route ∈ stage, route.index ∈ group

theorem stages_split {w : Surroundings} {settings : Settings} {authorityOnly : Bool}
    {res : Resolution} (h : Resolution.begin w settings authorityOnly = .ok res) :
    Staged res authorityOnly ∧ res.candidates = settings.effectiveHubCandidates ∧
      res.surroundings = w ∧ res.auth = ⟨settings.authToken, settings.effectiveHubCandidates⟩ ∧
      invalidConfig w.crate settings = false ∧ settings.effectiveHubCandidates ≠ [] := by
  unfold Resolution.begin at h
  dsimp only at h
  split_ifs at h with hconfig hempty
  obtain rfl := Except.ok.inj h
  refine ⟨?_, rfl, rfl, rfl, by simpa using hconfig, hempty⟩
  -- the groups of the authorities come first
  obtain ⟨authority, others, hgroups, hauthority, hothers, honly, hmem, hmem'⟩ :=
    groups_split settings.effectiveHubCandidates authorityOnly
  let plan := groupPlan w.crate settings.effectiveHubCandidates w.locations
    (cachedIndex settings.effectiveHubCandidates authorityOnly w.cache) authorityOnly
    (settings.probeStaggerMs * 1000000)
  have hrole : ∀ g ∈ authority ++ others, ∀ i ∈ g, ∃ c,
      settings.effectiveHubCandidates[i]? = some c ∧
        (authorityOnly = true → c.role = .authoritative) := by
    intro g hg i hi
    rcases List.mem_append.1 hg with hg | hg
    · obtain ⟨⟨_, _, _, _, hstore⟩, hroles⟩ := hauthority g hg
      obtain ⟨c, hc, -⟩ := hstore i hi
      exact ⟨c, hc, fun _ => hroles i hi c hc⟩
    · obtain ⟨⟨_, _, _, _, hstore⟩, -⟩ := hothers g hg
      obtain ⟨c, hc, -⟩ := hstore i hi
      refine ⟨c, hc, fun h => ?_⟩
      rw [honly h] at hg
      cases hg
  -- a plan permutes its group
  have hplan : ∀ g ∈ authority ++ others,
      ((plan g).routes.map PlannedRoute.index).Perm g := fun g hg => groupPlan_perm _ (hrole g hg)
  -- a stage belongs to one group
  have hgroup : ∀ gs : List (List Nat), (∀ g ∈ gs, g ∈ authority ++ others) →
      ∀ stage ∈ stagesOf (gs.map plan), ∃ g ∈ gs, ∀ route ∈ stage, route.index ∈ g := by
    intro gs hgs stage hstage
    obtain ⟨p, hp, hroutes⟩ := mem_stagesOf hstage
    obtain ⟨g, hg, rfl⟩ := List.mem_map.1 hp
    refine ⟨g, hg, fun route hroute => ?_⟩
    exact (hplan g (hgs g hg)).subset (List.mem_map_of_mem (hroutes route hroute))
  -- and every index of a group is in some stage
  have hcover : ∀ gs : List (List Nat), (∀ g ∈ gs, g ∈ authority ++ others) → ∀ i ∈ gs.flatten,
      ∃ stage ∈ stagesOf (gs.map plan), ∃ route ∈ stage, route.index = i := by
    intro gs hgs i hi
    obtain ⟨g, hg, hi⟩ := List.mem_flatten.1 hi
    obtain ⟨route, hroute, rfl⟩ := List.mem_map.1 ((hplan g (hgs g hg)).symm.subset hi)
    obtain ⟨stage, hstage, hmem⟩ := exists_stage (List.mem_map_of_mem hg) hroute
    exact ⟨stage, hstage, route, hmem, rfl⟩
  have hstages : stagesOf ((authority ++ others).map plan) =
      stagesOf (authority.map plan) ++ stagesOf (others.map plan) := by
    simp [stagesOf]
  constructor
  · refine ⟨stagesOf (authority.map plan), stagesOf (others.map plan), ?_, ?_, ?_, ?_, ?_, ?_⟩
    · rw [← hstages, ← hgroups]
      rfl
    · intro stage hstage route hroute c hc
      obtain ⟨g, hg, hin⟩ := hgroup authority (fun g hg => by simp [hg]) stage hstage
      exact (hauthority g hg).2 _ (hin route hroute) c hc
    · intro stage hstage route hroute c hc
      obtain ⟨g, hg, hin⟩ := hgroup others (fun g hg => by simp [hg]) stage hstage
      exact (hothers g hg).2 _ (hin route hroute) c hc
    · intro h
      rw [honly h]
      rfl
    · intro i c hc hcrole
      exact hcover authority (fun g hg => by simp [hg]) i (hmem i c hc hcrole)
    · -- with or without the others, the candidate is in a group
      intro i c hc hcrole
      have hall : i ∈ (authority ++ others).flatten := by
        rw [List.flatten_append]
        by_cases hauth : c.role = .authoritative
        · exact List.mem_append_left _ (hmem i c hc hauth)
        · have hboth : authorityOnly = false := by
            rw [Bool.eq_false_iff]
            exact fun honly => hauth (hcrole honly)
          exact List.mem_append_right _ (hmem' i c hc hauth hboth)
      have hcovered := hcover (authority ++ others) (fun g hg => hg) i hall
      rw [← hgroups] at hcovered
      exact hcovered
  · intro stage hstage
    have hstage' : stage ∈ stagesOf ((authority ++ others).map plan) := by
      rw [← hgroups]
      exact hstage
    obtain ⟨g, hg, hin⟩ := hgroup (authority ++ others) (fun g hg => hg) stage hstage'
    refine ⟨g, ?_, hin⟩
    rcases List.mem_append.1 hg with hg | hg
    · exact (hauthority g hg).1
    · exact (hothers g hg).1

/-! ### Runs of the races -/

/-- The candidate was probed, and its probe did not give an answer that was accepted. -/
def Settled (log : List Contact) (index : Nat) : Prop :=
  .started index ∈ log ∧ ∃ failure,
    (failure = .unhealthy ∨ failure = .identityMismatch ∨ failure = .timedOut) ∧
      .failed index failure ∈ log

theorem Settled.append {log : List Contact} {index : Nat} (h : Settled log index)
    (more : List Contact) : Settled (log ++ more) index := by
  obtain ⟨hstarted, failure, hfailure, hmem⟩ := h
  exact ⟨List.mem_append_left _ hstarted, failure, hfailure, List.mem_append_left _ hmem⟩

namespace Resolution

variable {res : Resolution}

/-- The route may be contacted. -/
def Open (res : Resolution) (route : PlannedRoute) : Prop :=
  res.usable route.index (res.candidate route) = true

/-- Every route of the stage that may be contacted was, and failed. -/
def Exhausted (res : Resolution) (log : List Contact) (stage : List PlannedRoute) : Prop :=
  ∀ route ∈ stage, res.Open route → Settled log route.index

theorem Exhausted.append {log : List Contact} {stage : List PlannedRoute}
    (h : res.Exhausted log stage) (more : List Contact) : res.Exhausted (log ++ more) stage :=
  fun route hroute hopen => (h route hroute hopen).append more

/-- A route of the stage was contacted and its answer accepted. -/
def Accepted (res : Resolution) (log : List Contact) (stage : List PlannedRoute)
    (route : PlannedRoute) (info : ProbeInfo) : Prop :=
  route ∈ stage ∧ res.Open route ∧ .accepted route.index info ∈ log ∧
    identityMatches (res.candidate route) info = true

theorem Accepted.append {log : List Contact} {stage : List PlannedRoute} {route : PlannedRoute}
    {info : ProbeInfo} (h : res.Accepted log stage route info) (more : List Contact) :
    res.Accepted (log ++ more) stage route info :=
  ⟨h.1, h.2.1, List.mem_append_left _ h.2.2.1, h.2.2.2⟩

/-- A contact begins only after the stages before its own are exhausted. -/
def InOrder (res : Resolution) (log : List Contact) : Prop :=
  ∀ before i after, log = before ++ .started i :: after →
    ∃ passed routes rest, res.stages = passed ++ routes :: rest ∧
      (∃ route ∈ routes, route.index = i ∧ res.Open route) ∧
      ∀ stage ∈ passed, res.Exhausted before stage

structure RaceInv (res : Resolution) (routes : List PlannedRoute) (race : RaceState)
    (log : List Contact) : Prop where
  pending : ∀ slot ∈ race.pending, ∃ route, routes[slot]? = some route ∧ res.Open route
  started : ∀ slot ∈ race.started, ∀ route, routes[slot]? = some route →
    .started route.index ∈ log
  settled : race.winner = none → ∀ slot route, routes[slot]? = some route → res.Open route →
    slot ∈ race.pending ∨ Settled log route.index
  winner : ∀ w ∈ race.winner, ∃ route, routes[w.slot]? = some route ∧
    res.Accepted log routes route w.info

theorem raceInv_begin (routes : List PlannedRoute) (log : List Contact) :
    res.RaceInv routes (RaceState.begin (res.slots routes)) log := by
  have hmem : ∀ slot, slot ∈ (RaceState.begin (res.slots routes)).pending ↔
      ∃ route, routes[slot]? = some route ∧ res.Open route := by
    intro slot
    simp only [RaceState.begin, List.mem_map, List.mem_filter, List.mem_zipIdx_iff_getElem?,
      Resolution.slots, List.getElem?_map, Option.map_eq_some_iff, Prod.exists]
    constructor
    · rintro ⟨s, i, ⟨⟨route, hroute, rfl⟩, hskip⟩, rfl⟩
      refine ⟨route, hroute, ?_⟩
      by_contra hclosed
      simp [Open] at hclosed
      simp [hclosed] at hskip
    · rintro ⟨route, hroute, hopen⟩
      exact ⟨_, slot, ⟨⟨route, hroute, rfl⟩, by simp [show res.usable _ _ = true from hopen]⟩, rfl⟩
  exact ⟨fun slot h => (hmem slot).1 h, by simp [RaceState.begin],
    fun _ slot route hroute hopen => .inl ((hmem slot).2 ⟨route, hroute, hopen⟩),
    by simp [RaceState.begin]⟩

theorem RaceInv.append {routes : List PlannedRoute} {race : RaceState} {log : List Contact}
    (h : res.RaceInv routes race log) (more : List Contact) :
    res.RaceInv routes race (log ++ more) where
  pending := h.pending
  started slot hslot route hroute := List.mem_append_left _ (h.started slot hslot route hroute)
  settled hnone slot route hroute hopen :=
    (h.settled hnone slot route hroute hopen).imp_right fun hs => hs.append more
  winner w hw := by
    obtain ⟨route, hroute, haccepted⟩ := h.winner w hw
    exact ⟨route, hroute, haccepted.append more⟩

/-- What `judge` makes of a probe: it wins with an accepted answer, or fails. -/
theorem judge_cases (accept : Nat → ProbeInfo → Bool) (slot rtt : Nat) (probed : Probed) :
    (∃ info, probed = .healthy info ∧ accept slot info = true ∧
      judge accept slot rtt probed =
        (.healthy rtt, .accepted slot info, some ⟨slot, info, rtt⟩)) ∨
    ∃ failure, (failure = .unhealthy ∨ failure = .identityMismatch ∨ failure = .timedOut) ∧
      judge accept slot rtt probed = (.failed failure, .failed slot failure, none) := by
  cases probed with
  | healthy info =>
    by_cases haccept : accept slot info = true
    · exact .inl ⟨info, rfl, haccept, by simp [judge, haccept]⟩
    · exact .inr ⟨.identityMismatch, by simp, by simp [judge, haccept]⟩
  | unhealthy => exact .inr ⟨.unhealthy, by simp, rfl⟩
  | timedOut => exact .inr ⟨.timedOut, by simp, rfl⟩

theorem step_start {accept : Nat → ProbeInfo → Bool} {race : RaceState} {slot : Nat}
    (h : slot ∈ race.pending ∧ slot ∉ race.started) :
    race.step accept (.start slot) =
      ({ race with started := slot :: race.started }, [.started slot]) := if_pos h

theorem step_start_stuck {accept : Nat → ProbeInfo → Bool} {race : RaceState} {slot : Nat}
    (h : ¬(slot ∈ race.pending ∧ slot ∉ race.started)) :
    race.step accept (.start slot) = (race, []) := if_neg h

theorem step_join {accept : Nat → ProbeInfo → Bool} {race : RaceState} {slot rtt : Nat}
    {probed : Probed} (h : race.winner = none ∧ slot ∈ race.pending ∧ slot ∈ race.started)
    {outcome : SlotOutcome} {report : Report} {winner : Option Winner}
    (hjudge : judge accept slot rtt probed = (outcome, report, winner)) :
    race.step accept (.join slot probed rtt) =
      ({ race with
          pending := race.pending.erase slot
          outcomes := Function.update race.outcomes slot (some outcome)
          winner }, [report]) := by
  rw [RaceState.step, if_pos h, hjudge]

theorem step_broke {accept : Nat → ProbeInfo → Bool} {race : RaceState} {slot : Nat}
    (h : race.winner = none ∧ slot ∈ race.pending ∧ slot ∈ race.started) :
    race.step accept (.broke slot) =
      ({ race with pending := race.pending.erase slot }, [.failed slot .unhealthy]) := if_pos h

/-- One event of a race.  It contacts only routes that may be, and settles or accepts what it
joins. -/
theorem RaceInv.step {routes : List PlannedRoute} {race : RaceState} {log : List Contact}
    (h : res.RaceInv routes race log) (event : RaceEvent) :
    res.RaceInv routes (race.step (res.accepts routes) event).1
        (log ++ (race.step (res.accepts routes) event).2.map (contact routes)) ∧
      ∀ i, .started i ∈ (race.step (res.accepts routes) event).2.map (contact routes) →
        (race.step (res.accepts routes) event).2.map (contact routes) = [.started i] ∧
          ∃ route ∈ routes, route.index = i ∧ res.Open route := by
  -- a slot that is joined with a failure
  have hfail : ∀ (slot : Nat) (failure : ProbeFailure) (outcomes : Nat → Option SlotOutcome),
      (failure = .unhealthy ∨ failure = .identityMismatch ∨ failure = .timedOut) →
      race.winner = none → slot ∈ race.pending → slot ∈ race.started →
      res.RaceInv routes { race with
          pending := race.pending.erase slot
          outcomes
          winner := none }
        (log ++ [contact routes (.failed slot failure)]) := by
    intro slot failure outcomes hfailure hnone hpending hstarted
    obtain ⟨route, hroute, hopen⟩ := h.pending slot hpending
    have happend := h.append [contact routes (.failed slot failure)]
    refine ⟨fun s hs => h.pending s (List.mem_of_mem_erase hs), happend.started, ?_, by simp⟩
    intro _ s r hr hropen
    by_cases hs : s = slot
    · subst hs
      rw [hroute] at hr
      obtain rfl := Option.some.inj hr
      refine .inr ⟨List.mem_append_left _ (h.started s hstarted _ hroute), failure, hfailure, ?_⟩
      exact List.mem_append_right _ (by simp [contact, hroute])
    · exact (happend.settled hnone s r hr hropen).imp_left fun hp =>
        (List.mem_erase_of_ne hs).2 hp
  cases event with
  | start slot =>
    by_cases hstart : slot ∈ race.pending ∧ slot ∉ race.started
    · obtain ⟨route, hroute, hopen⟩ := h.pending slot hstart.1
      have hcontact : contact routes (.started slot) = .started route.index := by
        simp [contact, hroute]
      have happend := h.append [contact routes (.started slot)]
      rw [step_start hstart]
      constructor
      · refine ⟨h.pending, ?_, happend.settled, happend.winner⟩
        intro s hs r hr
        rcases List.mem_cons.1 hs with rfl | hs
        · rw [hroute] at hr
          obtain rfl := Option.some.inj hr
          exact List.mem_append_right _ (by simp [contact, hroute])
        · exact happend.started s hs r hr
      · intro i hi
        simp only [List.map_cons, List.map_nil, hcontact, List.mem_singleton] at hi ⊢
        cases hi
        exact ⟨rfl, route, List.mem_of_getElem? hroute, rfl, hopen⟩
    · simpa [step_start_stuck hstart] using h
  | join slot probed rtt =>
    by_cases hjoin : race.winner = none ∧ slot ∈ race.pending ∧ slot ∈ race.started
    · obtain ⟨route, hroute, hopen⟩ := h.pending slot hjoin.2.1
      rcases judge_cases (res.accepts routes) slot rtt probed with
        ⟨info, -, haccept, hjudge⟩ | ⟨failure, hfailure, hjudge⟩
      · rw [step_join hjoin hjudge]
        have happend := h.append [contact routes (.accepted slot info)]
        refine ⟨⟨fun s hs => h.pending s (List.mem_of_mem_erase hs), happend.started, by simp, ?_⟩,
          by simp [contact]⟩
        intro w hw
        obtain rfl : _ = w := Option.some.inj hw
        refine ⟨route, hroute, List.mem_of_getElem? hroute, hopen,
          List.mem_append_right _ (by simp [contact, hroute]), ?_⟩
        simpa [accepts, hroute] using haccept
      · rw [step_join hjoin hjudge]
        exact ⟨hfail slot failure _ hfailure hjoin.1 hjoin.2.1 hjoin.2.2, by simp [contact]⟩
    · have hstuck : race.step (res.accepts routes) (.join slot probed rtt) = (race, []) :=
        if_neg hjoin
      simpa [hstuck] using h
  | broke slot =>
    by_cases hbroke : race.winner = none ∧ slot ∈ race.pending ∧ slot ∈ race.started
    · have hrace := hfail slot .unhealthy race.outcomes (.inl rfl) hbroke.1 hbroke.2.1 hbroke.2.2
      rw [← hbroke.1] at hrace
      rw [step_broke hbroke]
      exact ⟨hrace, by simp [contact]⟩
    · have hstuck : race.step (res.accepts routes) (.broke slot) = (race, []) := if_neg hbroke
      simpa [hstuck] using h
  | drop => simpa [RaceState.step] using h

/-- A phase of a run with what its contacts have to show. -/
def PhaseInv (res : Resolution) (log : List Contact) : Phase → Prop
  | .racing routes rest race _ => ∃ passed, res.stages = passed ++ routes :: rest ∧
      (∀ stage ∈ passed, res.Exhausted log stage) ∧ res.RaceInv routes race log
  | .done answer =>
      (∃ passed routes rest route w tally, res.stages = passed ++ routes :: rest ∧
        (∀ stage ∈ passed, res.Exhausted log stage) ∧
        res.Accepted log routes route w.info ∧ answer = res.succeed route w tally) ∨
      ∃ tally, answer = exhausted tally ∧ ∀ stage ∈ res.stages, res.Exhausted log stage

theorem phaseInv_open {log : List Contact} {passed rest : List (List PlannedRoute)}
    (hstages : res.stages = passed ++ rest) (hpassed : ∀ stage ∈ passed, res.Exhausted log stage)
    (tally : Tally) : res.PhaseInv log (res.openStage tally rest) := by
  cases rest with
  | nil =>
    refine .inr ⟨tally, rfl, ?_⟩
    rw [hstages, List.append_nil]
    exact hpassed
  | cons routes rest => exact ⟨passed, hstages, hpassed, raceInv_begin routes log⟩

/-- One event of a run. -/
theorem phaseInv_step {log : List Contact} {phase : Phase} (horder : res.InOrder log)
    (h : res.PhaseInv log phase) (event : RaceEvent) :
    res.InOrder (log ++ (res.step phase event).2) ∧
      res.PhaseInv (log ++ (res.step phase event).2) (res.step phase event).1 := by
  cases phase with
  | done answer => simpa [Resolution.step] using And.intro horder h
  | racing routes rest race tally =>
    obtain ⟨passed, hstages, hpassed, hrace⟩ := h
    -- the contacts of a race event extend the log
    have hother : res.step (.racing routes rest race tally) event =
        (.racing routes rest (race.step (res.accepts routes) event).1 tally,
          (race.step (res.accepts routes) event).2.map (contact routes)) →
        res.InOrder (log ++ (res.step (.racing routes rest race tally) event).2) ∧
          res.PhaseInv (log ++ (res.step (.racing routes rest race tally) event).2)
            (res.step (.racing routes rest race tally) event).1 := by
      intro heq
      rw [heq]
      dsimp only
      obtain ⟨hrace', hcontacts⟩ := hrace.step event
      refine ⟨?_, passed, hstages, fun stage hs => (hpassed stage hs).append _, hrace'⟩
      intro before i after hsplit
      rcases List.append_eq_append_iff.1 hsplit with ⟨mid, hbefore, hmid⟩ | ⟨mid, hlog, hmid⟩
      · -- the contact is one of this event
        have hin : Contact.started i ∈
            (race.step (res.accepts routes) event).2.map (contact routes) := by
          rw [hmid]
          simp
        obtain ⟨hone, hroute⟩ := hcontacts i hin
        rw [hone] at hmid
        have hnil : mid = [] := by
          cases mid with
          | nil => rfl
          | cons x xs => simp at hmid
        rw [hbefore, hnil, List.append_nil]
        exact ⟨passed, routes, rest, hstages, hroute, hpassed⟩
      · -- the contact was made before, or by this event
        cases mid with
        | nil =>
          have hin : Contact.started i ∈
              (race.step (res.accepts routes) event).2.map (contact routes) := by
            rw [← List.nil_append (List.map _ _), ← hmid]
            simp
          rw [List.append_nil] at hlog
          rw [← hlog]
          exact ⟨passed, routes, rest, hstages, (hcontacts i hin).2, hpassed⟩
        | cons x xs =>
          rw [List.cons_append, List.cons.injEq] at hmid
          rw [← hmid.1] at hlog
          exact horder before i xs hlog
    cases event with
    | start slot => exact hother rfl
    | join slot probed rtt => exact hother rfl
    | broke slot => exact hother rfl
    | drop =>
      unfold Resolution.step
      dsimp only
      split
      next hover =>
        rw [List.append_nil]
        refine ⟨horder, ?_⟩
        unfold closeStage
        dsimp only
        -- the stage is over without a winner: all of it was tried
        cases hwinner : race.winner with
        | none =>
          have hempty : race.pending = [] := by
            simpa [RaceState.over, hwinner] using hover
          have hdone : res.Exhausted log routes := by
            intro route hroute hopen
            obtain ⟨slot, hslot⟩ := List.mem_iff_getElem?.1 hroute
            rcases hrace.settled hwinner slot route hslot hopen with hp | hp
            · rw [hempty] at hp
              cases hp
            · exact hp
          have hall : ∀ stage ∈ passed ++ [routes], res.Exhausted log stage := by
            intro stage hstage
            rcases List.mem_append.1 hstage with hs | hs
            · exact hpassed stage hs
            · rwa [List.mem_singleton.1 hs]
          exact phaseInv_open (by rw [hstages, List.append_assoc]; rfl) hall _
        -- the winner's route was accepted
        | some w =>
          obtain ⟨route, hroute, haccepted⟩ := hrace.winner w (by rw [hwinner]; rfl)
          simp only [Option.bind_some, hroute, Option.map_some]
          exact .inl ⟨passed, routes, rest, route, w, _, hstages, hpassed, haccepted, rfl⟩
      next =>
        rw [List.append_nil]
        exact ⟨horder, passed, hstages, hpassed, hrace⟩

/-- **Every run of the races** contacts the stages in order. -/
theorem exec_inv (res : Resolution) (events : List RaceEvent) :
    res.InOrder (res.resolver.exec res.start events).2 ∧
      res.PhaseInv (res.resolver.exec res.start events).2 (res.resolver.exec res.start events).1 := by
  refine @Machine.exec_induction _ _ _ res.resolver res.start
    (fun _ phase log => res.InOrder log ∧ res.PhaseInv log phase) ?_ ?_ events
  · constructor
    · intro before i after h
      simp at h
    · exact @phaseInv_open res [] [] res.stages rfl (by simp) _
  · rintro _ phase log event ⟨horder, hphase⟩
    exact phaseInv_step horder hphase event

end Resolution

end AgentHub.Routes
