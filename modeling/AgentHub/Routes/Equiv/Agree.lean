import AgentHub.Routes.Equiv.Auth
import AgentHub.Routes.Equiv.Serial

/-!
# Serial and concurrent resolution agree

With a probe that answers each URL in one way, a route is `Good` or not before anything is
contacted, and every run stops in the first stage that has a good route (`delivered_inv`).  Every run
can be driven to its end (`exists_done`).  A serial resolution is such a run, so both stop in one
stage, whose routes reach one store.
-/

namespace AgentHub.Routes

open Resolution

namespace Resolution

variable {res : Resolution} {answer : String → Option ProbeInfo}

/-- The route may be contacted, and its answer would be accepted. -/
def Good (res : Resolution) (answer : String → Option ProbeInfo) (route : PlannedRoute) : Prop :=
  res.Open route ∧ ∃ info, answer (res.candidate route).url = some info ∧
    identityMatches (res.candidate route) info = true

theorem candidate_congr {a b : PlannedRoute} (h : a.index = b.index) :
    res.candidate a = res.candidate b := by
  simp [candidate, h]

theorem good_congr {a b : PlannedRoute} (h : a.index = b.index) :
    res.Good answer a ↔ res.Good answer b := by
  simp [Good, Open, candidate_congr h, h]

/-- The log tells the truth about the routes: what failed is not good, what was accepted was
answered. -/
structure Honest (res : Resolution) (answer : String → Option ProbeInfo) (log : List Contact) :
    Prop where
  failed : ∀ i failure, .failed i failure ∈ log → ∀ route : PlannedRoute, route.index = i →
    ¬res.Good answer route
  accepted : ∀ i info, .accepted i info ∈ log → ∀ route : PlannedRoute, route.index = i →
    answer (res.candidate route).url = some info

theorem Honest.append {log more : List Contact} (h : res.Honest answer log)
    (h' : res.Honest answer more) : res.Honest answer (log ++ more) where
  failed i failure hmem := (List.mem_append.1 hmem).elim (h.failed i failure) (h'.failed i failure)
  accepted i info hmem := (List.mem_append.1 hmem).elim (h.accepted i info) (h'.accepted i info)

/-- An event that delivers what the probe answers is logged truthfully. -/
theorem honest_step {log : List Contact} {phase : Phase} (hphase : res.PhaseInv log phase)
    {event : RaceEvent} (h : res.Delivers answer phase event) :
    res.Honest answer (res.step phase event).2 := by
  have hnil : res.Honest answer [] := ⟨by simp, by simp⟩
  cases phase with
  | done backend => exact hnil
  | racing routes rest race tally =>
    obtain ⟨passed, -, -, hrace⟩ := hphase
    cases event with
    | start slot =>
      show res.Honest answer ((race.step (res.accepts routes) (.start slot)).2.map (contact routes))
      by_cases hstart : slot ∈ race.pending ∧ slot ∉ race.started
      · rw [step_start hstart]
        exact ⟨by simp [contact], by simp [contact]⟩
      · rw [step_start_stuck hstart]
        exact hnil
    | broke slot => exact h.elim
    | drop =>
      show res.Honest answer (if race.over then _ else _ : Phase × List Contact).2
      split_ifs <;> exact hnil
    | join slot probed rtt =>
      show res.Honest answer
        ((race.step (res.accepts routes) (.join slot probed rtt)).2.map (contact routes))
      by_cases hjoin : race.winner = none ∧ slot ∈ race.pending ∧ slot ∈ race.started
      · obtain ⟨route, hroute, hopen⟩ := hrace.pending slot hjoin.2.1
        have hprobed : probed = .ofAnswer (answer (res.candidate route).url) := h route hroute
        -- a failure that is joined is one of a route that is not good
        have hfail : ∀ failure, ¬res.Good answer route →
            res.Honest answer [contact routes (.failed slot failure)] := by
          intro failure hbad
          refine ⟨fun i f hmem other hother => ?_, by simp [contact]⟩
          simp only [contact, hroute, Option.map_some, Option.getD_some, List.mem_singleton,
            Contact.failed.injEq] at hmem
          rwa [good_congr (hother.trans hmem.1)]
        cases hanswer : answer (res.candidate route).url with
        | none =>
          rw [hanswer] at hprobed
          subst hprobed
          rw [step_join hjoin (show judge _ slot rtt (.ofAnswer none) = _ from rfl)]
          apply hfail
          rintro ⟨-, info, hinfo, -⟩
          rw [hanswer] at hinfo
          cases hinfo
        | some info =>
          rw [hanswer] at hprobed
          subst hprobed
          by_cases haccept : res.accepts routes slot info = true
          · have hjudge : judge (res.accepts routes) slot rtt (.ofAnswer (some info)) =
                (.healthy rtt, .accepted slot info, some ⟨slot, info, rtt⟩) := if_pos haccept
            rw [step_join hjoin hjudge]
            refine ⟨by simp [contact], fun i info' hmem other hother => ?_⟩
            simp only [contact, hroute, Option.map_some, Option.getD_some, List.map_cons,
              List.map_nil, List.mem_singleton, Contact.accepted.injEq] at hmem
            rw [candidate_congr (hother.trans hmem.1), hmem.2]
            exact hanswer
          · have hjudge : judge (res.accepts routes) slot rtt (.ofAnswer (some info)) =
                (.failed .identityMismatch, .failed slot .identityMismatch, none) := if_neg haccept
            rw [step_join hjoin hjudge]
            apply hfail
            rintro ⟨-, info', hinfo, hmatch⟩
            rw [hanswer] at hinfo
            obtain rfl := Option.some.inj hinfo
            exact haccept (by simpa [accepts, hroute] using hmatch)
      · have hstuck : race.step (res.accepts routes) (.join slot probed rtt) = (race, []) :=
          if_neg hjoin
        rw [hstuck]
        exact hnil

/-- What holds of a run whose surroundings deliver what the probe answers. -/
theorem delivered_inv {events : List RaceEvent} : ∀ {phase : Phase} {log : List Contact},
    res.InOrder log → res.PhaseInv log phase → res.Honest answer log →
      res.Delivered answer phase events →
        res.PhaseInv (log ++ (res.resolver.exec phase events).2) (res.resolver.exec phase events).1 ∧
          res.Honest answer (log ++ (res.resolver.exec phase events).2) := by
  induction events with
  | nil =>
    intro phase log _ hphase hhonest _
    simpa using And.intro hphase hhonest
  | cons e es ih =>
    intro phase log horder hphase hhonest hdelivered
    obtain ⟨horder', hphase'⟩ := phaseInv_step horder hphase e
    have hhonest' := hhonest.append (honest_step hphase hdelivered.1)
    have hrest := ih horder' hphase' hhonest' hdelivered.2
    rw [exec_cons, ← List.append_assoc]
    exact hrest

theorem not_good_of_exhausted {log : List Contact} (h : res.Honest answer log)
    {stage : List PlannedRoute} (hstage : res.Exhausted log stage) :
    ∀ route ∈ stage, ¬res.Good answer route := by
  intro route hroute hgood
  obtain ⟨-, failure, -, hfailed⟩ := hstage route hroute hgood.1
  exact h.failed _ _ hfailed route rfl hgood

/-- Where a resolution stops: in the first stage with a good route, or nowhere. -/
def StopsAt (res : Resolution) (answer : String → Option ProbeInfo) (backend : HubBackend) : Prop :=
  (∃ passed routes rest route, res.stages = passed ++ routes :: rest ∧
      (∀ stage ∈ passed, ∀ r ∈ stage, ¬res.Good answer r) ∧ route ∈ routes ∧
      res.Good answer route ∧ ∃ winner tally, backend = (res.succeed route winner tally).1) ∨
    ((∀ stage ∈ res.stages, ∀ r ∈ stage, ¬res.Good answer r) ∧
      ∃ tally, backend = (exhausted tally).1)

theorem stopsAt_of_delivered {events : List RaceEvent} (h : res.Delivered answer res.start events)
    {backend : HubBackend × CacheWrite}
    (hdone : (res.resolver.exec res.start events).1 = .done backend) :
    res.StopsAt answer backend.1 := by
  have hinit : res.InOrder [] := by
    intro before i after h
    simp at h
  obtain ⟨hphase, hhonest⟩ := delivered_inv hinit
    (@phaseInv_open res [] [] res.stages rfl (by simp) {}) ⟨by simp, by simp⟩ h
  rw [List.nil_append] at hphase hhonest
  rw [show res.openStage {} res.stages = res.start from rfl, hdone] at hphase
  rcases hphase with ⟨passed, routes, rest, route, winner, tally, hstages, hpassed, haccepted, rfl⟩ |
    ⟨tally, rfl, hall⟩
  · refine .inl ⟨passed, routes, rest, route, hstages, fun stage hs =>
      not_good_of_exhausted hhonest (hpassed stage hs), haccepted.1, ⟨haccepted.2.1, winner.info,
        hhonest.accepted _ _ haccepted.2.2.1 route rfl, haccepted.2.2.2⟩, winner, tally, rfl⟩
  · exact .inr ⟨fun stage hs => not_good_of_exhausted hhonest (hall stage hs), tally, rfl⟩

/-! ### Every run can end -/

/-- A race is over after more events that deliver what the probe answers. -/
theorem exists_over {routes : List PlannedRoute} {rest : List (List PlannedRoute)} {tally : Tally}
    (n : Nat) : ∀ {race : RaceState} {log : List Contact}, race.pending.length = n →
      res.RaceInv routes race log → ∃ events race',
        (res.resolver.exec (.racing routes rest race tally) events).1 =
          .racing routes rest race' tally ∧ race'.over = true ∧
        res.Delivered answer (.racing routes rest race tally) events := by
  induction n with
  | zero =>
    intro race log hlength _
    exact ⟨[], race, rfl, by simp [RaceState.over, List.length_eq_zero_iff.1 hlength], trivial⟩
  | succ n ih =>
    intro race log hlength hrace
    -- as long as nobody has won, a pending slot can be started and joined
    by_cases hwinner : race.winner = none
    · obtain ⟨slot, others, hpending⟩ := List.exists_cons_of_length_eq_add_one hlength
      have hmem : slot ∈ race.pending := by
        rw [hpending]
        exact List.mem_cons_self
      obtain ⟨route, hroute, -⟩ := hrace.pending slot hmem
      -- the slot may have been started already
      obtain ⟨begun, hbegun, hbegunPending, hbegunWinner, hstarted⟩ : ∃ race' : RaceState,
          (race.step (res.accepts routes) (.start slot)).1 = race' ∧ race'.pending = race.pending ∧
            race'.winner = none ∧ slot ∈ race'.started := by
        by_cases hstarted : slot ∈ race.started
        · exact ⟨race, by rw [step_start_stuck (by simp [hstarted])], rfl, hwinner, hstarted⟩
        · exact ⟨{ race with started := slot :: race.started }, by
            rw [step_start ⟨hmem, hstarted⟩], rfl, hwinner, List.mem_cons_self⟩
      have hjoin : begun.winner = none ∧ slot ∈ begun.pending ∧ slot ∈ begun.started :=
        ⟨hbegunWinner, by rw [hbegunPending]; exact hmem, hstarted⟩
      obtain ⟨outcome, report, winner, hjudge⟩ : ∃ outcome report winner,
          judge (res.accepts routes) slot 0 (.ofAnswer (answer (res.candidate route).url)) =
            (outcome, report, winner) := ⟨_, _, _, rfl⟩
      -- the two events keep the invariant
      have hrace' := (hrace.step (.start slot)).1
      rw [hbegun] at hrace'
      have hrace'' := (hrace'.step (.join slot
        (.ofAnswer (answer (res.candidate route).url)) 0)).1
      rw [step_join hjoin hjudge] at hrace''
      obtain ⟨events, race', hrun, hover, hdelivered⟩ := ih (by
        show (begun.pending.erase slot).length = n
        rw [List.length_erase_of_mem hjoin.2.1, hbegunPending, hlength]
        rfl) hrace''
      have hfirst : res.step (.racing routes rest race tally) (.start slot) =
          (.racing routes rest begun tally,
            (race.step (res.accepts routes) (.start slot)).2.map (contact routes)) := by
        rw [← hbegun]
        rfl
      have hsecond : res.step (.racing routes rest begun tally)
          (.join slot (.ofAnswer (answer (res.candidate route).url)) 0) = _ :=
        congrArg (fun p : RaceState × List Report =>
          (Phase.racing routes rest p.1 tally, p.2.map (contact routes))) (step_join hjoin hjudge)
      refine ⟨.start slot :: .join slot (.ofAnswer (answer (res.candidate route).url)) 0 :: events,
        race', ?_, hover, trivial, ?_⟩
      · rw [exec_cons, exec_cons, hfirst, hsecond]
        exact hrun
      · rw [hfirst]
        refine ⟨fun r hr => ?_, ?_⟩
        · rw [hroute] at hr
          rw [Option.some.inj hr]
        · rw [hsecond]
          exact hdelivered
    · -- the race has its winner
      refine ⟨[], race, rfl, ?_, trivial⟩
      have hsome : race.winner.isSome = true := by
        rwa [← Option.not_isNone, Bool.not_eq_true', Option.isNone_eq_false_iff,
          Option.isSome_iff_ne_none]
      simp [RaceState.over, hsome]

/-- A phase that races comes to its end if the phase after it does. -/
theorem exists_done_racing {routes : List PlannedRoute} {rest : List (List PlannedRoute)}
    (hrest : ∀ tally, ∃ events backend,
      (res.resolver.exec (res.openStage tally rest) events).1 = .done backend ∧
        res.Delivered answer (res.openStage tally rest) events)
    {race : RaceState} {log : List Contact} (hrace : res.RaceInv routes race log) (tally : Tally) :
    ∃ events backend,
      (res.resolver.exec (.racing routes rest race tally) events).1 = .done backend ∧
        res.Delivered answer (.racing routes rest race tally) events := by
  obtain ⟨events, race', hrun, hover, hdelivered⟩ :=
    @exists_over res answer routes rest tally race.pending.length race log rfl hrace
  have hdrop : res.step (.racing routes rest race' tally) .drop =
      (res.closeStage routes rest race' tally, []) := by
    simp [Resolution.step, hover]
  -- the stage closes with a winner, or the next one is opened
  have hclose : ∃ more backend,
      (res.resolver.exec (res.closeStage routes rest race' tally) more).1 = .done backend ∧
        res.Delivered answer (res.closeStage routes rest race' tally) more := by
    unfold closeStage
    dsimp only
    split
    · exact ⟨[], _, rfl, trivial⟩
    · exact hrest _
  obtain ⟨more, backend, hmore, hmoreDelivered⟩ := hclose
  refine ⟨events ++ .drop :: more, backend, ?_, ?_⟩
  · rw [Machine.exec_append, exec_cons, hrun, hdrop]
    exact hmore
  · refine delivered_append.2 ⟨hdelivered, ?_⟩
    rw [hrun]
    refine ⟨delivers_drop _, ?_⟩
    rw [hdrop]
    exact hmoreDelivered

theorem exists_done_open (rest : List (List PlannedRoute)) : ∀ tally, ∃ events backend,
    (res.resolver.exec (res.openStage tally rest) events).1 = .done backend ∧
      res.Delivered answer (res.openStage tally rest) events := by
  induction rest with
  | nil => exact fun tally => ⟨[], exhausted tally, rfl, trivial⟩
  | cons routes rest ih => exact fun tally => exists_done_racing ih (raceInv_begin routes []) tally

/-- Every phase of a run comes to its end. -/
theorem exists_done {phase : Phase} {log : List Contact} (h : res.PhaseInv log phase) :
    ∃ events backend, (res.resolver.exec phase events).1 = .done backend ∧
      res.Delivered answer phase events := by
  cases phase with
  | done backend => exact ⟨[], backend, rfl, trivial⟩
  | racing routes rest race tally =>
    obtain ⟨-, -, -, hrace⟩ := h
    exact exists_done_racing (exists_done_open rest) hrace tally

end Resolution

/-! ### The agreement -/

/-- Two candidates that are routes to one store: the same, or of one named hub. -/
def SameStoreAt (i j : Nat) (c d : HubCandidate) : Prop :=
  c.role = d.role ∧ (i = j ∨ (c.hub = d.hub ∧ c.hub ≠ none))

/-- Both offline, both local, or both remote by candidates that reach one store. -/
def Agree (settings : Settings) : HubBackend → HubBackend → Prop
  | .remote url _ _ _ _, .remote url' _ _ _ _ => ∃ i j c d,
      settings.effectiveHubCandidates[i]? = some c ∧ c.url = url ∧
      settings.effectiveHubCandidates[j]? = some d ∧ d.url = url' ∧ SameStoreAt i j c d
  | .offline _ _, .offline _ _ => True
  | .localOnly, .localOnly => True
  | _, _ => False

theorem StoreGroup.sameStore {candidates : List HubCandidate} {group : List Nat}
    (h : StoreGroup candidates group) {i j : Nat} (hi : i ∈ group) (hj : j ∈ group)
    {c d : HubCandidate} (hc : candidates[i]? = some c) (hd : candidates[j]? = some d) :
    SameStoreAt i j c d := by
  obtain ⟨k, e, -, he, hstore⟩ := h
  obtain ⟨c', hc', hcrole, hchub⟩ := hstore i hi
  obtain ⟨d', hd', hdrole, hdhub⟩ := hstore j hj
  rw [hc] at hc'
  rw [hd] at hd'
  obtain rfl := Option.some.inj hc'
  obtain rfl := Option.some.inj hd'
  refine ⟨hcrole.trans hdrole.symm, ?_⟩
  rcases hchub with rfl | ⟨hchub, hnamed⟩
  · rw [hc] at he
    obtain rfl := Option.some.inj he
    rcases hdhub with rfl | ⟨hdhub, hnamed⟩
    · exact .inl rfl
    · exact .inr ⟨hdhub.symm, hnamed⟩
  · right
    refine ⟨?_, by rw [hchub]; exact hnamed⟩
    rcases hdhub with rfl | ⟨hdhub, -⟩
    · rw [hd] at he
      rw [hchub, Option.some.inj he]
    · rw [hchub, hdhub]

theorem Resolution.SameAnswer.agree {settings : Settings} {a b c : HubBackend} (h : SameAnswer a b)
    (hagree : Agree settings b c) : Agree settings a c := by
  cases a with
  | remote url authoritative build tried probes =>
    cases b with
    | remote url' authoritative' build' tried' probes' =>
      obtain ⟨rfl, -, -⟩ := h
      cases c <;> exact hagree
    | offline tried' probes' => exact h.elim
    | localOnly => exact h.elim
  | offline tried probes =>
    cases b with
    | offline tried' probes' => cases c <;> exact hagree
    | remote url' authoritative' build' tried' probes' => exact h.elim
    | localOnly => exact h.elim
  | localOnly =>
    cases b with
    | localOnly => cases c <;> exact hagree
    | remote url' authoritative' build' tried' probes' => exact h.elim
    | offline tried' probes' => exact h.elim

/-- Resolutions with one probe stop in one stage. -/
theorem agree_of_stopsAt {res : Resolution} {authorityOnly : Bool} (hstaged : Staged res authorityOnly)
    {settings : Settings} (hcandidates : res.candidates = settings.effectiveHubCandidates)
    {answer : String → Option ProbeInfo} {a b : HubBackend} (ha : res.StopsAt answer a)
    (hb : res.StopsAt answer b) : Agree settings a b := by
  rcases ha with ⟨passed, routes, rest, route, hstages, hpassed, hroute, hgood, winner, tally, rfl⟩ |
      ⟨hnone, tally, rfl⟩ <;>
    rcases hb with ⟨passed', routes', rest', route', hstages', hpassed', hroute', hgood', winner',
      tally', rfl⟩ | ⟨hnone', tally', rfl⟩
  · -- both stopped at the first stage with a good answer
    have hsame : routes = routes' := by
      rw [hstages] at hstages'
      rcases List.append_eq_append_iff.1 hstages' with ⟨mid, hmid, htail⟩ | ⟨mid, hmid, htail⟩
      · cases mid with
        | nil => exact (List.cons.inj htail).1
        | cons x xs =>
          obtain ⟨hx, -⟩ := List.cons.inj htail
          exact absurd hgood (hpassed' routes (by rw [hmid, ← hx]; simp) route hroute)
      · cases mid with
        | nil => exact (List.cons.inj htail).1.symm
        | cons x xs =>
          obtain ⟨hx, -⟩ := List.cons.inj htail
          exact absurd hgood' (hpassed routes' (by rw [hmid, ← hx]; simp) route' hroute')
    subst hsame
    have hstage : routes ∈ res.stages := by
      rw [hstages]
      simp
    obtain ⟨group, hgroup, hmem⟩ := hstaged.store routes hstage
    have hc := hstaged.candidate hstage hroute
    have hd := hstaged.candidate hstage hroute'
    have hstore := hgroup.sameStore (hmem route hroute) (hmem route' hroute') hc hd
    rw [hcandidates] at hc hd
    exact ⟨_, _, _, _, hc, rfl, hd, rfl, hstore⟩
  · exact absurd hgood (hnone' routes (by rw [hstages]; simp) route hroute)
  · -- one found a good answer, and the other none
    exact absurd hgood' (hnone routes' (by rw [hstages']; simp) route' hroute')
  · trivial

/-- **Serial and concurrent resolution agree.**  With a probe that answers each URL in one way, within
the budget, every run of the races can be driven to its end, and where it ends it agrees with the
serial resolution. -/
theorem serial_concurrent_agree (w : Surroundings) (settings : Settings) (authorityOnly : Bool)
    (answer : String → Option ProbeInfo) {σ : Type} (probe : SerialProbe σ) (state : σ)
    (hprobe : ∀ s url, (probe s url).1.1 = answer url) (events : List RaceEvent)
    (hevents : ∀ res, Resolution.begin w settings authorityOnly = .ok res →
      res.Delivered answer res.start events) :
    (∀ backend, (resolveConcurrent w settings authorityOnly events).1.backend = some backend →
      Agree settings (resolveSerial w settings authorityOnly probe state).answer.1 backend) ∧
    ∃ more, (∀ res, Resolution.begin w settings authorityOnly = .ok res →
        res.Delivered answer res.start (events ++ more)) ∧
      ((resolveConcurrent w settings authorityOnly (events ++ more)).1.backend).isSome = true := by
  unfold resolveSerial resolveConcurrent
  cases hbegin : Resolution.begin w settings authorityOnly with
  -- a resolution that fails at once gives the same answer to both
  | error backend =>
    refine ⟨fun other hother => ?_, [], by simp, rfl⟩
    obtain rfl := Option.some.inj hother
    rcases begin_error hbegin with ⟨-, rfl⟩ | ⟨-, -, rfl⟩ <;> trivial
  | ok res =>
    obtain ⟨hstaged, hcandidates, -⟩ := stages_split hbegin
    have hdelivered := hevents res hbegin
    constructor
    · intro backend hbackend
      cases hphase : (res.resolver.exec res.start events).1 with
      | racing routes rest race tally =>
        rw [hphase] at hbackend
        cases hbackend
      | done concurrent =>
        rw [hphase] at hbackend
        obtain rfl := Option.some.inj hbackend
        -- the serial walk is one of the schedules
        obtain ⟨schedule, serial, hsame, hrun, hfixed⟩ :=
          @walkStages_schedule res σ probe answer res.stages state {} {}
        have hserial := stopsAt_of_delivered (hfixed hprobe) (by
          rw [show res.start = res.openStage {} res.stages from rfl, hrun])
        exact SameAnswer.agree hsame (agree_of_stopsAt hstaged hcandidates hserial
          (stopsAt_of_delivered hdelivered hphase))
    · -- whatever has happened, the events left lead to an answer
      obtain ⟨more, backend, hdone, hmore⟩ :=
        @exists_done res answer _ _ (res.exec_inv events).2
      refine ⟨more, fun res' hres' => ?_, ?_⟩
      · rw [← Except.ok.inj hres']
        exact delivered_append.2 ⟨hdelivered, hmore⟩
      · show (res.resolver.exec res.start (events ++ more)).1.backend.isSome = true
        rw [Machine.exec_append, hdone]
        rfl

def sampleSurroundings : Surroundings where
  crate := sampleCrate
  envAt _ := sampleEnv
  locations := none
  cache := none

def sampleSettings : Settings where
  serverUrls := sampleCandidates.map HubCandidate.url
  hubCandidates := sampleCandidates
  hubConfigError := none
  authToken := some "global-token"
  probeStaggerMs := 75

/-- A hub that answers under every URL, and the race that its first probe wins. -/
theorem serial_concurrent_agree_sample :
    ∃ backend, (resolveConcurrent sampleSurroundings sampleSettings false
        [.start 0, .join 0 (.healthy ⟨none, none⟩) 5, .drop]).1.backend = some backend ∧
      Agree sampleSettings (resolveSerial sampleSurroundings sampleSettings false
        (fun _ _ => ((some ⟨none, none⟩, 7), ())) ()).answer.1 backend := by
  have hevents : ∀ res, Resolution.begin sampleSurroundings sampleSettings false = .ok res →
      res.Delivered (fun _ => some ⟨none, none⟩) res.start
        [.start 0, .join 0 (.healthy ⟨none, none⟩) 5, .drop] := by
    intro res _
    have hjoin : ∀ phase, res.Delivers (fun _ => some ⟨none, none⟩) phase
        (.join 0 (.healthy ⟨none, none⟩) 5) := by
      intro phase
      cases phase with
      | racing routes rest race tally => exact fun _ _ => rfl
      | done answer => trivial
    exact ⟨by cases res.start <;> trivial, hjoin _, delivers_drop _, trivial⟩
  have hagree := (serial_concurrent_agree sampleSurroundings sampleSettings false
    (fun _ => some ⟨none, none⟩) (fun _ _ => ((some ⟨none, none⟩, 7), ())) () (fun _ _ => rfl) _
    hevents).1
  have hdone : ((resolveConcurrent sampleSurroundings sampleSettings false
      [.start 0, .join 0 (.healthy ⟨none, none⟩) 5, .drop]).1.backend).isSome = true := by
    decide +kernel
  obtain ⟨backend, hbackend⟩ := Option.isSome_iff_exists.1 hdone
  exact ⟨backend, hbackend, hagree backend hbackend⟩

end AgentHub.Routes
