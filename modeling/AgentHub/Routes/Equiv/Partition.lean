import AgentHub.Routes.Equiv.Plan

/-!
# Plans are a partition

Every candidate that is asked has its place in one stage of one plan (`groupedRoutePlans_partition`).

* `Leads`: the delays of a stage, and its cached route.
* `Precedes`: candidates in the order of their roles and, within a role, of the configuration.
* `Arranged`: what each candidate that joins a group, or makes its own, preserves.
-/

namespace AgentHub.Routes

/-! ### Stages -/

section Waves

variable {stagger wave : Nat} {previous : Option (Bool × LinkClass × Nat)} {es : List RouteEntry}

theorem le_delay_waves {route : PlannedRoute} (h : route ∈ waves stagger wave previous es) :
    min (stagger * wave) durationMax ≤ route.delay := by
  induction es generalizing wave previous with
  | nil => cases h
  | cons e es ih =>
    rw [waves] at h
    have hlater : ∀ next, wave ≤ next →
        min (stagger * wave) durationMax ≤ min (stagger * next) durationMax :=
      fun next hle => min_le_min_right _ (Nat.mul_le_mul_left stagger hle)
    have hnext : wave ≤ if previous.any (· ≠ (e.cached, e.linkClass, e.roleRank)) then wave + 1
        else wave := by
      split
      · exact Nat.le_succ wave
      · exact le_rfl
    rcases List.mem_cons.1 h with rfl | h
    · exact hlater _ hnext
    · exact (hlater _ hnext).trans (ih h)

/-- No route of a stage starts before the one in front of it. -/
theorem pairwise_delay_waves :
    (waves stagger wave previous es).Pairwise fun a b => a.delay ≤ b.delay := by
  induction es generalizing wave previous with
  | nil => exact List.Pairwise.nil
  | cons e es ih =>
    rw [waves]
    exact List.pairwise_cons.2 ⟨fun route hroute => le_delay_waves hroute, ih⟩

theorem mem_waves {route : PlannedRoute} (h : route ∈ waves stagger wave previous es) :
    ∃ e ∈ es, e.index = route.index ∧ e.cached = route.cached := by
  induction es generalizing wave previous with
  | nil => cases h
  | cons e es ih =>
    rw [waves] at h
    rcases List.mem_cons.1 h with rfl | h
    · exact ⟨e, List.mem_cons_self, rfl, rfl⟩
    · obtain ⟨e', he', hsame⟩ := ih h
      exact ⟨e', List.mem_cons_of_mem _ he', hsame⟩

theorem head?_delay_waves :
    ∀ route ∈ (waves stagger 0 none es).head?, route.delay = 0 := by
  cases es with
  | nil => simp [waves]
  | cons e es =>
    intro route hroute
    rw [waves, List.head?_cons, Option.mem_some_iff] at hroute
    subst hroute
    simp

end Waves

section Arrange

variable {routes : List RouteEntry} {stagger : Nat}

/-- The cached entry of a stage comes first. -/
theorem head?_sorted {e : RouteEntry} (hmem : e ∈ routes) (hcached : e.cached = true)
    (halone : ∀ other ∈ routes, other.cached = true → other = e) :
    (routes.mergeSort fun a b => decide (a.key ≤ b.key)).head? = some e := by
  have hsorted : (routes.mergeSort fun a b => decide (a.key ≤ b.key)).Pairwise
      fun a b => a.key ≤ b.key := by
    refine (List.pairwise_mergeSort (fun a b c hab hbc => ?_) (fun a b => ?_) routes).imp
      fun h => of_decide_eq_true h
    · exact decide_eq_true ((of_decide_eq_true hab).trans (of_decide_eq_true hbc))
    · simpa using le_total a.key b.key
  have hmem' : e ∈ routes.mergeSort fun a b => decide (a.key ≤ b.key) := List.mem_mergeSort.2 hmem
  cases hlist : routes.mergeSort fun a b => decide (a.key ≤ b.key) with
  | nil =>
    rw [hlist] at hmem'
    cases hmem'
  | cons first rest =>
    rw [hlist] at hsorted hmem'
    have hfirst : first ∈ routes := by
      rw [← List.mem_mergeSort, hlist]
      exact List.mem_cons_self
    rcases List.mem_cons.1 hmem' with rfl | hrest
    · rfl
    · have hle := (List.pairwise_cons.1 hsorted).1 e hrest
      -- The key of a cached entry begins with a zero.
      cases hflag : first.cached with
      | true => rw [halone first hfirst hflag, List.head?_cons]
      | false =>
        have hlt : e.key < first.key := by
          simp only [RouteEntry.key, hflag, hcached]
          exact List.Lex.rel (by decide)
        exact absurd hle hlt.not_ge

theorem head?_arrange (hnodup : (routes.map RouteEntry.index).Nodup)
    (halone : ∀ a ∈ routes, ∀ b ∈ routes, a.cached = true → b.cached = true → a.index = b.index)
    {route : PlannedRoute} (hroute : route ∈ arrange routes stagger)
    (hcached : route.cached = true) : (arrange routes stagger).head? = some route := by
  unfold arrange at hroute ⊢
  have hlead : ∀ e ∈ routes, e.cached = true →
      (routes.mergeSort fun a b => decide (a.key ≤ b.key)).head? = some e := by
    intro e he hflag
    refine head?_sorted he hflag fun other hother hflag' => ?_
    exact List.inj_on_of_nodup_map hnodup hother he (halone other hother e he hflag' hflag)
  have hsorted : (routes.mergeSort fun a b => decide (a.key ≤ b.key)).Nodup :=
    (List.mergeSort_perm _ _).symm.nodup hnodup.of_map
  have hmem : ∀ e ∈ routes.mergeSort fun a b => decide (a.key ≤ b.key), e ∈ routes :=
    fun e he => List.mem_mergeSort.1 he
  cases hlist : routes.mergeSort fun a b => decide (a.key ≤ b.key) with
  | nil =>
    rw [hlist] at hroute
    cases hroute
  | cons first rest =>
    rw [hlist] at hroute hsorted hlead hmem
    rw [waves] at hroute ⊢
    rcases List.mem_cons.1 hroute with rfl | hrest
    · rfl
    · -- A cached route further back would be of the first entry once more.
      obtain ⟨e, he, -, hflag⟩ := mem_waves hrest
      have hfirst := hlead e (hmem e (List.mem_cons_of_mem _ he)) (hflag.trans hcached)
      obtain rfl : first = e := Option.some.inj hfirst
      exact absurd he (List.nodup_cons.1 hsorted).1

end Arrange

/-- A stage as it is raced: later routes later, the first at once, and a cached one in front. -/
structure Leads (cached : Option Nat) (stage : List PlannedRoute) : Prop where
  delays : stage.Pairwise fun a b => a.delay ≤ b.delay
  starts : ∀ route, stage.head? = some route → route.delay = 0
  leads : ∀ route ∈ stage, cached = some route.index → stage.head? = some route

section Plan

variable {crate : UrlCrate} {request : PlanRequest}

theorem mem_routeEntries {p : HubCandidate × RouteEntry} (h : p ∈ routeEntries crate request) :
    p.2.index < request.candidates.length ∧
      p.2.cached = (request.cached == some p.2.index) := by
  obtain ⟨q, hq, rfl⟩ := List.mem_map.1 h
  have hplace := List.mem_zipIdx_iff_getElem?.1 (List.mem_filter.1 hq).1
  exact ⟨(List.getElem?_eq_some_iff.1 hplace).1, rfl⟩

theorem nodup_routeEntries :
    ((routeEntries crate request).map fun p => p.2.index).Nodup := by
  unfold routeEntries
  rw [List.map_map]
  show ((request.candidates.zipIdx.filter _).map Prod.snd).Nodup
  refine (List.filter_sublist.map Prod.snd).nodup ?_
  rw [List.zipIdx_map_snd]
  exact List.nodup_range'

/-- The entries of one stage. -/
def stageEntries (crate : UrlCrate) (request : PlanRequest) (primary : Bool) : List RouteEntry :=
  ((routeEntries crate request).filter fun p =>
    eligible p.1 p.2.linkClass request.locations == primary).map Prod.snd

theorem planRoutes_stage {stage : List PlannedRoute}
    (h : stage ∈ [(planRoutes crate request).primary, (planRoutes crate request).deferred]) :
    ∃ primary, stage = arrange (stageEntries crate request primary) request.stagger := by
  simp only [planRoutes, List.partition_eq_filter_filter, List.mem_cons, List.not_mem_nil,
    or_false] at h
  rcases h with rfl | rfl
  · exact ⟨true, by simp [stageEntries]⟩
  · exact ⟨false, by simp [stageEntries, Function.comp_def]⟩

theorem planRoutes_leads {stage : List PlannedRoute}
    (h : stage ∈ [(planRoutes crate request).primary, (planRoutes crate request).deferred]) :
    Leads request.cached stage ∧ ∀ route ∈ stage, route.index < request.candidates.length := by
  obtain ⟨primary, rfl⟩ := planRoutes_stage h
  have hentry : ∀ e ∈ stageEntries crate request primary,
      e.index < request.candidates.length ∧ e.cached = (request.cached == some e.index) := by
    intro e he
    obtain ⟨p, hp, rfl⟩ := List.mem_map.1 he
    exact mem_routeEntries (List.mem_filter.1 hp).1
  have hnodup : ((stageEntries crate request primary).map RouteEntry.index).Nodup := by
    unfold stageEntries
    rw [List.map_map]
    exact (List.filter_sublist.map _).nodup nodup_routeEntries
  have hcached : ∀ e ∈ stageEntries crate request primary, e.cached = true →
      request.cached = some e.index := by
    intro e he hflag
    rw [(hentry e he).2] at hflag
    exact eq_of_beq hflag
  refine ⟨⟨pairwise_delay_waves, fun route hroute => head?_delay_waves route hroute, ?_⟩, ?_⟩
  · intro route hroute hindex
    refine head?_arrange hnodup (fun a ha b hb hfa hfb => ?_) hroute ?_
    · exact Option.some.inj ((hcached a ha hfa).symm.trans (hcached b hb hfb))
    · obtain ⟨e, he, hsame, hflag⟩ := mem_waves hroute
      rw [← hflag, (hentry e (List.mem_mergeSort.1 he)).2, hindex, hsame, beq_self_eq_true]
  · intro route hroute
    obtain ⟨e, he, hsame, -⟩ := mem_waves hroute
    rw [← hsame]
    exact (hentry e (List.mem_mergeSort.1 he)).1

end Plan

/-! ### Groups -/

/-- One candidate comes before another: by its role, and within a role by its place. -/
def Precedes (p q : HubCandidate × Nat) : Prop :=
  p.1.role.rank < q.1.role.rank ∨ (p.1.role = q.1.role ∧ p.2 < q.2)

/-- Two candidates of one role with one named hub. -/
def SameStore (c d : HubCandidate) : Prop :=
  d.role = c.role ∧ d.hub = c.hub ∧ ∃ hub, c.hub = some hub ∧ hub ≠ ""

/-- The first candidate of a group comes before all of another group. -/
def Heads (candidates : List HubCandidate) (g h : List Nat) : Prop :=
  ∃ i c, g.head? = some i ∧ candidates[i]? = some c ∧
    ∀ j ∈ h, ∀ d, candidates[j]? = some d → Precedes (c, i) (d, j)

/-- The groups of some candidates: each candidate once, the groups in order, and only candidates of
one store together. -/
structure Arranged (candidates : List HubCandidate) (gs : List (List Nat))
    (ps : List (HubCandidate × Nat)) : Prop where
  perm : gs.flatten.Perm (ps.map Prod.snd)
  heads : gs.Pairwise (Heads candidates)
  store : ∀ g ∈ gs, ∃ i c, g.head? = some i ∧ candidates[i]? = some c ∧ ∀ j ∈ g, j ≠ i →
    ∃ d, candidates[j]? = some d ∧ SameStore c d

section Groups

variable {candidates : List HubCandidate} {gs : List (List Nat)} {ps : List (HubCandidate × Nat)}
  {p : HubCandidate × Nat}

theorem sameStore_of_reaches {candidate first : HubCandidate} {group : List Nat} {i : Nat}
    (hhead : group.head? = some i) (hfirst : candidates[i]? = some first)
    (h : reaches candidates candidate group = true) : SameStore first candidate := by
  obtain ⟨hrole, hhub, -⟩ := reaches_spec hhead hfirst h
  refine ⟨hrole.symm, hhub, ?_⟩
  unfold reaches at h
  rw [hhead, Option.bind_some, hfirst] at h
  cases hnamed : candidate.hub with
  | none => simp [hnamed] at h
  | some hub =>
    refine ⟨hub, hhub.symm.trans hnamed, ?_⟩
    rintro rfl
    simp [hnamed] at h

theorem perm_joinGroup : (joinGroup candidates gs p).flatten.Perm (gs.flatten ++ [p.2]) := by
  induction gs with
  | nil => simp [joinGroup]
  | cons g gs ih =>
    unfold joinGroup
    split
    · rw [List.flatten_cons, List.flatten_cons, List.append_assoc, List.append_assoc]
      exact (List.perm_append_comm).append_left g
    · rw [List.flatten_cons, List.flatten_cons, List.append_assoc]
      exact ih.append_left g

/-- Groups in order stay in order when a later candidate joins one or makes its own. -/
theorem heads_joinGroup (hgs : gs.Pairwise (Heads candidates))
    (hp : candidates[p.2]? = some p.1)
    (hlast : ∀ g ∈ gs, ∃ i c, g.head? = some i ∧ candidates[i]? = some c ∧ Precedes (c, i) p) :
    (joinGroup candidates gs p).Pairwise (Heads candidates) := by
  induction gs with
  | nil => exact List.pairwise_singleton _ _
  | cons g gs ih =>
    obtain ⟨hfirst, hrest⟩ := List.pairwise_cons.1 hgs
    obtain ⟨i, c, hhead, hc, hprecedes⟩ := hlast g List.mem_cons_self
    -- The head of the group comes before the new candidate as well.
    have hnew : ∀ h : List Nat, (∀ j ∈ h, ∀ d, candidates[j]? = some d → Precedes (c, i) (d, j)) →
        ∀ j ∈ h ++ [p.2], ∀ d, candidates[j]? = some d → Precedes (c, i) (d, j) := by
      intro h hh j hj d hd
      rcases List.mem_append.1 hj with hj | hj
      · exact hh j hj d hd
      · obtain rfl := List.mem_singleton.1 hj
        obtain rfl : p.1 = d := Option.some.inj (hp.symm.trans hd)
        exact hprecedes
    have hheads : ∀ h ∈ gs, ∀ j ∈ h, ∀ d, candidates[j]? = some d → Precedes (c, i) (d, j) := by
      intro h hh
      obtain ⟨i', c', hhead', hc', hall⟩ := hfirst h hh
      obtain rfl : i = i' := Option.some.inj (hhead.symm.trans hhead')
      obtain rfl : c = c' := Option.some.inj (hc.symm.trans hc')
      exact hall
    unfold joinGroup
    split
    · refine List.pairwise_cons.2 ⟨fun h hh => ⟨i, c, ?_, hc, hheads h hh⟩, hrest⟩
      rw [List.head?_append, hhead, Option.some_or]
    · refine List.pairwise_cons.2
        ⟨fun h hh => ⟨i, c, hhead, hc, ?_⟩, ih hrest fun h hh => hlast h (List.mem_cons_of_mem _ hh)⟩
      rcases mem_joinGroup hh with hold | rfl | ⟨h', hh', -, rfl⟩
      · exact hheads h hold
      · exact hnew [] fun _ hj => absurd hj List.not_mem_nil
      · exact hnew h' (hheads h' hh')

/-- **One more candidate**, after all others. -/
theorem Arranged.join (h : Arranged candidates gs ps)
    (hps : ∀ q ∈ ps, candidates[q.2]? = some q.1) (hp : candidates[p.2]? = some p.1)
    (hlast : ∀ q ∈ ps, Precedes q p) :
    Arranged candidates (joinGroup candidates gs p) (ps ++ [p]) where
  perm := by
    rw [List.map_append, List.map_singleton]
    exact perm_joinGroup.trans (h.perm.append_right _)
  heads := by
    refine heads_joinGroup h.heads hp fun g hg => ?_
    obtain ⟨i, c, hhead, hc, -⟩ := h.store g hg
    have hmem : i ∈ gs.flatten := List.mem_flatten.2 ⟨g, hg, List.mem_of_mem_head? hhead⟩
    obtain ⟨q, hq, rfl⟩ := List.mem_map.1 (h.perm.subset hmem)
    obtain rfl : q.1 = c := Option.some.inj ((hps q hq).symm.trans hc)
    exact ⟨q.2, q.1, hhead, hc, hlast q hq⟩
  store := by
    intro g hg
    rcases mem_joinGroup hg with hold | rfl | ⟨g', hg', hreach, rfl⟩
    · exact h.store g hold
    · refine ⟨p.2, p.1, rfl, hp, fun j hj hne => absurd (List.mem_singleton.1 hj) hne⟩
    · obtain ⟨i, c, hhead, hc, hall⟩ := h.store g' hg'
      refine ⟨i, c, by rw [List.head?_append, hhead, Option.some_or], hc, fun j hj hne => ?_⟩
      rcases List.mem_append.1 hj with hj | hj
      · exact hall j hj hne
      · obtain rfl := List.mem_singleton.1 hj
        exact ⟨p.1, hp, sameStore_of_reaches hhead hc hreach⟩

theorem Arranged.foldl {qs : List (HubCandidate × Nat)} (h : Arranged candidates gs ps)
    (hall : ∀ q ∈ ps ++ qs, candidates[q.2]? = some q.1)
    (hordered : (ps ++ qs).Pairwise Precedes) :
    Arranged candidates (qs.foldl (joinGroup candidates) gs) (ps ++ qs) := by
  induction qs generalizing gs ps with
  | nil => rwa [List.append_nil]
  | cons q qs ih =>
    have hsplit : ps ++ q :: qs = ps ++ [q] ++ qs := by simp
    have hlast : ∀ p ∈ ps, Precedes p q := fun p hp =>
      (List.pairwise_append.1 hordered).2.2 p hp q List.mem_cons_self
    have hjoined : Arranged candidates (joinGroup candidates gs q) (ps ++ [q]) :=
      h.join (fun p hp => hall p (List.mem_append_left _ hp))
        (hall q (List.mem_append_right _ List.mem_cons_self)) hlast
    rw [hsplit] at hall hordered ⊢
    exact ih hjoined hall hordered

end Groups

/-! ### The candidates that are asked -/

/-- The candidates a plan is made for, in the order they are placed. -/
def asked (candidates : List HubCandidate) (authorityOnly : Bool) : List (HubCandidate × Nat) :=
  ofRole candidates .authoritative ++
    if authorityOnly then [] else ofRole candidates .fallback ++ ofRole candidates .cloud

section Asked

variable {candidates : List HubCandidate} {authorityOnly : Bool}

theorem mem_asked {p : HubCandidate × Nat} :
    p ∈ asked candidates authorityOnly ↔
      candidates[p.2]? = some p.1 ∧ (authorityOnly = true → p.1.role = .authoritative) := by
  unfold asked
  cases authorityOnly with
  | true => simp [mem_ofRole]
  | false =>
    simp only [Bool.false_eq_true, if_false, List.mem_append, mem_ofRole]
    cases p.1.role <;> simp

theorem pairwise_ofRole (candidates : List HubCandidate) (role : HubRole) :
    (ofRole candidates role).Pairwise Precedes := by
  have hindices : candidates.zipIdx.Pairwise fun p q => p.2 < q.2 := by
    rw [← List.pairwise_map (f := Prod.snd), List.zipIdx_map_snd, ← List.range_eq_range']
    exact List.pairwise_lt_range
  refine (hindices.filter _).imp_of_mem fun {p q} hp hq hlt => .inr ⟨?_, hlt⟩
  have hrole : ∀ r ∈ ofRole candidates role, r.1.role = role := fun r hr => (mem_ofRole.1 hr).2
  rw [hrole p hp, hrole q hq]

theorem pairwise_asked : (asked candidates authorityOnly).Pairwise Precedes := by
  have hcross : ∀ first second : HubRole, first.rank < second.rank →
      ∀ p ∈ ofRole candidates first, ∀ q ∈ ofRole candidates second, Precedes p q := by
    intro first second hlt p hp q hq
    left
    rwa [(mem_ofRole.1 hp).2, (mem_ofRole.1 hq).2]
  unfold asked
  cases authorityOnly with
  | true => simpa using pairwise_ofRole candidates .authoritative
  | false =>
    simp only [Bool.false_eq_true, if_false]
    refine List.pairwise_append.2 ⟨pairwise_ofRole _ _, ?_, fun p hp q hq => ?_⟩
    · exact List.pairwise_append.2
        ⟨pairwise_ofRole _ _, pairwise_ofRole _ _, hcross .fallback .cloud (by decide)⟩
    · rcases List.mem_append.1 hq with hq | hq
      · exact hcross .authoritative .fallback (by decide) p hp q hq
      · exact hcross .authoritative .cloud (by decide) p hp q hq

theorem nodup_asked : ((asked candidates authorityOnly).map Prod.snd).Nodup := by
  refine List.pairwise_map.2 (pairwise_asked.imp_of_mem fun {p q} hp hq hprecedes heq => ?_)
  have hp := (mem_asked.1 hp).1
  rw [heq, (mem_asked.1 hq).1] at hp
  rcases hprecedes with hrank | ⟨-, hplace⟩
  · rw [Option.some.inj hp] at hrank
    exact lt_irrefl _ hrank
  · exact hplace.ne heq

theorem groups_eq_foldl :
    groups candidates authorityOnly =
      (asked candidates authorityOnly).foldl (joinGroup candidates) [] := by
  unfold groups asked
  cases authorityOnly with
  | true => simp
  | false => simp [List.foldl_append]

theorem arranged_groups :
    Arranged candidates (groups candidates authorityOnly) (asked candidates authorityOnly) := by
  have hempty : Arranged candidates [] [] := ⟨.refl _, .nil, by simp⟩
  rw [groups_eq_foldl]
  exact hempty.foldl (fun q hq => (mem_asked.1 hq).1) pairwise_asked

end Asked

/-! ### The plans of the groups -/

section Plans

variable {crate : UrlCrate} {candidates : List HubCandidate} {locations : Option (List String)}
  {cached : Option Nat} {authorityOnly : Bool} {stagger : Nat} {indexes : List Nat}

/-- The indices of a group's plan are mapped back with the cached one still in front. -/
theorem groupPlan_leads (hnodup : indexes.Nodup) {stage : List PlannedRoute}
    (h : stage ∈ [
      (groupPlan crate candidates locations cached authorityOnly stagger indexes).primary,
      (groupPlan crate candidates locations cached authorityOnly stagger indexes).deferred]) :
    Leads cached stage := by
  let request : PlanRequest := {
    candidates := indexes.filterMap (candidates[·]?)
    locations
    cached := cached.bind fun i => indexes.findIdx? (· == i)
    authorityOnly
    stagger }
  let remap (route : PlannedRoute) : PlannedRoute :=
    { route with index := indexes[route.index]?.getD 0 }
  have hmap : ∃ inner, inner ∈ [(planRoutes crate request).primary,
      (planRoutes crate request).deferred] ∧ stage = inner.map remap := by
    simp only [List.mem_cons, List.not_mem_nil, or_false] at h
    rcases h with rfl | rfl
    · exact ⟨_, List.mem_cons_self, rfl⟩
    · exact ⟨_, List.mem_cons_of_mem _ List.mem_cons_self, rfl⟩
  obtain ⟨inner, hinner, rfl⟩ := hmap
  obtain ⟨hleads, hbound⟩ := planRoutes_leads hinner
  refine ⟨List.pairwise_map.2 hleads.delays, ?_, ?_⟩
  · intro route hroute
    rw [List.head?_map, Option.map_eq_some_iff] at hroute
    obtain ⟨first, hfirst, rfl⟩ := hroute
    exact hleads.starts first hfirst
  · intro route hroute hindex
    obtain ⟨local', hlocal, rfl⟩ := List.mem_map.1 hroute
    have hlt : local'.index < indexes.length :=
      (hbound local' hlocal).trans_le (List.length_filterMap_le _ _)
    -- The cached candidate stands in the group where the planned route points.
    have hplace : request.cached = some local'.index := by
      have hvalue : (remap local').index = indexes[local'.index] := by
        show indexes[local'.index]?.getD 0 = _
        rw [List.getElem?_eq_getElem hlt, Option.getD_some]
      show cached.bind (fun i => indexes.findIdx? (· == i)) = _
      rw [hindex, Option.bind_some, hvalue, List.findIdx?_eq_some_iff_getElem]
      refine ⟨hlt, by simp, fun j hj => ?_⟩
      rw [beq_iff_eq, hnodup.getElem_inj_iff]
      exact hj.ne
    rw [List.head?_map, hleads.leads local' hlocal hplace, Option.map_some]

/-- The plans of some groups hold what the groups hold. -/
theorem plans_perm {gs : List (List Nat)}
    (hvalid : ∀ g ∈ gs, ∀ i ∈ g, ∃ c, candidates[i]? = some c ∧
      (authorityOnly = true → c.role = .authoritative)) :
    (((gs.map (groupPlan crate candidates locations cached authorityOnly stagger)).flatMap
      RoutePlan.routes).map PlannedRoute.index).Perm gs.flatten := by
  induction gs with
  | nil => exact .refl _
  | cons g gs ih =>
    rw [List.map_cons, List.flatMap_cons, List.map_append, List.flatten_cons]
    exact (groupPlan_perm crate (hvalid g List.mem_cons_self)).append
      (ih fun h hh => hvalid h (List.mem_cons_of_mem _ hh))

theorem groups_valid : ∀ g ∈ groups candidates authorityOnly, ∀ i ∈ g, ∃ c,
    candidates[i]? = some c ∧ (authorityOnly = true → c.role = .authoritative) := by
  intro g hg i hi
  have hmem : i ∈ (groups candidates authorityOnly).flatten := List.mem_flatten.2 ⟨g, hg, hi⟩
  obtain ⟨p, hp, rfl⟩ := List.mem_map.1 (arranged_groups.perm.subset hmem)
  exact ⟨p.1, mem_asked.1 hp⟩

/-- Each plan holds the candidates of its group. -/
theorem mem_plan {g : List Nat} (hg : g ∈ groups candidates authorityOnly) {i : Nat} :
    (∃ route ∈ (groupPlan crate candidates locations cached authorityOnly stagger g).routes,
      route.index = i) ↔ i ∈ g := by
  rw [← (groupPlan_perm crate (groups_valid g hg)).mem_iff, List.mem_map]

/-- **The plans are a partition of the candidates that are asked.**  Each has one place; plans come
in the order of the roles and of the configuration; a plan of several candidates is of one role and
one named hub; and each stage is in order, its cached route in front. -/
theorem groupedRoutePlans_partition (crate : UrlCrate) (candidates : List HubCandidate)
    (locations : Option (List String)) (cached : Option Nat) (authorityOnly : Bool)
    (stagger : Nat) :
    let plans := groupedRoutePlans crate candidates locations cached authorityOnly stagger
    ((plans.flatMap RoutePlan.routes).map PlannedRoute.index).Nodup ∧
    (∀ i, i ∈ (plans.flatMap RoutePlan.routes).map PlannedRoute.index ↔ ∃ c,
      candidates[i]? = some c ∧ (authorityOnly = true → c.role = .authoritative)) ∧
    (plans.Pairwise fun before after => ∃ first ∈ before.routes, ∀ later ∈ after.routes, ∀ c d,
      candidates[first.index]? = some c → candidates[later.index]? = some d →
        Precedes (c, first.index) (d, later.index)) ∧
    (∀ plan ∈ plans, ∀ a ∈ plan.routes, ∀ b ∈ plan.routes, ∀ c d,
      candidates[a.index]? = some c → candidates[b.index]? = some d → a.index ≠ b.index →
        SameStore c d) ∧
    ∀ plan ∈ plans, ∀ stage ∈ [plan.primary, plan.deferred], Leads cached stage := by
  -- the groups arrange the asked candidates
  intro plans
  have harranged := @arranged_groups candidates authorityOnly
  have hperm : ((plans.flatMap RoutePlan.routes).map PlannedRoute.index).Perm
      ((asked candidates authorityOnly).map Prod.snd) :=
    (plans_perm groups_valid).trans harranged.perm
  refine ⟨hperm.symm.nodup nodup_asked, fun i => ?_, ?_, ?_, ?_⟩
  · rw [hperm.mem_iff, List.mem_map]
    constructor
    · rintro ⟨p, hp, rfl⟩
      exact ⟨p.1, mem_asked.1 hp⟩
    · rintro ⟨c, hc⟩
      exact ⟨(c, i), mem_asked.2 hc, rfl⟩
  · -- the head of a group precedes the later groups
    refine List.pairwise_map.2 (harranged.heads.imp_of_mem fun {g h} hg hh hheads => ?_)
    obtain ⟨i, c, hhead, hc, hall⟩ := hheads
    obtain ⟨first, hfirst, rfl⟩ := (mem_plan hg).2 (List.mem_of_mem_head? hhead)
    refine ⟨first, hfirst, fun later hlater c' d hc' hd => ?_⟩
    obtain rfl : c = c' := Option.some.inj (hc.symm.trans hc')
    exact hall later.index ((mem_plan hh).1 ⟨later, hlater, rfl⟩) d hd
  · -- the members of a group share the store of its first
    intro plan hplan a ha b hb c d hc hd hne
    obtain ⟨g, hg, rfl⟩ := List.mem_map.1 hplan
    obtain ⟨i, first, -, hfirst, hstore⟩ := harranged.store g hg
    have hmember : ∀ j ∈ g, ∀ e, candidates[j]? = some e → j = i ∨ SameStore first e := by
      intro j hj e he
      by_cases hji : j = i
      · exact .inl hji
      · obtain ⟨e', he', hsame⟩ := hstore j hj hji
        obtain rfl : e' = e := Option.some.inj (he'.symm.trans he)
        exact .inr hsame
    have hmemA := (mem_plan hg).1 ⟨a, ha, rfl⟩
    have hmemB := (mem_plan hg).1 ⟨b, hb, rfl⟩
    rcases hmember _ hmemA c hc with rfl | ⟨hrole, hhub, hub, hnamed, hnonempty⟩
    · obtain rfl : first = c := Option.some.inj (hfirst.symm.trans hc)
      exact (hmember _ hmemB d hd).resolve_left hne.symm
    · rcases hmember _ hmemB d hd with rfl | ⟨hrole', hhub', -⟩
      · obtain rfl : first = d := Option.some.inj (hfirst.symm.trans hd)
        exact ⟨hrole.symm, hhub.symm, hub, hhub.trans hnamed, hnonempty⟩
      · exact ⟨hrole'.trans hrole.symm, hhub'.trans hhub.symm, hub, hhub.trans hnamed, hnonempty⟩
  · -- each stage leads with the cached route
    intro plan hplan stage hstage
    obtain ⟨g, hg, rfl⟩ := List.mem_map.1 hplan
    refine groupPlan_leads ?_ hstage
    have hflat : (groups candidates authorityOnly).flatten.Nodup :=
      harranged.perm.symm.nodup nodup_asked
    exact (List.nodup_flatten.1 hflat).1 g hg

end Plans

end AgentHub.Routes
