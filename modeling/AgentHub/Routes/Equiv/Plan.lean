import AgentHub.Routes.Resolve
import Mathlib.Data.List.Perm.Basic

/-!
# What a plan holds

* `groupPlan_perm`: the two stages of a group's plan hold the group's candidates, each once.
* `storeGroup_groups`: a group is one candidate, or candidates of one role with one named hub.
* `groups_split`: the groups of the authority come before all others.
-/

namespace AgentHub.Routes

/-! ### Stages -/

theorem map_index_waves (stagger wave : Nat) (previous : Option (Bool × LinkClass × Nat))
    (es : List RouteEntry) :
    (waves stagger wave previous es).map PlannedRoute.index = es.map RouteEntry.index := by
  induction es generalizing wave previous with
  | nil => rfl
  | cons e es ih => rw [waves, List.map_cons, List.map_cons, ih]

theorem arrange_perm (routes : List RouteEntry) (stagger : Nat) :
    ((arrange routes stagger).map PlannedRoute.index).Perm (routes.map RouteEntry.index) := by
  rw [arrange, map_index_waves]
  exact (List.mergeSort_perm _ _).map _

/-- Both stages of a plan. -/
def RoutePlan.routes (plan : RoutePlan) : List PlannedRoute := plan.primary ++ plan.deferred

theorem planRoutes_perm (crate : UrlCrate) (request : PlanRequest) :
    ((planRoutes crate request).routes.map PlannedRoute.index).Perm
      ((routeEntries crate request).map fun p => p.2.index) := by
  simp only [planRoutes, RoutePlan.routes, List.partition_eq_filter_filter, List.map_append]
  have happend := (arrange_perm (((routeEntries crate request).filter fun p =>
      eligible p.1 p.2.linkClass request.locations).map Prod.snd) request.stagger).append
    (arrange_perm (((routeEntries crate request).filter fun p =>
      !eligible p.1 p.2.linkClass request.locations).map Prod.snd) request.stagger)
  refine happend.trans ?_
  rw [List.map_map, List.map_map, ← List.map_append]
  exact (List.filter_append_perm _ _).map _

theorem routeEntries_index (crate : UrlCrate) {request : PlanRequest}
    (h : request.authorityOnly = true → ∀ c ∈ request.candidates, c.role = .authoritative) :
    ((routeEntries crate request).map fun p => p.2.index) = List.range request.candidates.length := by
  have hall : (request.candidates.zipIdx.filter fun p =>
      !(request.authorityOnly && p.1.role != .authoritative)) = request.candidates.zipIdx := by
    apply List.filter_eq_self.2
    intro p hp
    have hmem : p.1 ∈ request.candidates := by
      have := List.mem_map_of_mem (f := Prod.fst) hp
      rwa [List.zipIdx_map_fst] at this
    cases honly : request.authorityOnly with
    | false => simp
    | true => simp [h honly p.1 hmem]
  rw [routeEntries, hall, List.map_map]
  have hsnd : (fun p : HubCandidate × RouteEntry => p.2.index) ∘
      (fun p : HubCandidate × Nat => (p.1, ({
        index := p.2
        linkClass := LinkClass.of crate p.1
        roleRank := p.1.role.rank
        cached := request.cached == some p.2
        siteMatch := request.locations.any (siteMatches p.1) } : RouteEntry))) = Prod.snd := rfl
  rw [hsnd, List.zipIdx_map_snd, List.range_eq_range']

variable {candidates : List HubCandidate}

/-- The plan of a group holds its candidates, each once. -/
theorem groupPlan_perm (crate : UrlCrate) {locations : Option (List String)} {cached : Option Nat}
    {authorityOnly : Bool} {stagger : Nat} {indexes : List Nat}
    (hvalid : ∀ i ∈ indexes, ∃ c, candidates[i]? = some c ∧
      (authorityOnly = true → c.role = .authoritative)) :
    ((groupPlan crate candidates locations cached authorityOnly stagger indexes).routes.map
      PlannedRoute.index).Perm indexes := by
  -- every index of the group is valid, so no candidate is left out
  have hlength : (indexes.filterMap (candidates[·]?)).length = indexes.length := by
    clear cached
    induction indexes with
    | nil => rfl
    | cons i is ih =>
      obtain ⟨c, hc, -⟩ := hvalid i (by simp)
      rw [List.filterMap_cons_some hc, List.length_cons, List.length_cons,
        ih fun j hj => hvalid j (by simp [hj])]
  have hrole : authorityOnly = true →
      ∀ c ∈ indexes.filterMap (candidates[·]?), c.role = .authoritative := by
    intro honly c hc
    obtain ⟨i, hi, hci⟩ := List.mem_filterMap.1 hc
    obtain ⟨d, hd, hdrole⟩ := hvalid i hi
    rw [hci] at hd
    obtain rfl := Option.some.inj hd
    exact hdrole honly
  have hplan := planRoutes_perm crate {
    candidates := indexes.filterMap (candidates[·]?)
    locations
    cached := cached.bind fun i => indexes.findIdx? (· == i)
    authorityOnly
    stagger }
  rw [routeEntries_index crate hrole, hlength] at hplan
  -- the plan permutes the positions, and so the indexes
  have hmap := hplan.map fun i => indexes[i]?.getD 0
  have hself : ((List.range indexes.length).map fun i => indexes[i]?.getD 0) = indexes := by
    apply List.ext_getElem (by simp)
    intro i hi hi'
    simp [hi']
  rw [hself, List.map_map] at hmap
  simp only [groupPlan, RoutePlan.routes] at hmap ⊢
  rw [← List.map_append, List.map_map]
  exact hmap

/-! ### Groups -/

/-- The candidates of a group reach one store: they are one candidate, or share role and hub. -/
def StoreGroup (candidates : List HubCandidate) (group : List Nat) : Prop :=
  ∃ i c, group.head? = some i ∧ candidates[i]? = some c ∧ ∀ j ∈ group, ∃ d,
    candidates[j]? = some d ∧ d.role = c.role ∧ (j = i ∨ (d.hub = c.hub ∧ c.hub ≠ none))

theorem reaches_spec {candidate first : HubCandidate} {group : List Nat} {i : Nat}
    (hhead : group.head? = some i) (hfirst : candidates[i]? = some first)
    (h : reaches candidates candidate group = true) :
    first.role = candidate.role ∧ candidate.hub = first.hub ∧ first.hub ≠ none := by
  unfold reaches at h
  rw [hhead, Option.bind_some, hfirst] at h
  cases hhub : candidate.hub with
  | none => simp [hhub] at h
  | some hub =>
    by_cases hempty : hub = ""
    · simp [hhub, hempty] at h
    · simp only [hhub, Option.filter, hempty, ne_eq, not_false_eq_true, decide_true, if_true,
        Bool.and_eq_true, beq_iff_eq] at h
      simp [h.1, h.2]

/-- What one more candidate makes of the groups. -/
theorem mem_joinGroup {groups : List (List Nat)} {p : HubCandidate × Nat} {group : List Nat}
    (h : group ∈ joinGroup candidates groups p) :
    group ∈ groups ∨ group = [p.2] ∨
      ∃ g ∈ groups, reaches candidates p.1 g = true ∧ group = g ++ [p.2] := by
  induction groups with
  | nil =>
    right; left
    simpa [joinGroup] using h
  | cons g gs ih =>
    unfold joinGroup at h
    split at h
    next hreach =>
      rcases List.mem_cons.1 h with rfl | h
      · exact .inr (.inr ⟨g, by simp, hreach, rfl⟩)
      · exact .inl (List.mem_cons_of_mem _ h)
    next =>
      rcases List.mem_cons.1 h with rfl | h
      · exact .inl (by simp)
      · rcases ih h with h | h | ⟨g', hg', hreach, rfl⟩
        · exact .inl (List.mem_cons_of_mem _ h)
        · exact .inr (.inl h)
        · exact .inr (.inr ⟨g', List.mem_cons_of_mem _ hg', hreach, rfl⟩)

theorem mem_flatten_joinGroup {groups : List (List Nat)} {p : HubCandidate × Nat} {i : Nat} :
    i ∈ (joinGroup candidates groups p).flatten ↔ i ∈ groups.flatten ∨ i = p.2 := by
  induction groups with
  | nil => simp [joinGroup]
  | cons g gs ih =>
    unfold joinGroup
    split
    · simp only [List.flatten_cons, List.mem_append, List.mem_singleton]
      tauto
    · simp only [List.flatten_cons, List.mem_append, ih]
      tauto

theorem joinGroup_append {front back : List (List Nat)} {p : HubCandidate × Nat}
    (h : ∀ g ∈ front, reaches candidates p.1 g = false) :
    joinGroup candidates (front ++ back) p = front ++ joinGroup candidates back p := by
  induction front with
  | nil => rfl
  | cons g gs ih =>
    rw [List.cons_append, joinGroup, h g (by simp), ih fun g' hg' => h g' (by simp [hg'])]
    rfl

/-- A group of one store whose candidates have a role for which `P` holds. -/
def RoleGroup (candidates : List HubCandidate) (P : HubRole → Prop) (group : List Nat) : Prop :=
  StoreGroup candidates group ∧ ∀ i ∈ group, ∀ c, candidates[i]? = some c → P c.role

theorem roleGroup_joinGroup {P : HubRole → Prop} {groups : List (List Nat)}
    {p : HubCandidate × Nat} (hp : candidates[p.2]? = some p.1) (hrole : P p.1.role)
    (h : ∀ g ∈ groups, RoleGroup candidates P g) :
    ∀ g ∈ joinGroup candidates groups p, RoleGroup candidates P g := by
  intro g hg
  rcases mem_joinGroup hg with hg | rfl | ⟨g', hg', hreach, rfl⟩
  · exact h g hg
  · refine ⟨⟨p.2, p.1, rfl, hp, ?_⟩, ?_⟩
    · intro j hj
      obtain rfl := List.mem_singleton.1 hj
      exact ⟨p.1, hp, rfl, .inl rfl⟩
    · intro i hi c hc
      obtain rfl := List.mem_singleton.1 hi
      rw [hp] at hc
      rwa [← Option.some.inj hc]
  · obtain ⟨⟨i, first, hhead, hfirst, hstore⟩, hroles⟩ := h g' hg'
    obtain ⟨hsame, hhub, hnamed⟩ := reaches_spec hhead hfirst hreach
    refine ⟨⟨i, first, by rw [List.head?_append, hhead]; rfl, hfirst, ?_⟩, ?_⟩
    · intro j hj
      rcases List.mem_append.1 hj with hj | hj
      · exact hstore j hj
      · obtain rfl := List.mem_singleton.1 hj
        exact ⟨p.1, hp, hsame.symm, .inr ⟨hhub, hnamed⟩⟩
    · intro j hj c hc
      rcases List.mem_append.1 hj with hj | hj
      · exact hroles j hj c hc
      · obtain rfl := List.mem_singleton.1 hj
        rw [hp] at hc
        rwa [← Option.some.inj hc]

theorem roleGroup_foldl {P : HubRole → Prop} {ps : List (HubCandidate × Nat)}
    (hps : ∀ p ∈ ps, candidates[p.2]? = some p.1 ∧ P p.1.role) : ∀ {groups : List (List Nat)},
    (∀ g ∈ groups, RoleGroup candidates P g) →
      ∀ g ∈ ps.foldl (joinGroup candidates) groups, RoleGroup candidates P g := by
  induction ps with
  | nil => exact fun h => h
  | cons p ps ih =>
    intro groups h
    obtain ⟨hp, hrole⟩ := hps p (by simp)
    exact ih (fun q hq => hps q (by simp [hq])) (roleGroup_joinGroup hp hrole h)

theorem mem_flatten_foldl {ps : List (HubCandidate × Nat)} {i : Nat} :
    ∀ {groups : List (List Nat)}, i ∈ (ps.foldl (joinGroup candidates) groups).flatten ↔
      i ∈ groups.flatten ∨ ∃ p ∈ ps, p.2 = i := by
  induction ps with
  | nil => simp
  | cons p ps ih =>
    intro groups
    rw [List.foldl_cons, ih, mem_flatten_joinGroup]
    simp only [List.mem_cons, exists_eq_or_imp]
    tauto

/-- Candidates of a role other than the groups' leave those groups as they are. -/
theorem foldl_joinGroup_append {P : HubRole → Prop} {front : List (List Nat)}
    (hfront : ∀ g ∈ front, RoleGroup candidates P g) {ps : List (HubCandidate × Nat)}
    (hps : ∀ p ∈ ps, ¬P p.1.role) : ∀ {back : List (List Nat)},
    ps.foldl (joinGroup candidates) (front ++ back) =
      front ++ ps.foldl (joinGroup candidates) back := by
  induction ps with
  | nil => exact fun {back} => rfl
  | cons p ps ih =>
    intro back
    have hreach : ∀ g ∈ front, reaches candidates p.1 g = false := by
      intro g hg
      obtain ⟨⟨i, first, hhead, hfirst, -⟩, hroles⟩ := hfront g hg
      rw [Bool.eq_false_iff]
      intro hreach
      obtain ⟨hsame, -, -⟩ := reaches_spec hhead hfirst hreach
      have hmem : i ∈ g := List.mem_of_mem_head? (by rw [hhead]; rfl)
      exact hps p (by simp) (hsame ▸ hroles i hmem first hfirst)
    rw [List.foldl_cons, List.foldl_cons, joinGroup_append hreach,
      ih fun q hq => hps q (by simp [hq])]

theorem mem_ofRole {role : HubRole} {p : HubCandidate × Nat} :
    p ∈ ofRole candidates role ↔ candidates[p.2]? = some p.1 ∧ p.1.role = role := by
  simp [ofRole, List.mem_zipIdx_iff_getElem?]

/-- **The groups of the authority come first**, then those of the other roles unless only the
authority is asked; together they hold every candidate that is asked. -/
theorem groups_split (candidates : List HubCandidate) (authorityOnly : Bool) :
    ∃ authority others, groups candidates authorityOnly = authority ++ others ∧
      (∀ g ∈ authority, RoleGroup candidates (· = .authoritative) g) ∧
      (∀ g ∈ others, RoleGroup candidates (· ≠ .authoritative) g) ∧
      (authorityOnly = true → others = []) ∧
      (∀ i c, candidates[i]? = some c → c.role = .authoritative → i ∈ authority.flatten) ∧
      ∀ i c, candidates[i]? = some c → c.role ≠ .authoritative → authorityOnly = false →
        i ∈ others.flatten := by
  -- the authorities are grouped first
  have hauthority : ∀ g ∈ (ofRole candidates .authoritative).foldl (joinGroup candidates) [],
      RoleGroup candidates (· = .authoritative) g :=
    roleGroup_foldl (fun p hp => mem_ofRole.1 hp) (by simp)
  have hmem : ∀ i c, candidates[i]? = some c → c.role = .authoritative →
      i ∈ ((ofRole candidates .authoritative).foldl (joinGroup candidates) []).flatten :=
    fun i c hc hrole => mem_flatten_foldl.2 (.inr ⟨(c, i), mem_ofRole.2 ⟨hc, hrole⟩, rfl⟩)
  have hother : ∀ role : HubRole, role ≠ .authoritative → ∀ p ∈ ofRole candidates role,
      candidates[p.2]? = some p.1 ∧ p.1.role ≠ .authoritative := by
    intro role hrole p hp
    obtain ⟨hp, hprole⟩ := mem_ofRole.1 hp
    exact ⟨hp, by rw [hprole]; exact hrole⟩
  cases authorityOnly with
  | true =>
    refine ⟨_, [], by rw [groups, if_pos rfl, List.append_nil], hauthority, by simp, by simp, hmem,
      by simp⟩
  | false =>
    refine ⟨_, (ofRole candidates .cloud).foldl (joinGroup candidates)
      ((ofRole candidates .fallback).foldl (joinGroup candidates) []), ?_, hauthority, ?_, by simp,
      hmem, ?_⟩
    · -- the other roles join no group of an authority
      have hfallback : (ofRole candidates .fallback).foldl (joinGroup candidates)
          ((ofRole candidates .authoritative).foldl (joinGroup candidates) [] ++ []) = _ :=
        foldl_joinGroup_append hauthority fun p hp => (hother .fallback (by decide) p hp).2
      have hcloud : (ofRole candidates .cloud).foldl (joinGroup candidates)
          ((ofRole candidates .authoritative).foldl (joinGroup candidates) [] ++
            (ofRole candidates .fallback).foldl (joinGroup candidates) []) = _ :=
        foldl_joinGroup_append hauthority fun p hp => (hother .cloud (by decide) p hp).2
      rw [List.append_nil] at hfallback
      rw [groups, if_neg (by decide), hfallback, hcloud]
    · exact roleGroup_foldl (hother .cloud (by decide))
        (roleGroup_foldl (hother .fallback (by decide)) (by simp))
    · -- a candidate's own role decides where it is put
      intro i c hc hrole _
      rw [mem_flatten_foldl, mem_flatten_foldl]
      cases hcrole : c.role with
      | authoritative => exact absurd hcrole hrole
      | fallback => exact .inl (.inr ⟨(c, i), mem_ofRole.2 ⟨hc, hcrole⟩, rfl⟩)
      | cloud => exact .inr ⟨(c, i), mem_ofRole.2 ⟨hc, hcrole⟩, rfl⟩

end AgentHub.Routes
