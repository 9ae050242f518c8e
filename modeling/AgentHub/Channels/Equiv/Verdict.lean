import AgentHub.Channels.Equiv.Moment

/-!
# Whether a decision lasts

`resolve_claim` writes the outcome into the status of each claim, and a renewal computes the
statuses anew from the conflicts alone.  So a decision lasts as long as no renewal finds the claim
of another agent than the winner (`decision_lasts`).
-/

namespace AgentHub.Channels

open AgentHub.Validation AgentHub.Outbox AgentHub.Hub Program Store

/-! ### Decisions -/

/-- The claim has the status that a decision for the winner gives it. -/
def Decided (winner : String) (claim : OwnershipClaim) : Prop :=
  claim.status = if claim.agent = winner then .granted else .reviewAssigned

/-- The operation keeps to a decision on the resource: a renewal is refused, or the claims it finds
are the winner's. -/
def Heeds (lib : Library) (resource winner : String) (s : Store) (i : ClaimInput) : Prop :=
  match i.op with
  | .renew other agent leaseTtlSeconds =>
    if claimsRedisKey other = claimsRedisKey resource then
      (∀ claim ∈ loaded lib (claimsRedisKey resource) i.env s, claim.agent ≠ agent) ∨
      (∀ claim ∈ loaded lib (claimsRedisKey resource) i.env s, claim.agent = winner) ∨
      computeExpiry s.clock (max (leaseTtlSeconds.getD (UInt64.ofNat claimTtlSecs)) 1) =
        .error .panicked
    else claimsRedisKey resource ∉ resourceKeys other
  | .claim other _ _ _ | .release other _ | .resolve other _ _ _ =>
    claimsRedisKey resource ∉ resourceKeys other
  | .state _ | .list _ _ => True

section Decided

seal persistClaims

variable {lib : Library} {winner : String} {s : Store}

theorem decided_outcome (winner : String) (claim : OwnershipClaim) :
    Decided winner (outcome winner claim) := rfl

/-- **A resolution that is returned has decided every claim.** -/
theorem wp_resolve_decides {C : RedisCall → CallEnv → Store → Prop}
    (resource winner reason resolvedBy : String) :
    Wp lib C (resolveClaim lib resource winner reason resolvedBy)
      (fun r t => ∀ state, r = .ok state → Entries (Decided winner) (claimsRedisKey resource) t)
      s := by
  unfold resolveClaim
  refine wp_then (fun _ _ => True) (wp_mono _ _ _ (fun _ _ _ => trivial) (wp_clock lib _)) ?_
    fun _ _ _ _ he => by cases he
  intro claims t _
  split
  · intro state he
    cases he
  · refine wp_now fun d => ?_
    have houtcome : ∀ claim ∈ claims.map (outcome winner), Decided winner claim := by
      intro claim hclaim
      obtain ⟨old, -, rfl⟩ := List.mem_map.1 hclaim
      exact decided_outcome winner old
    refine wp_then _ (wp_persist_entries houtcome) ?_ fun _ _ _ _ he => by cases he
    intro _ u hentries
    -- What follows writes under the key of the resolution only.
    have hidle : ∀ c : RedisCall, c.writes = [] →
        Enters (Decided winner) (claimsRedisKey resource) c :=
      (admitsLoad_enters _ _ "").idle
    have hresolution : ∀ fields, Enters (Decided winner) (claimsRedisKey resource)
        (.hset (claimResolutionKey (claimsRedisKey resource)) fields) :=
      fun _ heq => absurd heq (claimResolutionKey_ne _)
    refine wp_mono (serve lib) ClaimError.panicked C (fun _ _ h _ _ => h)
      (wp_entries ?_ (hentries rfl))
    refine (only_command (hidle _ rfl)).bind fun resolvedAt => ?_
    refine (only_command (hresolution _)).bind fun _ => ?_
    refine (only_command trivial).bind fun _ => ?_
    refine (only_getArbitrationState lib (admitsLoad_enters _ _ _)).bind fun state => ?_
    refine (only_resolveNotices hidle _ _ _ _ _).bind fun _ => ?_
    exact (only_command (hidle _ rfl)).bind fun _ => only_done _

/-- Claims of one agent, each under a name of its own. -/
theorem eq_singleton {claims : List OwnershipClaim}
    (hagents : claims.Pairwise fun a b => a.agent ≠ b.agent)
    (hall : ∀ claim ∈ claims, claim.agent = winner) {old : OwnershipClaim} (hold : old ∈ claims) :
    claims = [old] := by
  cases claims with
  | nil => cases hold
  | cons first claims =>
    cases claims with
    | nil => rw [List.mem_singleton.1 hold]
    | cons second claims =>
      have hne := (List.pairwise_cons.1 hagents).1 second List.mem_cons_self
      have hfirst := hall first List.mem_cons_self
      have hsecond := hall second (List.mem_cons_of_mem _ List.mem_cons_self)
      exact absurd (hfirst.trans hsecond.symm) hne

/-- A claim alone is granted. -/
theorem recompute_singleton (claim : OwnershipClaim) :
    recomputeClaimStatuses [claim] = [{ claim with status := .granted }] := by
  simp [recomputeClaimStatuses, conflicted]

theorem computeExpiry_later {now later : Nat} {ttlSeconds : UInt64} (hle : now ≤ later)
    (h : computeExpiry now ttlSeconds = .error .panicked) :
    computeExpiry later ttlSeconds = .error .panicked := by
  unfold computeExpiry at h ⊢
  dsimp only at h ⊢
  split at h
  · cases h
  · rename_i hpast
    exact if_neg (by omega)

/-- **A renewal that keeps to the decision.** -/
theorem decided_renew {resource other agent : String} {leaseTtlSeconds : Option UInt64}
    {env : Nat → CallEnv} (h : Entries (Decided winner) (claimsRedisKey resource) s)
    (hheeds : Heeds lib resource winner s ⟨.renew other agent leaseTtlSeconds, env⟩) :
    Entries (Decided winner) (claimsRedisKey resource)
      (s.perform lib ⟨.renew other agent leaseTtlSeconds, env⟩).1 := by
  by_cases hkey : claimsRedisKey other = claimsRedisKey resource
  · simp only [Heeds, if_pos hkey] at hheeds
    simp only [Store.perform, ClaimOp.program, pure_eq, run_bind_done, renewClaim, hkey]
    refine run_load_then (C := fun _ _ _ => True)
      (fun _ t => Entries (Decided winner) (claimsRedisKey resource) t) _
      (wp_entries (only_loadActiveClaims lib (admitsLoad_enters _ _ _)) h) ?_
      (along_of_forall fun _ _ _ => trivial)
    intro t hclock ht
    refine wp_now fun d => ?_
    have hwaited : Entries (Decided winner) (claimsRedisKey resource) (t.wait d) := ht
    split
    · exact hwaited
    · rename_i old hold
      have hmem := List.mem_of_find?_eq_some hold
      have hname : old.agent = agent := by simpa using List.find?_some hold
      rcases hheeds with hnone | hall | hpast
      · exact absurd hname (hnone old hmem)
      · rw [eq_singleton h.sound.agents hall hmem]
        -- The renewed claim is alone, and so it is granted again.
        refine wp_entries ((only_check _).bind fun expiresAt => ?_) hwaited
        refine (only_persist_enters fun claim hclaim => ?_).bind fun _ => ?_
        · rw [renewFirst, if_pos rfl, recompute_singleton, List.mem_singleton] at hclaim
          rw [hclaim]
          exact (if_pos (hall old hmem)).symm
        · exact (only_command trivial).bind fun _ => only_done _
      · have hlate : computeExpiry (t.wait d).clock _ = .error .panicked :=
          computeExpiry_later (hclock.trans (Nat.le_add_right _ _)) hpast
        rw [hlate]
        exact hwaited
  · simp only [Heeds, if_neg hkey] at hheeds
    exact entries_run (only_program lib rfl (admits_enters hheeds)) env h

/-- **An operation that keeps to the decision.** -/
theorem decided_perform {resource : String} {i : ClaimInput}
    (h : Entries (Decided winner) (claimsRedisKey resource) s)
    (hheeds : Heeds lib resource winner s i) :
    Entries (Decided winner) (claimsRedisKey resource) (s.perform lib i).1 := by
  obtain ⟨op, env⟩ := i
  cases op with
  | renew other agent leaseTtlSeconds => exact decided_renew h hheeds
  | claim other agent priorityArgument options =>
    exact entries_run (only_program lib rfl (admits_enters hheeds)) env h
  | release other agent => exact entries_run (only_program lib rfl (admits_enters hheeds)) env h
  | resolve other winner reason resolvedBy =>
    exact entries_run (only_program lib rfl (admits_enters hheeds)) env h
  | state other =>
    refine entries_run (Only.bind ?_ fun _ => only_done _) env h
    exact only_getArbitrationState lib (admitsLoad_enters _ _ _)
  | list resourceFilter statusFilter =>
    exact entries_run (only_list lib _ _ fun k => admitsLoad_enters _ _ k) env h

/-- **A decision stays.** -/
theorem decided_exec {resource : String} {is : List ClaimInput}
    (h : Entries (Decided winner) (claimsRedisKey resource) s)
    (hheeds : (claimBus lib).Meets (Heeds lib resource winner) s is) :
    Entries (Decided winner) (claimsRedisKey resource) ((claimBus lib).exec s is).1 :=
  (claimBus lib).exec_of_meets (I := fun t _ => Entries (Decided winner) (claimsRedisKey resource) t)
    (fun _ _ _ hI hC => decided_perform hI hC) h hheeds

/-- What a resolution that is returned leaves. -/
theorem resolve_decides {resource reason resolvedBy : String} {env : Nat → CallEnv}
    {state : ArbitrationState}
    (h : (s.perform lib ⟨.resolve resource winner reason resolvedBy, env⟩).2 =
      .ok (.state state)) :
    Entries (Decided winner) (claimsRedisKey resource)
      (s.perform lib ⟨.resolve resource winner reason resolvedBy, env⟩).1 := by
  have hresolved : ∀ given,
      ((resolveClaim lib resource winner reason resolvedBy).run (serve lib) .panicked env s).2 =
        .ok given →
      Entries (Decided winner) (claimsRedisKey resource)
        ((resolveClaim lib resource winner reason resolvedBy).run (serve lib) .panicked env s).1 :=
    run_of_Wp (C := fun _ _ _ => True) _ (wp_resolve_decides resource winner reason resolvedBy)
      (along_of_forall fun _ _ _ => trivial)
  simp only [Store.perform, ClaimOp.program, pure_eq, run_bind_done] at h ⊢
  obtain ⟨given, hgiven, -⟩ := map_eq_ok.1 h
  exact hresolved given hgiven

/-- **A decision lasts.**  After a resolution that is returned, in every run whose steps keep to the
decision, the stored claim of the winner is granted and every other is assigned to review; and the
last claim that was given to the winner, in a run whose lifetimes cover the leases, is found granted
by every load before its lease ends. -/
theorem decision_lasts (lib : Library) (resource winner reason resolvedBy : String)
    (env : Nat → CallEnv) (before after : List ClaimInput) (state : ArbitrationState) :
    let decision : ClaimInput := ⟨.resolve resource winner reason resolvedBy, env⟩
    let key := claimsRedisKey resource
    let last := ((claimBus lib).exec {} (before ++ decision :: after)).1
    (((claimBus lib).exec {} before).1.perform lib decision).2 = .ok (.state state) →
    (claimBus lib).Meets (Heeds lib resource winner)
      (((claimBus lib).exec {} before).1.perform lib decision).1 after →
    Entries (Decided winner) key last ∧
    (∀ load : Nat → CallEnv, ∃ claims,
      ((loadActiveClaims lib key).run (serve lib) .panicked load last).2 = .ok claims ∧
        ∀ claim ∈ claims, Decided winner claim) ∧
    ∀ (earlier later : List ClaimInput) (grant : ClaimInput) (claim : OwnershipClaim) (E : Int)
      (load : Nat → CallEnv), Plain key → before ++ decision :: after = earlier ++ grant :: later →
      grant.op.grants key winner →
      (claimBus lib).Meets (Lasting lib) ((claimBus lib).exec {} earlier).1 (grant :: later) →
      (((claimBus lib).exec {} earlier).1.perform lib grant).2 = .ok (.claim claim) →
      (∀ i ∈ later, ¬i.op.drops key winner) → expiry lib claim = some E →
      ((last.clock + (load 0).delay + (load 1).delay : Nat) : Int) < E →
      ∃ claims, ((loadActiveClaims lib key).run (serve lib) .panicked load last).2 = .ok claims ∧
        ∃ same ∈ claims, core same = core claim ∧ same.status = .granted := by
  intro decision key last hreply hheeds
  have hlast : Entries (Decided winner) key last := by
    have hdecided := decided_exec (resolve_decides hreply) hheeds
    show Entries _ _ ((claimBus lib).exec {} (before ++ decision :: after)).1
    rw [Machine.exec_append, Machine.exec_cons]
    exact hdecided
  refine ⟨hlast, fun load => ⟨_, run_load lib key load last, hlast.loaded⟩, ?_⟩
  intro earlier later grant claim E load hplain hsplit hgrant hlasting hgiven hkept hE ht
  have hagent := (held_grant hplain (tidy_exec tidy_empty earlier) hgrant hlasting.1 hgiven).1
  have hsame : last = ((claimBus lib).exec {} (earlier ++ grant :: later)).1 := by rw [← hsplit]
  obtain ⟨claims, hclaims, same, hmem, hcore⟩ := load_finds hplain hgrant hlasting hgiven hkept hE
    load (hsame ▸ ht)
  rw [← hsame, run_load] at hclaims
  obtain rfl := Except.ok.inj hclaims
  refine ⟨_, run_load lib key load last, same, hmem, hcore, ?_⟩
  have hdecided := hlast.loaded same hmem
  rw [Decided, agent_of_core hcore, hagent, if_pos rfl] at hdecided
  exact hdecided

end Decided

/-! ### A decision that is overturned -/

/-- A claim for a minute, at the beginning of time. -/
def sampleTerm (agent argument : String) (status : ClaimStatus) : OwnershipClaim where
  resource := "x"
  agent
  priorityArgument := argument
  timestamp := formatTimestamp 0
  status
  mode := .exclusive
  leaseNamespace := none
  scopeKind := none
  scopePath := none
  repoScopes := []
  threadId := none
  leaseTtlSeconds := 60
  expiresAt := some (formatTimestamp 60000000000)
  scope := .repo
  rerouteSuggestion := none

def claimBy (agent argument : String) : ClaimInput :=
  ⟨.claim "x" agent argument sampleOptions, stillCalls⟩

/-- Two agents claim a resource. -/
def contest : List ClaimInput := [claimBy "a" "first", claimBy "b" "second"]

/-- One of them is named the winner. -/
def award : ClaimInput := ⟨.resolve "x" "a" "first" "o", stillCalls⟩

def renewalOf (agent : String) : ClaimInput := ⟨.renew "x" agent (some 60), stillCalls⟩

theorem running_term (agent argument : String) (status : ClaimStatus) :
    Running sampleLibrary 0 (sampleTerm agent argument status) := by
  have htext : formatTimestamp 60000000000 = "1970-01-01T00:01:00.000000Z" := by decide
  have hend : expiry sampleLibrary (sampleTerm agent argument status) =
      nanosOfText (formatTimestamp 60000000000) := rfl
  refine ⟨60000000000, ?_, by decide⟩
  rw [hend, htext]
  decide

theorem newClaim_term (agent argument : String) :
    newClaim sampleLibrary "x" agent argument sampleOptions 0 (formatTimestamp 60000000000) =
      sampleTerm agent argument .pending := by
  have hscope : effectiveScope sampleLibrary "x" none = .repo := by decide
  simp only [newClaim, sampleTerm, sampleOptions, hscope]
  rfl

theorem valid_term {agent argument : String} {status : ClaimStatus}
    (hagent : rejectNulBytes agent "agent" = .ok ())
    (hargument : rejectNulBytes argument "priority_argument" = .ok ()) :
    validateClaimNulFields (sampleTerm agent argument status) = .ok () := by
  have htext : ∀ t name, rejectNulBytes (formatTimestamp t) name = .ok () := fun t name =>
    rejectNulBytes_eq_ok.2 (nul_notMem_formatTimestamp t)
  have hresource : rejectNulBytes "x" "resource" = .ok () := by decide
  simp only [validateClaimNulFields, rejectNulInFields, sampleTerm, hagent, hargument, htext,
    hresource, Option.toList_none, Option.toList_some, List.map_nil, List.map_cons]
  rfl

/-- The claims of both agents. -/
def terms (first second : ClaimStatus) : List OwnershipClaim :=
  [sampleTerm "a" "first" first, sampleTerm "b" "second" second]

theorem forall_terms {P : OwnershipClaim → Prop} {first second : ClaimStatus}
    (ha : P (sampleTerm "a" "first" first)) (hb : P (sampleTerm "b" "second" second)) :
    ∀ claim ∈ terms first second, P claim := by
  intro claim hclaim
  rcases List.mem_cons.1 hclaim with rfl | hclaim
  · exact ha
  · rw [List.mem_singleton.1 hclaim]
    exact hb

theorem sound_terms (first second : ClaimStatus) : Sound (terms first second) where
  valid := forall_terms (valid_term (by decide) (by decide)) (valid_term (by decide) (by decide))
  agents := by
    have hne : "a" ≠ "b" := by decide
    exact List.pairwise_pair.2 hne

theorem sound_term {status : ClaimStatus} : Sound [sampleTerm "a" "first" status] :=
  ⟨by simpa using valid_term (by decide) (by decide), List.pairwise_singleton _ _⟩

theorem running_terms (first second : ClaimStatus) :
    ∀ claim ∈ terms first second, Running sampleLibrary 0 claim :=
  forall_terms (running_term _ _ _) (running_term _ _ _)

theorem sort_terms (first second : ClaimStatus) :
    sortClaims (terms first second) = terms first second :=
  sortClaims_same (forall_terms rfl rfl)

theorem recompute_terms (first second : ClaimStatus) :
    recomputeClaimStatuses (terms first second) = terms .contested .contested := rfl

theorem sample_expiry : computeExpiry 0 60 = .ok (formatTimestamp 60000000000) := by
  have hend : 0 + max (60 : UInt64).toNat 1 * nanosPerSecond = 60000000000 := by decide
  have hcalendar : 60000000000 < calendarEnd * nanosPerSecond := by decide
  simp only [computeExpiry, hend, if_pos hcalendar]

theorem sample_key : rejectNulBytes (claimsRedisKey "x") "claim_key" = .ok () := by decide

/-- The claims of the resource are these, at the beginning of time. -/
def AtStart (claims : List OwnershipClaim) (s : Store) : Prop :=
  s.clock = 0 ∧ Stands (claimsRedisKey "x") claims s

section Steps

variable {s : Store} {first second : ClaimStatus}

theorem claimBy_first (h : AtStart [] s) :
    AtStart [sampleTerm "a" "first" .granted]
      ((claimBus sampleLibrary).step s (claimBy "a" "first")).1 := by
  have hprogram : ClaimOp.program sampleLibrary (.claim "x" "a" "first" sampleOptions) =
      claimResourceWithOptions sampleLibrary "x" "a" "first" sampleOptions >>=
        fun claim => pure (.claim claim) := rfl
  unfold AtStart claimBy
  refine leaves_step hprogram ?_
  have hcheck : checkClaim "x" "a" sampleOptions = .ok () := by decide
  refine still_claim h.1 h.2 (by simp) sample_key hcheck sample_expiry ?_ (by simp) ?_ ?_
  · rw [sortClaims_nil, newClaim_term]
    rfl
  · exact sound_term
  · simpa using running_term "a" "first" .granted

theorem claimBy_second (h : AtStart [sampleTerm "a" "first" first] s) :
    AtStart (terms .contested .contested)
      ((claimBus sampleLibrary).step s (claimBy "b" "second")).1 := by
  have hprogram : ClaimOp.program sampleLibrary (.claim "x" "b" "second" sampleOptions) =
      claimResourceWithOptions sampleLibrary "x" "b" "second" sampleOptions >>=
        fun claim => pure (.claim claim) := rfl
  unfold AtStart claimBy
  refine leaves_step hprogram ?_
  have hcheck : checkClaim "x" "b" sampleOptions = .ok () := by decide
  refine still_claim h.1 h.2 (by simpa using running_term "a" "first" first) sample_key hcheck
    sample_expiry ?_ (by simp [terms]) (sound_terms _ _) (running_terms _ _)
  rw [sortClaims_same (List.forall_mem_singleton.2 rfl), newClaim_term]
  exact recompute_terms first .pending

theorem award_leaves {claims after : List OwnershipClaim} (h : AtStart claims s)
    (hrun : ∀ claim ∈ claims, Running sampleLibrary 0 claim)
    (hafter : (sortClaims claims).map (outcome "a") = after) (hne : after ≠ [])
    (hsound : Sound after) (hlong : ∀ claim ∈ after, Running sampleLibrary 0 claim) :
    AtStart after ((claimBus sampleLibrary).step s award).1 := by
  have hprogram : ClaimOp.program sampleLibrary (.resolve "x" "a" "first" "o") =
      resolveClaim sampleLibrary "x" "a" "first" "o" >>= fun state => pure (.state state) := rfl
  unfold AtStart award
  exact leaves_step hprogram (still_resolve h.1 h.2 hrun sample_key hafter hne hsound hlong)

theorem award_step (h : AtStart (terms first second) s) :
    AtStart (terms .granted .reviewAssigned) ((claimBus sampleLibrary).step s award).1 := by
  refine award_leaves h (running_terms _ _) ?_ (by simp [terms]) (sound_terms _ _)
    (running_terms _ _)
  rw [sort_terms]
  rfl

/-- The winner is the only one who claimed. -/
theorem award_alone (h : AtStart [sampleTerm "a" "first" first] s) :
    AtStart [sampleTerm "a" "first" .granted] ((claimBus sampleLibrary).step s award).1 := by
  refine award_leaves h (by simpa using running_term "a" "first" first) ?_ (by simp) sound_term
    (by simpa using running_term "a" "first" .granted)
  rw [sortClaims_same (List.forall_mem_singleton.2 rfl)]
  rfl

theorem renewalOf_step (h : AtStart (terms first second) s) :
    AtStart (terms .contested .contested)
      ((claimBus sampleLibrary).step s (renewalOf "b")).1 := by
  have hprogram : ClaimOp.program sampleLibrary (.renew "x" "b" (some 60)) =
      renewClaim sampleLibrary "x" "b" (some 60) >>= fun claim => pure (.claim claim) := rfl
  have hmax : max ((some 60 : Option UInt64).getD (UInt64.ofNat claimTtlSecs)) 1 = 60 := by decide
  have hold : (terms first second).find? (fun claim => claim.agent = "b") =
      some (sampleTerm "b" "second" second) := rfl
  unfold AtStart renewalOf
  refine leaves_step hprogram ?_
  refine still_renew h.1 h.2 (running_terms _ _) sample_key ((sort_terms _ _).symm ▸ hold)
    (hmax ▸ sample_expiry) ?_ (by simp [terms]) (sound_terms _ _) (running_terms _ _)
  rw [sort_terms, hmax]
  rfl

end Steps

theorem contest_atStart :
    AtStart (terms .contested .contested) ((claimBus sampleLibrary).exec {} contest).1 := by
  have hsplit : contest = ([] ++ [claimBy "a" "first"]) ++ [claimBy "b" "second"] := rfl
  have hempty : AtStart [] {} := ⟨rfl, rfl⟩
  rw [hsplit, Machine.exec_snoc_fst, Machine.exec_snoc_fst, Machine.exec_nil]
  exact claimBy_second (claimBy_first hempty)

/-- Who claims the resource after some operations, and in which status. -/
def statuses (is : List ClaimInput) : List (String × ClaimStatus) :=
  (loaded sampleLibrary (claimsRedisKey "x") stillCalls
    ((claimBus sampleLibrary).exec {} is).1).map fun claim => (claim.agent, claim.status)

theorem statuses_eq {is : List ClaimInput} {first second : ClaimStatus}
    (h : AtStart (terms first second) ((claimBus sampleLibrary).exec {} is).1) :
    statuses is = [("a", first), ("b", second)] := by
  have hrun := running_terms first second
  rw [← h.1] at hrun
  rw [statuses, loaded_stands h.2 hrun, sort_terms]
  rfl

/-- The loser renews its claim, and both are contested again. -/
theorem decision_overturned :
    statuses (contest ++ [award]) = [("a", .granted), ("b", .reviewAssigned)] ∧
      statuses (contest ++ [award, renewalOf "b"]) = [("a", .contested), ("b", .contested)] := by
  have hawarded : AtStart (terms .granted .reviewAssigned)
      ((claimBus sampleLibrary).exec {} (contest ++ [award])).1 := by
    rw [Machine.exec_snoc_fst]
    exact award_step contest_atStart
  have hrenewed : AtStart (terms .contested .contested)
      ((claimBus sampleLibrary).exec {} (contest ++ [award] ++ [renewalOf "b"])).1 := by
    rw [Machine.exec_snoc_fst]
    exact renewalOf_step hawarded
  exact ⟨statuses_eq hawarded, statuses_eq hrenewed⟩

theorem award_returned {s : Store} {claims : List OwnershipClaim} (h : AtStart claims s)
    (hrun : ∀ claim ∈ claims, Running sampleLibrary 0 claim) (hne : claims ≠ [])
    (hsound : Sound ((sortClaims claims).map (outcome "a"))) :
    ∃ state, (s.perform sampleLibrary award).2 = .ok (.state state) := by
  rw [← h.1] at hrun
  have hresolved : ∃ state,
      ((resolveClaim sampleLibrary "x" "a" "first" "o").run (serve sampleLibrary) .panicked
        stillCalls s).2 = .ok state :=
    run_of_Wp _ (still_resolve_ok h.2 hrun sample_key hne "first" "o" hsound)
      (along_of_forall fun _ _ _ => rfl)
  obtain ⟨state, hstate⟩ := hresolved
  refine ⟨state, ?_⟩
  simp only [Store.perform, award, ClaimOp.program, pure_eq, run_bind_done, hstate]
  rfl

theorem award_contest {s : Store} {first second : ClaimStatus} (h : AtStart (terms first second) s) :
    ∃ state, (s.perform sampleLibrary award).2 = .ok (.state state) := by
  refine award_returned h (running_terms _ _) (by simp [terms]) ?_
  rw [sort_terms]
  exact sound_terms .granted .reviewAssigned

/-- The renewal of an agent without a claim keeps to any decision. -/
theorem renewal_refused {s : Store} {first second : ClaimStatus}
    (h : AtStart (terms first second) s) :
    (claimBus sampleLibrary).Meets (Heeds sampleLibrary "x" "a") s [renewalOf "c"] := by
  have hrun := running_terms first second
  rw [← h.1] at hrun
  have hne : "a" ≠ "c" ∧ "b" ≠ "c" := by decide
  have hothers : ∀ claim ∈ loaded sampleLibrary (claimsRedisKey "x") stillCalls s,
      claim.agent ≠ "c" := by
    rw [loaded_stands h.2 hrun, sort_terms]
    exact forall_terms hne.1 hne.2
  refine ⟨?_, trivial⟩
  simp only [Heeds, renewalOf, if_pos]
  exact .inl hothers

/-- The renewal of a winner who is alone keeps to the decision. -/
theorem renewal_alone {s : Store} {status : ClaimStatus}
    (h : AtStart [sampleTerm "a" "first" status] s) :
    (claimBus sampleLibrary).Meets (Heeds sampleLibrary "x" "a") s [renewalOf "a"] := by
  have hrun : ∀ claim ∈ [sampleTerm "a" "first" status], Running sampleLibrary s.clock claim := by
    rw [h.1]
    simpa using running_term "a" "first" status
  have hwinner : ∀ claim ∈ loaded sampleLibrary (claimsRedisKey "x") stillCalls s,
      claim.agent = "a" := by
    rw [loaded_stands h.2 hrun, sortClaims_same (List.forall_mem_singleton.2 rfl)]
    exact List.forall_mem_singleton.2 rfl
  refine ⟨?_, trivial⟩
  simp only [Heeds, renewalOf, if_pos]
  exact .inr (.inl hwinner)

theorem award_perform {s : Store} {after : List OwnershipClaim}
    (h : AtStart after ((claimBus sampleLibrary).step s award).1) :
    AtStart after (s.perform sampleLibrary award).1 := h

/-- A decision against another agent, before a renewal that is refused, and one that the winner
alone renews its claim after. -/
theorem decision_lasts_renewed :
    Entries (Decided "a") (claimsRedisKey "x")
        ((claimBus sampleLibrary).exec {} (contest ++ award :: [renewalOf "c"])).1 ∧
      Entries (Decided "a") (claimsRedisKey "x")
        ((claimBus sampleLibrary).exec {} ([claimBy "a" "first"] ++ award :: [renewalOf "a"])).1 := by
  constructor
  · obtain ⟨state, hstate⟩ := award_contest contest_atStart
    exact (decision_lasts sampleLibrary "x" "a" "first" "o" stillCalls contest [renewalOf "c"] state
      hstate (renewal_refused (award_perform (award_step contest_atStart)))).1
  · have hclaimed : AtStart [sampleTerm "a" "first" .granted]
        ((claimBus sampleLibrary).exec {} [claimBy "a" "first"]).1 := by
      have hempty : AtStart [] {} := ⟨rfl, rfl⟩
      rw [← List.nil_append [claimBy "a" "first"], Machine.exec_snoc_fst, Machine.exec_nil]
      exact claimBy_first hempty
    have hsound : Sound ((sortClaims [sampleTerm "a" "first" .granted]).map (outcome "a")) := by
      rw [sortClaims_same (List.forall_mem_singleton.2 rfl)]
      exact sound_term
    obtain ⟨state, hstate⟩ := award_returned hclaimed
      (by simpa using running_term "a" "first" .granted) (by simp) hsound
    exact (decision_lasts sampleLibrary "x" "a" "first" "o" stillCalls [claimBy "a" "first"]
      [renewalOf "a"] state hstate (renewal_alone (award_perform (award_alone hclaimed)))).1

end AgentHub.Channels
